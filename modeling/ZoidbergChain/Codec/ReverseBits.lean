import ZoidbergChain.Codec.Tables

/-!
# The bit readers and the integer of their data

`ReverseBits` reads a byte string from its end, from the highest bit that is set in the last
byte. Both readers take their bits from slices of a few bytes.

- `Cursor` reads the same bits from the little-endian integer of the whole data.
- `reverse_outcomes`, `forward_outcomes`: whatever is read, the readers answer as their cursors.
-/

namespace ZoidbergChain

open Python

namespace Codec

/-! ## The reverse reader -/

/-- `data[i]`, for an index that is not negative. -/
def byteAt (data : List UInt8) (i : Nat) : Py Nat := do
  let b ← orRaise data[i]? { exc := .indexError, message := "index out of range" }
  .ok b.toNat

/-- `ReverseBits`. -/
structure ReverseBits where
  data : List UInt8
  bit : Nat

namespace ReverseBits

/-- `ReverseBits(data)`. -/
def make (data : List UInt8) : Py ReverseBits :=
  match data.getLast? with
  | none => .error invalid
  | some last =>
    if last = 0 then .error invalid
    else .ok ⟨data, (data.length - 1) * 8 + bitLength last.toNat - 1⟩

/-- The bits that `read` takes from the bytes at its new position: one or two bytes by their
indices, else a slice of five. -/
def taken (bits : ReverseBits) (width : Nat) : Py Nat := do
  let start := bits.bit / 8
  let shift := bits.bit % 8
  if width ≤ 8 then
    let value ← byteAt bits.data start
    if 8 < width + shift then
      let next ← byteAt bits.data (start + 1)
      .ok (((value ||| next <<< 8) >>> shift) &&& (2 ^ width - 1))
    else .ok ((value >>> shift) &&& (2 ^ width - 1))
  else
    .ok ((ofBytesLittle (slice bits.data start (start + 5 : Nat)) >>> shift) &&& (2 ^ width - 1))

/-- `read`, with the reader that it leaves, also when it raises. -/
def read (bits : ReverseBits) (width : Int) : Py Nat × ReverseBits :=
  if ¬(0 ≤ width ∧ width ≤ 31) ∨ (bits.bit : Int) < width then (.error invalid, bits)
  else if width = 0 then (.ok 0, bits)
  else
    let moved := { bits with bit := bits.bit - width.toNat }
    (moved.taken width.toNat, moved)

end ReverseBits

/-! ## Little-endian numbers -/

theorem ofBytesLittle_cons (x : UInt8) (xs : List UInt8) :
    ofBytesLittle (x :: xs) = x.toNat + 256 * ofBytesLittle xs := by
  rw [ofBytesLittle, List.reverse_cons, ofBytes_append, Nat.add_comm]
  rfl

theorem ofBytesLittle_lt (data : List UInt8) : ofBytesLittle data < 256 ^ data.length := by
  induction data with
  | nil => exact Nat.one_pos
  | cons x xs ih =>
    have hx : x.toNat < 256 := x.toNat_lt
    rw [ofBytesLittle_cons, List.length_cons, pow_succ]
    omega

/-- The bytes behind the first ones are the high part. -/
theorem ofBytesLittle_drop (data : List UInt8) (k : Nat) :
    ofBytesLittle (data.drop k) = ofBytesLittle data / 256 ^ k := by
  induction data generalizing k with
  | nil =>
    rw [List.drop_nil]
    exact (Nat.zero_div _).symm
  | cons x xs ih =>
    cases k with
    | zero => rw [List.drop_zero, pow_zero, Nat.div_one]
    | succ k =>
      have hx : x.toNat < 256 := x.toNat_lt
      rw [List.drop_succ_cons, ih, ofBytesLittle_cons, pow_succ', ← Nat.div_div_eq_div_mul]
      congr 1
      omega

/-- The first bytes are the low part. -/
theorem ofBytesLittle_take (data : List UInt8) (k : Nat) :
    ofBytesLittle (data.take k) = ofBytesLittle data % 256 ^ k := by
  induction data generalizing k with
  | nil =>
    rw [List.take_nil]
    exact (Nat.zero_mod _).symm
  | cons x xs ih =>
    cases k with
    | zero => rw [List.take_zero, pow_zero, Nat.mod_one]; rfl
    | succ k =>
      have hx : x.toNat < 256 := x.toNat_lt
      have hlow : (x.toNat + 256 * ofBytesLittle xs) % 256 = x.toNat := by omega
      have hhigh : (x.toNat + 256 * ofBytesLittle xs) / 256 = ofBytesLittle xs := by omega
      rw [List.take_succ_cons, ofBytesLittle_cons, ofBytesLittle_cons, ih, pow_succ',
        Nat.mod_mul, hlow, hhigh]

theorem ofBytesLittle_singleton (x : UInt8) : ofBytesLittle [x] = x.toNat := by
  rw [ofBytesLittle_cons]
  rfl

/-- A byte of the data is a digit of its number. -/
theorem byteAt_eq (data : List UInt8) {i : Nat} (hi : i < data.length) :
    byteAt data i = .ok (ofBytesLittle data / 256 ^ i % 256) := by
  have hdrop : (data.drop i).take 1 = [data[i]] := by
    rw [List.drop_eq_getElem_cons hi]
    rfl
  have hdigit : ofBytesLittle data / 256 ^ i % 256 = data[i].toNat := by
    rw [← ofBytesLittle_drop, ← ofBytesLittle_singleton, ← hdrop, ofBytesLittle_take, pow_one]
  rw [byteAt, List.getElem?_eq_getElem hi, hdigit]
  rfl

/-- A slice of the data is a run of digits of its number. -/
theorem ofBytesLittle_slice (data : List UInt8) (start k : Nat) :
    ofBytesLittle (slice data start (start + k : Nat)) =
      ofBytesLittle data / 256 ^ start % 256 ^ k := by
  have hindex : ∀ i : Nat, sliceIndex data.length i = min i data.length := by
    intro i
    rw [sliceIndex, if_neg (by omega), Int.toNat_natCast]
  have hslice : slice data start (start + k : Nat) = (data.drop start).take k := by
    rw [slice, hindex, hindex]
    obtain hlt | hle := Nat.lt_or_ge data.length start
    · rw [Nat.min_eq_right hlt.le, List.drop_of_length_le (List.length_take_le' _ _),
        List.drop_of_length_le hlt.le, List.take_nil]
    · rw [Nat.min_eq_left hle, ← List.take_eq_take_min, List.drop_take, Nat.add_sub_cancel_left]
  rw [hslice, ofBytesLittle_take, ofBytesLittle_drop]

/-- The low bits of some digits, from within the first byte on. -/
theorem shift_and_mask (number start : Nat) {shift width k : Nat} (h : shift + width ≤ 8 * k) :
    (number / 256 ^ start % 256 ^ k) >>> shift &&& (2 ^ width - 1) =
      number / 2 ^ (8 * start + shift) % 2 ^ width := by
  have hpow : ∀ i : Nat, 256 ^ i = 2 ^ (8 * i) := fun i => (pow_mul 2 8 i).symm
  rw [Nat.and_two_pow_sub_one_eq_mod, hpow, hpow]
  refine Nat.eq_of_testBit_eq fun i => ?_
  simp only [Nat.testBit_mod_two_pow, Nat.testBit_shiftRight, Nat.testBit_div_two_pow]
  by_cases hi : i < width
  · have hlow : shift + i < 8 * k := by omega
    have hpos : 8 * start + (shift + i) = 8 * start + shift + i := by omega
    simp only [hi, hlow, decide_true, Bool.true_and]
    congr 1
    omega
  · simp only [hi, decide_false, Bool.false_and]

/-! ## Cursors -/

/-- A call to a forward reader. -/
inductive ForwardCall where
  | peek (width : Nat)
  | read (width : Nat)

def ForwardCall.width : ForwardCall → Nat
  | .peek width | .read width => width

def ForwardCall.moves : ForwardCall → Bool
  | .peek _ => false
  | .read _ => true

/-- The call, with the reader that it leaves, also when it raises. -/
def ForwardBits.call (bits : ForwardBits) : ForwardCall → Py Nat × ForwardBits
  | .peek width => (bits.peek width, bits)
  | .read width =>
    match bits.read width with
    | .ok (value, bits') => (.ok value, bits')
    | .error e => (.error e, bits)

/-- A position in the bits of a number. -/
structure Cursor where
  number : Nat
  position : Nat

namespace Cursor

/-- The bits of the number from a position on, so many of them. -/
def bitsAt (c : Cursor) (position width : Nat) : Nat := c.number / 2 ^ position % 2 ^ width

/-- The next bits below the position, unless there are fewer. -/
def below (c : Cursor) (width : Nat) : Py Nat × Cursor :=
  if c.position < width then (.error invalid, c)
  else (.ok (c.bitsAt (c.position - width) width), { c with position := c.position - width })

/-- The next bits above the position, unless they pass the end; a read moves on. -/
def above (stop : Nat) (c : Cursor) (call : ForwardCall) : Py Nat × Cursor :=
  if stop < c.position + call.width then (.error invalid, c)
  else (.ok (c.bitsAt c.position call.width),
    if call.moves then { c with position := c.position + call.width } else c)

/-- The highest bit that is set in the last byte of the data. -/
def top (data : List UInt8) : Cursor where
  number := ofBytesLittle data
  position := 8 * (data.length - 1) + Nat.log 2 (data.getLast?.getD 0).toNat

end Cursor

/-- The answers to calls that are made one after the other, also after one that raises. -/
def outcomes {ι σ α : Type} (call : σ → ι → α × σ) : σ → List ι → List α
  | _, [] => []
  | s, i :: is => (call s i).1 :: outcomes call (call s i).2 is

/-- Two callees that answer alike and stay related. -/
theorem outcomes_eq {ι σ τ α : Type} {call : σ → ι → α × σ} {call' : τ → ι → α × τ}
    {R : σ → τ → Prop} {is : List ι}
    (h : ∀ i ∈ is, ∀ s t, R s t → (call s i).1 = (call' t i).1 ∧ R (call s i).2 (call' t i).2)
    {s : σ} {t : τ} (hst : R s t) : outcomes call s is = outcomes call' t is := by
  induction is generalizing s t with
  | nil => rfl
  | cons i is ih =>
    obtain ⟨hanswer, hnext⟩ := h i (by simp) s t hst
    rw [outcomes, outcomes, hanswer, ih (fun j hj => h j (List.mem_cons_of_mem _ hj)) hnext]

/-! ## The reverse reader and its cursor -/

/-- The cursor of a reverse reader, whose bits are bits of the data. -/
structure Follows (bits : ReverseBits) (c : Cursor) : Prop where
  number : c.number = ofBytesLittle bits.data
  position : c.position = bits.bit
  bounded : bits.bit ≤ 8 * bits.data.length

/-- One byte, two bytes or a slice of five: the bits are those of the whole number. -/
theorem taken_eq {bits : ReverseBits} {width : Nat} (hpos : 0 < width) (hwidth : width ≤ 31)
    (hbits : bits.bit + width ≤ 8 * bits.data.length) :
    bits.taken width =
      .ok (ofBytesLittle bits.data / 2 ^ bits.bit % 2 ^ width) := by
  have hsplit : 8 * (bits.bit / 8) + bits.bit % 8 = bits.bit := Nat.div_add_mod _ _
  have hmask : ∀ {k : Nat}, bits.bit % 8 + width ≤ 8 * k →
      (ofBytesLittle bits.data / 256 ^ (bits.bit / 8) % 256 ^ k) >>> (bits.bit % 8) &&&
        (2 ^ width - 1) = ofBytesLittle bits.data / 2 ^ bits.bit % 2 ^ width := by
    intro k hk
    rw [shift_and_mask _ _ hk, hsplit]
  have hfirst := byteAt_eq bits.data (i := bits.bit / 8) (by omega)
  unfold ReverseBits.taken
  dsimp only
  by_cases hbyte : width ≤ 8
  · rw [if_pos hbyte, hfirst, ok_bind]
    by_cases hcross : 8 < width + bits.bit % 8
    · -- the two bytes are the low ones of the number behind the start
      have hsecond := byteAt_eq bits.data (i := bits.bit / 8 + 1) (by omega)
      rw [if_pos hcross, hsecond, ok_bind]
      have htwo : ∀ n : Nat, (n % 256 ||| (n / 256 % 256) <<< 8) = n % 256 ^ 2 := by
        intro n
        have hlow : n % 256 < 2 ^ 8 := Nat.mod_lt _ (by decide)
        rw [Nat.or_comm, ← Nat.shiftLeft_add_eq_or_of_lt hlow, Nat.shiftLeft_eq]
        omega
      rw [pow_succ, ← Nat.div_div_eq_div_mul, htwo, hmask (by omega)]
    · have hone : (256 : Nat) = 256 ^ 1 := rfl
      rw [if_neg hcross]
      nth_rewrite 2 [hone]
      rw [hmask (by omega)]
  · rw [if_neg hbyte, ofBytesLittle_slice, hmask (by omega)]

/-- A read of a reader and of its cursor. -/
theorem read_follows {bits : ReverseBits} {c : Cursor} (h : Follows bits c) {width : Nat}
    (hwidth : width ≤ 31) :
    (bits.read width).1 = (c.below width).1 ∧ Follows (bits.read width).2 (c.below width).2 := by
  have hpos := h.position
  unfold ReverseBits.read Cursor.below
  by_cases hleft : bits.bit < width
  · rw [if_pos (Or.inr (by exact_mod_cast hleft)), if_pos (by omega)]
    exact ⟨rfl, h⟩
  · have hok : ¬(¬(0 ≤ (width : Int) ∧ (width : Int) ≤ 31) ∨ (bits.bit : Int) < width) := by
      omega
    have hstay : ¬c.position < width := by omega
    rw [if_neg hok, if_neg hstay]
    by_cases hzero : width = 0
    · subst hzero
      have hbits : c.bitsAt (c.position - 0) 0 = 0 := by
        rw [Cursor.bitsAt, pow_zero, Nat.mod_one]
      rw [if_pos Nat.cast_zero, hbits]
      exact ⟨rfl, h⟩
    · have hbound := h.bounded
      have hmoved : Follows { bits with bit := bits.bit - width }
          { c with position := c.position - width } :=
        ⟨h.number, by rw [hpos], by dsimp only; omega⟩
      have htaken := @taken_eq { bits with bit := bits.bit - width } width
        (Nat.pos_of_ne_zero hzero) hwidth (by dsimp only; omega)
      rw [if_neg (by exact_mod_cast hzero)]
      dsimp only [Int.toNat_natCast]
      refine ⟨?_, hmoved⟩
      rw [htaken, Cursor.bitsAt, h.number, hpos]

/-- A reader starts at the highest bit of the last byte. -/
theorem make_follows {data : List UInt8} {bits : ReverseBits}
    (h : ReverseBits.make data = .ok bits) : bits.data = data ∧ Follows bits (Cursor.top data) := by
  unfold ReverseBits.make at h
  cases hlast : data.getLast? with
  | none =>
    rw [hlast] at h
    cases h
  | some last =>
    rw [hlast] at h
    dsimp only at h
    split at h
    · cases h
    next hne =>
    cases h
    have hnat : last.toNat ≠ 0 := fun hzero => hne (UInt8.toNat_inj.mp hzero)
    have hlog : Nat.log 2 last.toNat < 8 := Nat.log_lt_of_lt_pow hnat last.toNat_lt
    have hlength : 0 < data.length := by
      refine List.length_pos_iff.mpr ?_
      rintro rfl
      cases hlast
    refine ⟨rfl, rfl, ?_, ?_⟩
    · simp only [Cursor.top, hlast, Option.getD_some, bitLength, if_neg hnat]
      omega
    · simp only [bitLength, if_neg hnat]
      omega

theorem make_isOk {data : List UInt8} :
    (∃ bits, ReverseBits.make data = .ok bits) ↔ ∃ last, data.getLast? = some last ∧ last ≠ 0 := by
  unfold ReverseBits.make
  cases data.getLast? with
  | none => simp
  | some last =>
    dsimp only
    by_cases hzero : last = 0
    · simp [hzero]
    · simp [hzero]

/-- Whatever is read, a reverse reader answers as its cursor. -/
theorem reverse_outcomes {data : List UInt8} {bits : ReverseBits}
    (h : ReverseBits.make data = .ok bits) {widths : List Nat}
    (hwidths : ∀ width ∈ widths, width ≤ 31) :
    outcomes (fun r (width : Nat) => ReverseBits.read r width) bits widths =
      outcomes Cursor.below (Cursor.top data) widths := by
  have hstep : ∀ width ∈ widths, ∀ r c, Follows r c →
      (ReverseBits.read r width).1 = (Cursor.below c width).1 ∧
        Follows (ReverseBits.read r width).2 (Cursor.below c width).2 :=
    fun width hw r c hr => read_follows hr (hwidths width hw)
  exact outcomes_eq hstep (make_follows h).2

/-! ## The forward reader and its cursor -/

/-- The three bytes that a peek takes hold the bits of the whole number. -/
theorem peek_eq (data : List UInt8) (position : Nat) {width : Nat} (hwidth : width ≤ 10) :
    ForwardBits.peek ⟨data, position⟩ width =
      if 8 * data.length < position + width then .error invalid
      else .ok (ofBytesLittle data / 2 ^ position % 2 ^ width) := by
  have hstop : ((position : Int) + width ≤ data.length * 8) ↔
      ¬8 * data.length < position + width := by omega
  unfold ForwardBits.peek
  dsimp only
  by_cases hpass : 8 * data.length < position + width
  · rw [if_pos hpass, require_neg (fun h => hstop.mp h hpass)]
    rfl
  · have hsplit : 8 * (position / 8) + position % 8 = position := Nat.div_add_mod _ _
    have hslice := ofBytesLittle_slice data (position / 8) 3
    have hmask := @shift_and_mask (ofBytesLittle data) (position / 8) (position % 8) width 3 (by omega)
    have hshift : ((position : Int) % 8).toNat = position % 8 := by omega
    rw [if_neg hpass, require_pos (hstop.mpr hpass), ok_bind, hshift]
    have hcast : ((position : Int) / 8 : Int) = (position / 8 : Nat) := rfl
    have hend : ((position / 8 : Nat) : Int) + 3 = (position / 8 + 3 : Nat) := rfl
    rw [hcast, hend, hslice, hmask, hsplit]
    rfl

/-- A reader and a cursor at the same position of the data. -/
def SamePosition (data : List UInt8) (bits : ForwardBits) (c : Cursor) : Prop :=
  ∃ position : Nat, bits = ⟨data, position⟩ ∧ c = ⟨ofBytesLittle data, position⟩

/-- A call to a reader and to its cursor. -/
theorem call_follows {data : List UInt8} {bits : ForwardBits} {c : Cursor}
    (h : SamePosition data bits c) {call : ForwardCall} (hwidth : call.width ≤ 10) :
    (bits.call call).1 = (c.above (8 * data.length) call).1 ∧
      SamePosition data (bits.call call).2 (c.above (8 * data.length) call).2 := by
  obtain ⟨position, rfl, rfl⟩ := h
  have hpeek : ForwardBits.peek ⟨data, position⟩ call.width = _ := peek_eq data position hwidth
  by_cases hpass : 8 * data.length < position + call.width
  · rw [if_pos hpass] at hpeek
    cases call with
    | peek width =>
      rw [Cursor.above, if_pos hpass]
      exact ⟨hpeek, position, rfl, rfl⟩
    | read width =>
      have hread : ForwardBits.read ⟨data, position⟩ width = .error invalid := by
        rw [ForwardBits.read]
        exact hpeek ▸ rfl
      rw [Cursor.above, if_pos hpass, ForwardBits.call, hread]
      exact ⟨rfl, position, rfl, rfl⟩
  · rw [if_neg hpass] at hpeek
    cases call with
    | peek width =>
      rw [Cursor.above, if_neg hpass]
      exact ⟨hpeek, position, rfl, rfl⟩
    | read width =>
      have hread : ForwardBits.read ⟨data, position⟩ width =
          .ok (ofBytesLittle data / 2 ^ position % 2 ^ width, ⟨data, position + width⟩) := by
        rw [ForwardBits.read]
        exact hpeek ▸ rfl
      rw [Cursor.above, if_neg hpass, ForwardBits.call, hread]
      exact ⟨rfl, position + width, rfl, rfl⟩

/-- Whatever is read, a forward reader answers as its cursor. -/
theorem forward_outcomes (data : List UInt8) (offset : Nat) {calls : List ForwardCall}
    (hcalls : ∀ call ∈ calls, call.width ≤ 10) :
    outcomes ForwardBits.call (ForwardBits.make data offset) calls =
      outcomes (Cursor.above (8 * data.length)) ⟨ofBytesLittle data, 8 * offset⟩ calls := by
  have hmake : ForwardBits.make data offset = ⟨data, (8 * offset : Nat)⟩ := by
    rw [ForwardBits.make]
    congr 1
    push_cast
    omega
  have hstep : ∀ call ∈ calls, ∀ bits c, SamePosition data bits c →
      (ForwardBits.call bits call).1 = (Cursor.above (8 * data.length) c call).1 ∧
        SamePosition data (ForwardBits.call bits call).2
          (Cursor.above (8 * data.length) c call).2 :=
    fun call hc bits c hr => call_follows hr (hcalls call hc)
  exact outcomes_eq hstep ⟨8 * offset, hmake, rfl⟩

/-- The bit readers are their cursors in the integer of the whole data, read after read. -/
theorem bitReaders (data : List UInt8) :
    ((∃ bits, ReverseBits.make data = .ok bits) ↔ ∃ last, data.getLast? = some last ∧ last ≠ 0) ∧
    (∀ bits, ReverseBits.make data = .ok bits → ∀ widths : List Nat, (∀ w ∈ widths, w ≤ 31) →
      outcomes (fun r (width : Nat) => ReverseBits.read r width) bits widths =
        outcomes Cursor.below (Cursor.top data) widths) ∧
    ∀ (offset : Nat) (calls : List ForwardCall), (∀ call ∈ calls, call.width ≤ 10) →
      outcomes ForwardBits.call (ForwardBits.make data offset) calls =
        outcomes (Cursor.above (8 * data.length)) ⟨ofBytesLittle data, 8 * offset⟩ calls :=
  ⟨make_isOk, fun _ h _ hwidths => reverse_outcomes h hwidths,
    fun offset _ hcalls => forward_outcomes data offset hcalls⟩

theorem bitReaders_sample :
    (outcomes (fun r (width : Nat) => ReverseBits.read r width) ⟨[0xb5, 0x0d], 11⟩ [3, 9, 8] =
      [.ok 5, .error invalid, .ok 0xb5]) ∧
    outcomes ForwardBits.call (ForwardBits.make [0xb5, 0x0d] 0)
      [.read 4, .peek 10, .read 10, .read 3] = [.ok 5, .ok 0xdb, .ok 0xdb, .error invalid] :=
  ⟨((bitReaders [0xb5, 0x0d]).2.1 _ rfl [3, 9, 8] (by decide)).trans (by decide +kernel),
    ((bitReaders [0xb5, 0x0d]).2.2 0 [.read 4, .peek 10, .read 10, .read 3] (by decide)).trans
      (by decide +kernel)⟩

end Codec

end ZoidbergChain
