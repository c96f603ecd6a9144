import ZoidbergChain.Codec.TableLaws

/-!
# Reading a table (codec_prototype/sequence_verifier.py)

`readTable` reads the probabilities of a norm, every one in as few bits as what remains of the
table allows, and builds its table.

- `fseTables`: every table that is built or read is a code.
-/

namespace ZoidbergChain

open Python

namespace Codec

/-- The `while True` loop over runs of zeros. -/
def readRuns (maxSymbol : Int) (bits : ForwardBits) (norm : List Int) :
    Py (ForwardBits × List Int) :=
  match hread : bits.read 2 with
  | .error e => .error e
  | .ok (run, bits') =>
    if maxSymbol < norm.length + run then .error invalid
    else
      let norm := norm ++ List.replicate run 0
      if run ≠ 3 then .ok (bits', norm) else readRuns maxSymbol bits' norm
termination_by (bits.data.length * 8 - bits.bit).toNat
decreasing_by
  obtain ⟨rfl, hbound⟩ := ForwardBits.read_eq_ok hread
  dsimp only at hbound ⊢
  omega

/-- The last loop of a turn: the threshold is halved until it is not above what remains. -/
def lowerThreshold (remaining threshold width : Nat) : Nat × Nat :=
  if remaining < threshold then lowerThreshold remaining (threshold / 2) (width - 1)
  else (threshold, width)
termination_by threshold

/-- The state of the loop of `read_table`. -/
structure ReadState where
  bits : ForwardBits
  remaining : Nat
  threshold : Nat
  width : Nat
  norm : List Int
  zero : Bool

/-- The count of a symbol, with one added: a short one when it is small. -/
def readCount (s : ReadState) (bits : ForwardBits) : Py (Int × ForwardBits) := do
  let small : Int := 2 * s.threshold - 1 - s.remaining
  if (← bits.peek (s.width - 1)) < small then do
    let (count, bits) ← bits.read (s.width - 1)
    return (count, bits)
  else do
    let (count, bits) ← bits.read s.width
    return (if s.threshold ≤ count then count - small else count, bits)

/-- The zeros behind a symbol of probability zero. -/
def readZeros (maxSymbol : Int) (s : ReadState) : Py (ForwardBits × List Int) :=
  if s.zero then readRuns maxSymbol s.bits s.norm else .ok (s.bits, s.norm)

/-- One turn of the loop of `read_table`. -/
def readTurn (maxSymbol : Int) (s : ReadState) : Py ReadState := do
  let (bits, norm) ← readZeros maxSymbol s
  require (¬maxSymbol < norm.length) invalid
  let (read, bits) ← readCount s bits
  let count := read - 1
  -- what remains stays positive
  require (count.natAbs + 1 ≤ s.remaining) invalid
  let remaining := s.remaining - count.natAbs
  let (threshold, width) := lowerThreshold remaining s.threshold s.width
  return ⟨bits, remaining, threshold, width, norm ++ [count], decide (count = 0)⟩

/-- `readRuns` as it is written, without its termination. -/
theorem readRuns_eq (maxSymbol : Int) (bits : ForwardBits) (norm : List Int) :
    readRuns maxSymbol bits norm = (do
      let (run, bits) ← bits.read 2
      if maxSymbol < norm.length + run then .error invalid
      else if run ≠ 3 then .ok (bits, norm ++ List.replicate run 0)
      else readRuns maxSymbol bits (norm ++ List.replicate run 0)) := by
  conv_lhs => unfold readRuns
  split
  · next heq =>
    rw [heq]
    rfl
  · next heq =>
    rw [heq]
    rfl

/-- The data of a reader, and what the readers of its data have in common. -/
structure Reads (data : List UInt8) (bits : ForwardBits) : Prop where
  same : bits.data = data
  bit : bits.bit ≤ data.length * 8

theorem Reads.read {data : List UInt8} {bits bits' : ForwardBits} {width value : Nat}
    (h : bits.data = data) (hok : bits.read width = .ok (value, bits')) : Reads data bits' := by
  obtain ⟨rfl, hbound⟩ := ForwardBits.read_eq_ok hok
  exact ⟨h, h ▸ hbound⟩

theorem readRuns_eq_ok {data : List UInt8} {maxSymbol : Int} {bits bits' : ForwardBits}
    {norm norm' : List Int} (h : bits.data = data)
    (hok : readRuns maxSymbol bits norm = .ok (bits', norm')) :
    norm.length ≤ norm'.length ∧ Reads data bits' := by
  induction bits, norm using readRuns.induct maxSymbol with
  | case1 bits norm e hread =>
    rw [readRuns_eq, hread] at hok
    cases hok
  | case2 bits norm run b hread hlong =>
    rw [readRuns_eq, hread, ok_bind] at hok
    dsimp only at hok
    rw [if_pos hlong] at hok
    cases hok
  | case3 bits norm run b hread hlong hrun =>
    rw [readRuns_eq, hread, ok_bind] at hok
    dsimp only at hok
    rw [if_neg hlong, if_pos hrun] at hok
    obtain ⟨rfl, rfl⟩ := Prod.mk.inj (Except.ok.inj hok)
    exact ⟨by rw [List.length_append]; omega, Reads.read h hread⟩
  | case4 bits norm run b hread hlong longer hrun ih =>
    rw [readRuns_eq, hread, ok_bind] at hok
    dsimp only at hok
    rw [if_neg hlong, if_neg hrun] at hok
    obtain ⟨hlength, hreads⟩ := ih (Reads.read h hread).same hok
    rw [List.length_append] at hlength
    exact ⟨by omega, hreads⟩

theorem readCount_eq_ok {data : List UInt8} {s : ReadState} {bits bits' : ForwardBits} {n : Int}
    (h : bits.data = data) (hok : readCount s bits = .ok (n, bits')) : Reads data bits' := by
  obtain ⟨peeked, -, hok⟩ := bind_eq_ok.mp hok
  split at hok
  · obtain ⟨⟨count, b⟩, hread, hok⟩ := bind_eq_ok.mp hok
    obtain ⟨-, rfl⟩ := Prod.mk.inj (pure_eq_ok.mp hok)
    exact Reads.read h hread
  · obtain ⟨⟨count, b⟩, hread, hok⟩ := bind_eq_ok.mp hok
    obtain ⟨-, rfl⟩ := Prod.mk.inj (pure_eq_ok.mp hok)
    exact Reads.read h hread

/-- A turn reads one more probability, for which there was a symbol. -/
theorem readTurn_eq_ok {data : List UInt8} {maxSymbol : Int} {s s' : ReadState}
    (h : s.bits.data = data) (hok : readTurn maxSymbol s = .ok s') :
    s.norm.length < s'.norm.length ∧ s.norm.length ≤ maxSymbol ∧ Reads data s'.bits := by
  obtain ⟨⟨bits, norm⟩, hruns, hok⟩ := bind_eq_ok.mp hok
  obtain ⟨_, hsymbol, hok⟩ := bind_eq_ok.mp hok
  obtain ⟨⟨count, bits'⟩, hcount, hok⟩ := bind_eq_ok.mp hok
  obtain ⟨_, -, hok⟩ := bind_eq_ok.mp hok
  obtain rfl := pure_eq_ok.mp hok
  have hsymbol := not_lt.mp (require_eq_ok.mp hsymbol)
  have hruns' : s.norm.length ≤ norm.length ∧ bits.data = data := by
    unfold readZeros at hruns
    split at hruns
    · obtain ⟨hlength, hreads⟩ := readRuns_eq_ok h hruns
      exact ⟨hlength, hreads.same⟩
    · obtain ⟨rfl, rfl⟩ := Prod.mk.inj (Except.ok.inj hruns)
      exact ⟨le_rfl, h⟩
  refine ⟨?_, by omega, readCount_eq_ok hruns'.2 hcount⟩
  show s.norm.length < (norm ++ [count - 1]).length
  rw [List.length_append]
  have hone : [count - 1].length = 1 := rfl
  omega

/-- The loop of `read_table`: every turn leaves one symbol less. -/
def readLoop (maxSymbol : Int) (s : ReadState) : Py ReadState :=
  if 1 < s.remaining then
    match _hturn : readTurn maxSymbol s with
    | .error e => .error e
    | .ok s' => readLoop maxSymbol s'
  else .ok s
termination_by (maxSymbol + 1 - s.norm.length).toNat
decreasing_by
  obtain ⟨hlength, hsymbol, -⟩ := readTurn_eq_ok rfl _hturn
  omega

/-- `read_table`. -/
def readTable (data : List UInt8) (offset maxSymbol maxLog : Int) : Py (Table × Int) := do
  let (low, bits) ← (ForwardBits.make data offset).read 4
  let log := low + 5
  require (¬maxLog < log) invalid
  let s ← readLoop maxSymbol ⟨bits, 2 ^ log + 1, 2 ^ log, log + 1, [], false⟩
  let norm := s.norm ++ List.replicate (maxSymbol + 1 - s.norm.length).toNat 0
  return (← buildTable norm log, (s.bits.bit + 7) / 8)

theorem readLoop_eq_ok {data : List UInt8} {maxSymbol : Int} {s s' : ReadState}
    (h : Reads data s.bits) (hok : readLoop maxSymbol s = .ok s') : Reads data s'.bits := by
  induction s using readLoop.induct maxSymbol with
  | case1 s hremaining e hturn =>
    unfold readLoop at hok
    rw [if_pos hremaining] at hok
    split at hok
    · cases hok
    · next heq =>
      rw [hturn] at heq
      cases heq
  | case2 s hremaining next hturn ih =>
    unfold readLoop at hok
    rw [if_pos hremaining] at hok
    split at hok
    · cases hok
    · next heq =>
      obtain rfl := Except.ok.inj (hturn.symm.trans heq)
      exact ih (readTurn_eq_ok h.same hturn).2.2 hok
  | case3 s hremaining =>
    unfold readLoop at hok
    rw [if_neg hremaining] at hok
    obtain rfl := Except.ok.inj hok
    exact h

theorem readTable_eq_ok {data : List UInt8} {offset maxSymbol maxLog next : Int} {table : Table}
    (hok : readTable data offset maxSymbol maxLog = .ok (table, next)) :
    (∃ norm log, buildTable norm log = .ok table) ∧ next ≤ data.length := by
  obtain ⟨⟨low, bits⟩, hread, hok⟩ := bind_eq_ok.mp hok
  obtain ⟨_, -, hok⟩ := bind_eq_ok.mp hok
  obtain ⟨s, hloop, hok⟩ := bind_eq_ok.mp hok
  obtain ⟨built, hbuilt, hok⟩ := bind_eq_ok.mp hok
  obtain ⟨rfl, rfl⟩ := Prod.mk.inj (pure_eq_ok.mp hok)
  have hreads := readLoop_eq_ok (@Reads.read data _ _ _ _ rfl hread) hloop
  have hbit := hreads.bit
  exact ⟨⟨_, _, hbuilt⟩, by omega⟩

/-- Tables are exact codes: `build_table` returns one for the well-formed norms and for no other,
and `read_table` returns nothing else, with an offset inside of the data. -/
theorem fseTables :
    (∀ norm log table, buildTable norm log = .ok table →
      table.log = log ∧ IsCode norm log.toNat table.rows) ∧
    (∀ norm log, (∃ table, buildTable norm log = .ok table) ↔ WellFormed norm log) ∧
    ∀ data offset maxSymbol maxLog table next,
      readTable data offset maxSymbol maxLog = .ok (table, next) →
        (∃ norm, WellFormed norm table.log ∧ buildTable norm table.log = .ok table ∧
          IsCode norm table.log.toNat table.rows) ∧ next ≤ data.length := by
  refine ⟨fun norm log table => isCode_of_buildTable, fun norm log => buildTable_isOk, ?_⟩
  intro data offset maxSymbol maxLog table next hok
  obtain ⟨⟨norm, log, hbuilt⟩, hnext⟩ := readTable_eq_ok hok
  obtain ⟨rfl, hcode⟩ := isCode_of_buildTable hbuilt
  exact ⟨⟨norm, buildTable_isOk.mp ⟨table, hbuilt⟩, hbuilt, hcode⟩, hnext⟩

theorem fseTables_sample :
    ∃ table, buildTable [16, 16] 5 = .ok table ∧ IsCode [16, 16] 5 table.rows := by
  have hwell : WellFormed [16, 16] 5 := ⟨by decide, by decide, by decide, by decide⟩
  obtain ⟨table, htable⟩ := (fseTables.2.1 _ _).mpr hwell
  exact ⟨table, htable, (fseTables.1 _ _ _ htable).2⟩

end Codec

end ZoidbergChain
