import ZoidbergChain.PagedReview.Wire

/-!
# The binary grammar round trips

- `Ty.valid`: counts and integers fit their widths, and the fields of a schema have different
  names. All schemas are valid.
- `read_encodeType`: over a valid type, reading what was encoded gives an equal value and leaves
  the following bytes alone.
- `wireRoundTrip`: so do `unpack` and `parse_body`, and both accept only what re-encodes.
-/

namespace ZoidbergChain

open Python CanonicalV3

namespace PagedReview

namespace Wire

/-! ## Valid types -/

mutual

/-- Counts fit a byte, and the fields of a schema have different names. -/
def Ty.valid : Ty → Bool
  | .array child _ high => child.valid && decide (high < 256)
  | .schema _ fields => decide (fields.map Prod.fst).Nodup && fieldsValid fields
  | _ => true

def fieldsValid : List (String × Ty) → Bool
  | [] => true
  | (_, t) :: fields => t.valid && fieldsValid fields

end

theorem Schema.valid (s : Schema) : s.ty.valid = true := by
  cases s <;> decide +kernel

/-- The integers of the table fit their widths. -/
theorem Enum.fits (e : Enum) :
    (e = .vr → -(256 ^ e.width : Nat) ≤ 2 * e.low ∧ 2 * e.high < (256 ^ e.width : Nat)) ∧
      (e ≠ .vr → 0 ≤ e.low ∧ e.high < (256 ^ e.width : Nat)) := by
  cases e <;> decide

/-! ## Single fields -/

theorem hexBytes_eq_ok {v : Value} {low high : Nat} {e : PyError} {b : List UInt8} :
    hexBytes v low high e = .ok b ↔ v = .str (hexText b) ∧ low ≤ b.length ∧ b.length ≤ high := by
  constructor
  · intro h
    cases v with
    | str s =>
      obtain ⟨b', hb, h⟩ := bind_eq_ok.mp h
      obtain ⟨⟨⟩, hrange, h⟩ := bind_eq_ok.mp h
      obtain rfl := Except.ok.inj h
      have htext := hexText_of_readHex (orRaise_eq_ok.mp hb)
      rw [String.ofList_toList] at htext
      exact ⟨by rw [htext], require_eq_ok.mp hrange⟩
    | _ => cases h
  · rintro ⟨rfl, hrange⟩
    simp only [hexBytes, readHex_hexText, orRaise, ok_bind, require_pos hrange]

theorem encodeEnum_eq_ok {e : Enum} {v : Value} {b : List UInt8} :
    encodeEnum e v = .ok b ↔ ∃ n, v = .int n ∧ e.low ≤ n ∧ n ≤ e.high ∧
      b = if e = .vr then toBytesSigned e.width n else toBytes e.width n.toNat := by
  rw [encodeEnum, bind_eq_ok]
  constructor
  · rintro ⟨n, hn, h⟩
    obtain ⟨rfl, hlow, hhigh⟩ := Value.intIn_eq_ok.mp hn
    exact ⟨n, rfl, hlow, hhigh, (Except.ok.inj h).symm⟩
  · rintro ⟨n, rfl, hlow, hhigh, rfl⟩
    exact ⟨n, Value.intIn_eq_ok.mpr ⟨rfl, hlow, hhigh⟩, rfl⟩

/-- An integer of the table is read back. -/
theorem read_encodeEnum {e : Enum} {n : Int} (hlow : e.low ≤ n) (hhigh : n ≤ e.high)
    (rest : List UInt8) :
    read (.enum e)
        ((if e = .vr then toBytesSigned e.width n else toBytes e.width n.toNat) ++ rest) =
      .ok (.int n, rest) := by
  obtain ⟨hsigned, hunsigned⟩ := e.fits
  rw [read, take, takeBytes_append (by split <;> simp [toBytesSigned]), ok_bind]
  by_cases he : e = .vr
  · obtain ⟨h₁, h₂⟩ := hsigned he
    simp only [if_pos he]
    rw [ofBytesSigned_toBytesSigned (by omega) (by omega)]
  · obtain ⟨h₁, h₂⟩ := hunsigned he
    have hfits : n.toNat < 256 ^ e.width := by omega
    simp only [if_neg he, ofBytes_toBytes hfits]
    rw [Int.toNat_of_nonneg (by omega)]

/-- The characters of a network identifier are ASCII characters, three to 64 of them. -/
theorem ascii_of_isValidNetworkId {s : String} (h : isValidNetworkId s = true) :
    (∀ c ∈ s.toList, c.toNat < 128) ∧ 3 ≤ s.toList.length ∧ s.toList.length ≤ 64 := by
  have halnum : ∀ c : Char, isLowerAlnum c = true → c.toNat < 128 := by
    intro c hc
    simp only [isLowerAlnum, Char.isDigit, Char.isLower, Bool.or_eq_true, Bool.and_eq_true,
      decide_eq_true_eq, UInt32.le_iff_toNat_le] at hc
    obtain ⟨-, hc⟩ | ⟨-, hc⟩ := hc
    · exact lt_of_le_of_lt hc (by decide)
    · exact lt_of_le_of_lt hc (by decide)
  unfold isValidNetworkId at h
  split at h
  · cases h
  · next c cs hcs =>
    simp only [Bool.and_eq_true, decide_eq_true_eq, List.all_eq_true, Bool.or_eq_true,
      beq_iff_eq] at h
    obtain ⟨⟨hc, hlow, hhigh⟩, htail⟩ := h
    rw [hcs]
    refine ⟨?_, by simp; omega, by simp; omega⟩
    intro d hd
    obtain rfl | hd := List.mem_cons.mp hd
    · exact halnum d hc
    · obtain hd | rfl := htail d hd
      · exact halnum d hd
      · decide

theorem decodeAscii_asciiBytes {s : String} (h : ∀ c ∈ s.toList, c.toNat < 128) :
    decodeAscii (asciiBytes s) = .ok s := by
  have hbyte : ∀ c ∈ s.toList, (UInt8.ofNat c.toNat).toNat = c.toNat := by
    intro c hc
    have := h c hc
    rw [UInt8.toNat_ofNat']
    omega
  have hall : (asciiBytes s).all (· < 128) = true := by
    rw [asciiBytes, List.all_map, List.all_eq_true]
    intro c hc
    have := h c hc
    simp only [Function.comp_apply, decide_eq_true_eq, UInt8.lt_iff_toNat_lt, hbyte c hc]
    exact this
  have hchars : (asciiBytes s).map (fun x => Char.ofNat x.toNat) = s.toList := by
    rw [asciiBytes, List.map_map]
    refine (List.map_congr_left fun c hc => ?_).trans (List.map_id _)
    simp [hbyte c hc]
  rw [decodeAscii, if_pos hall, hchars, String.ofList_toList]

theorem length_asciiBytes (s : String) : (asciiBytes s).length = s.toList.length := by
  rw [asciiBytes, List.length_map]

/-- A network is read back from its padded block. -/
theorem read_encodeNid {v : Value} {b : List UInt8} (h : encodeNid v = .ok b) :
    ∃ s, v = .str s ∧ b.length = 65 ∧ ∀ rest, readNid (b ++ rest) = .ok (.str s, rest) := by
  cases v with
  | str s =>
    obtain ⟨⟨⟩, hvalid, h⟩ := bind_eq_ok.mp h
    obtain ⟨hascii, hlow, hhigh⟩ := ascii_of_isValidNetworkId (require_eq_ok.mp hvalid)
    obtain rfl := Except.ok.inj h
    have hlength := length_asciiBytes s
    have hblock : (asciiBytes s ++ List.replicate (64 - (asciiBytes s).length) 0).length = 64 := by
      rw [List.length_append, List.length_replicate]
      omega
    have hcount : ofBytes (toBytes 1 (asciiBytes s).length) = (asciiBytes s).length :=
      ofBytes_toBytes (by omega)
    refine ⟨s, rfl, ?_, fun rest => ?_⟩
    · rw [List.append_assoc, List.length_append, length_toBytes, hblock]
    have hrange : 3 ≤ (asciiBytes s).length ∧ (asciiBytes s).length ≤ 64 ∧
        ((asciiBytes s ++ List.replicate (64 - (asciiBytes s).length) 0).drop
          (asciiBytes s).length).all (· == 0) = true := by
      refine ⟨by omega, by omega, ?_⟩
      rw [List.drop_left, List.all_eq_true]
      intro x hx
      rw [List.eq_of_mem_replicate hx]
      rfl
    simp only [readNid, take, List.append_assoc, takeBytes_append (length_toBytes _ _), ok_bind]
    rw [← List.append_assoc, takeBytes_append hblock]
    simp only [ok_bind, hcount, require_pos hrange]
    rw [List.take_left, decodeAscii_asciiBytes hascii, ok_bind]
  | _ => cases h

/-- A chunk is read back from behind its length. -/
theorem read_chunk {raw : List UInt8} (hlow : 1 ≤ raw.length) (hhigh : raw.length ≤ 8140)
    (rest : List UInt8) :
    readChunk (toBytes 2 raw.length ++ raw ++ rest) = .ok (.str (hexText raw), rest) := by
  have hcount : ofBytes (toBytes 2 raw.length) = raw.length := ofBytes_toBytes (by omega)
  simp only [readChunk, take, List.append_assoc, takeBytes_append (length_toBytes _ _), ok_bind,
    hcount, require_pos (And.intro hlow hhigh), takeBytes_append rfl]

/-! ## Types -/

/-- What was encoded as `b` is read as an equal value that is encoded as `b` again. -/
def ReadsBack (t : Ty) (v : Value) (b : List UInt8) : Prop :=
  ∃ w, (∀ rest, read t (b ++ rest) = .ok (w, rest)) ∧ w.pyEq v = true ∧ encodeType t w = .ok b

/-- A run of items is read back when each item is. -/
theorem readMany_mapM {child : Ty}
    (hchild : ∀ {v b}, CanonicalV3.Unique v → encodeType child v = .ok b → ReadsBack child v b) :
    ∀ {xs : List Value} {items : List (List UInt8)},
      Json.ObjectsItems (fun d => (d.map Prod.fst).Nodup) xs →
      xs.mapM (encodeType child) = .ok items →
      ∃ ws, (∀ rest, readMany (read child) xs.length (items.flatten ++ rest) = .ok (ws, rest)) ∧
        ws.length = xs.length ∧ Value.pyEqList ws xs = true ∧
        ws.mapM (encodeType child) = .ok items := by
  intro xs
  induction xs with
  | nil =>
    intro items _ h
    obtain rfl := Except.ok.inj h
    exact ⟨[], fun _ => rfl, rfl, rfl, rfl⟩
  | cons x xs ih =>
    intro items hunique h
    rw [List.mapM_cons] at h
    obtain ⟨b, hb, h⟩ := bind_eq_ok.mp h
    obtain ⟨bs, hbs, h⟩ := bind_eq_ok.mp h
    obtain rfl := pure_eq_ok.mp h
    obtain ⟨w, hread, heq, hagain⟩ := hchild hunique.1 hb
    obtain ⟨ws, hreads, hlength, heqs, hagains⟩ := ih hunique.2 hbs
    refine ⟨w :: ws, fun rest => ?_, by rw [List.length_cons, hlength, List.length_cons], ?_, ?_⟩
    · rw [List.length_cons, readMany, List.flatten_cons, List.append_assoc, hread, ok_bind]
      simp only [hreads, ok_bind]
    · rw [Value.pyEqList, heq, heqs]
      rfl
    · rw [List.mapM_cons, hagain, ok_bind, hagains, ok_bind]
      rfl

mutual

/-- Reading what was encoded gives an equal value, and leaves what follows. -/
theorem read_encodeType : ∀ {t : Ty} {v : Value} {b : List UInt8}, t.valid = true → Unique v →
    encodeType t v = .ok b → ReadsBack t v b
  | .raw width, v, b, _, _, h => by
    have hok := h
    rw [encodeType, hexBytes_eq_ok] at hok
    obtain ⟨rfl, hlow, hhigh⟩ := hok
    refine ⟨_, fun rest => ?_, Value.pyEq_self rfl, h⟩
    rw [read, take, takeBytes_append (by omega), ok_bind]
  | .array child low high, v, b, hvalid, hunique, h => by
    obtain ⟨hchild, hbyte⟩ : child.valid = true ∧ high < 256 := by
      simpa [Ty.valid] using hvalid
    cases v with
    | list xs =>
      rw [encodeType] at h
      obtain ⟨⟨⟩, hrange, h⟩ := bind_eq_ok.mp h
      obtain ⟨items, hitems, h⟩ := bind_eq_ok.mp h
      obtain rfl := Except.ok.inj h
      have hbounds := require_eq_ok.mp hrange
      obtain ⟨ws, hreads, hlength, heqs, hagain⟩ :=
        readMany_mapM (fun hu hb => read_encodeType hchild hu hb) hunique hitems
      have hcount : ofBytes (toBytes 1 xs.length) = xs.length := ofBytes_toBytes (by omega)
      refine ⟨.list ws, fun rest => ?_, by rwa [Value.pyEq], ?_⟩
      · rw [read, take, List.append_assoc, takeBytes_append (length_toBytes _ _), ok_bind]
        simp only [hcount, require_pos hbounds, ok_bind, hreads]
      · simp only [encodeType, hlength, require_pos hbounds, ok_bind, hagain]
    | _ => cases h
  | .schema name fields, v, b, hvalid, hunique, h => by
    obtain ⟨hnodup, hfields⟩ : (fields.map Prod.fst).Nodup ∧ fieldsValid fields = true := by
      simpa [Ty.valid] using hvalid
    cases v with
    | dict d =>
      rw [encodeType] at h
      obtain ⟨⟨⟩, hshape, h⟩ := bind_eq_ok.mp h
      obtain ⟨hsub, hsuper⟩ := require_eq_ok.mp hshape
      obtain ⟨hkeys, hvalues⟩ := hunique
      have hvalue : ∀ k u, Dict.get? d k = some u → Unique u :=
        fun k u hu => objectsEntries_iff.mp hvalues _ (Dict.mem_of_get? hu)
      obtain ⟨es, hread, hnames, heq, hagain⟩ := read_encodeFields hfields hvalue h
      have hesnodup : (es.map Prod.fst).Nodup := hnames ▸ hnodup
      -- both objects have the keys of the schema
      have hperm : (es.map Prod.fst).Perm (d.map Prod.fst) := by
        rw [List.perm_ext_iff_of_nodup hesnodup hkeys, hnames]
        exact fun k => ⟨hsuper k, hsub k⟩
      have hlength : es.length = d.length := by simpa using hperm.length_eq
      refine ⟨.dict es, fun rest => ?_, ?_, ?_⟩
      · simp only [read, hread, ok_bind]
      · rw [Value.pyEq, Bool.and_eq_true, beq_iff_eq, Value.pyEqDict_iff]
        exact ⟨hlength, heq⟩
      · have hclosed : (∀ k ∈ Dict.keys es, k ∈ fields.map Prod.fst) ∧
            ∀ k ∈ fields.map Prod.fst, k ∈ Dict.keys es := by
          rw [show Dict.keys es = fields.map Prod.fst from hnames]
          exact ⟨fun _ hk => hk, fun _ hk => hk⟩
        simp only [encodeType, require_pos hclosed, ok_bind]
        exact hagain es fun e he => Dict.get?_of_mem hesnodup he
    | _ => cases h
  | .nid, v, b, _, _, h => by
    have hok := h
    rw [encodeType] at hok
    obtain ⟨s, rfl, -, hread⟩ := read_encodeNid hok
    refine ⟨.str s, fun rest => ?_, Value.pyEq_self rfl, h⟩
    rw [read, hread]
  | .chunk, v, b, _, _, h => by
    have hok := h
    rw [encodeType] at hok
    obtain ⟨raw, hraw, hlast⟩ := bind_eq_ok.mp hok
    obtain ⟨rfl, hlow, hhigh⟩ := hexBytes_eq_ok.mp hraw
    obtain rfl := Except.ok.inj hlast
    refine ⟨_, fun rest => ?_, Value.pyEq_self rfl, h⟩
    rw [read, read_chunk hlow hhigh]
  | .enum e, v, b, _, _, h => by
    have hok := h
    rw [encodeType, encodeEnum_eq_ok] at hok
    obtain ⟨n, rfl, hlow, hhigh, rfl⟩ := hok
    exact ⟨.int n, read_encodeEnum hlow hhigh, Value.pyEq_self rfl, h⟩

/-- The fields are read back in the order of the schema. -/
theorem read_encodeFields : ∀ {fields : List (String × Ty)} {d : Dict} {b : List UInt8},
    fieldsValid fields = true → (∀ k v, d.get? k = some v → Unique v) →
    encodeFields fields d = .ok b →
    ∃ es : Dict, (∀ rest, readFields fields (b ++ rest) = .ok (es, rest)) ∧
      es.map Prod.fst = fields.map Prod.fst ∧
      (∀ e ∈ es, ∃ u, d.get? e.1 = some u ∧ e.2.pyEq u = true) ∧
      ∀ d' : Dict, (∀ e ∈ es, d'.get? e.1 = some e.2) → encodeFields fields d' = .ok b
  | [], d, b, _, _, h => by
    obtain rfl := Except.ok.inj h
    exact ⟨[], fun _ => rfl, rfl, nofun, fun _ _ => rfl⟩
  | (k, t) :: fields, d, b, hvalid, hunique, h => by
    obtain ⟨ht, hfields⟩ : t.valid = true ∧ fieldsValid fields = true := by
      simpa [fieldsValid] using hvalid
    rw [encodeFields] at h
    obtain ⟨v, hv, h⟩ := bind_eq_ok.mp h
    obtain ⟨raw, hraw, h⟩ := bind_eq_ok.mp h
    obtain ⟨tail, htail, h⟩ := bind_eq_ok.mp h
    obtain rfl := Except.ok.inj h
    have hget : d.get? k = some v := by
      unfold Dict.index at hv
      split at hv
      · next u hu => rw [hu, Except.ok.inj hv]
      · cases hv
    obtain ⟨w, hread, heq, hagain⟩ := read_encodeType ht (hunique k v hget) hraw
    obtain ⟨es, hreads, hnames, heqs, hagains⟩ := read_encodeFields hfields hunique htail
    refine ⟨(k, w) :: es, fun rest => ?_, ?_, ?_, fun d' hd' => ?_⟩
    · rw [readFields, List.append_assoc, hread, ok_bind]
      simp only [hreads, ok_bind]
    · rw [List.map_cons, hnames, List.map_cons]
    · intro e he
      obtain rfl | he := List.mem_cons.mp he
      · exact ⟨v, hget, heq⟩
      · exact heqs e he
    · have hindex : d'.index k = .ok w := by
        rw [Dict.index, hd' (k, w) (List.mem_cons_self ..)]
      rw [encodeFields, hindex, ok_bind, hagain, ok_bind,
        hagains d' fun e he => hd' e (List.mem_cons_of_mem _ he), ok_bind]

end

/-! ## Objects -/

/-- An object whose `dict`s have distinct keys comes back from its packed bytes. -/
theorem unpack_pack {name : Schema} {obj : Value} {raw : List UInt8}
    (hunique : CanonicalV3.Unique obj) (hpack : pack name obj = .ok raw)
    (hcap : raw.length ≤ cap) : ∃ w, unpack name raw = .ok w ∧ w.pyEq obj = true := by
  obtain ⟨w, hread, heq, hagain⟩ := read_encodeType name.valid hunique hpack
  have hread := hread []
  rw [List.append_nil] at hread
  have hagain : pack name w = .ok raw := hagain
  refine ⟨w, ?_, heq⟩
  simp only [unpack, require_pos hcap, hread, ok_bind, require_pos, hagain]

theorem unpack_eq_ok {name : Schema} {raw : List UInt8} {obj : Value}
    (h : unpack name raw = .ok obj) : pack name obj = .ok raw ∧ raw.length ≤ cap := by
  unfold unpack at h
  obtain ⟨⟨⟩, hcap, h⟩ := bind_eq_ok.mp h
  obtain ⟨⟨w, rest⟩, -, h⟩ := bind_eq_ok.mp h
  obtain ⟨⟨⟩, -, h⟩ := bind_eq_ok.mp h
  obtain ⟨again, hagain, h⟩ := bind_eq_ok.mp h
  obtain ⟨⟨⟩, hsame, h⟩ := bind_eq_ok.mp h
  obtain rfl := Except.ok.inj h
  exact ⟨require_eq_ok.mp hsame ▸ hagain, require_eq_ok.mp hcap⟩

mutual

/-- The number of bytes of a type, where it does not depend on the value. -/
def Ty.size? : Ty → Option Nat
  | .raw width => some width
  | .array child low high =>
    if low = high then child.size?.map fun n => 1 + low * n else none
  | .schema _ fields => fieldsSize? fields
  | .nid => some 65
  | .chunk => none
  | .enum e => some e.width

def fieldsSize? : List (String × Ty) → Option Nat
  | [] => some 0
  | (_, t) :: fields => do
    let n ← t.size?
    let m ← fieldsSize? fields
    some (n + m)

end

/-- Items of one size. -/
theorem length_flatten_mapM {child : Ty} {n : Nat}
    (hchild : ∀ {v b}, encodeType child v = .ok b → b.length = n) :
    ∀ {xs : List Value} {items : List (List UInt8)}, xs.mapM (encodeType child) = .ok items →
      items.flatten.length = xs.length * n := by
  intro xs
  induction xs with
  | nil =>
    intro items h
    obtain rfl := Except.ok.inj h
    simp
  | cons x xs ih =>
    intro items h
    rw [List.mapM_cons] at h
    obtain ⟨b, hb, h⟩ := bind_eq_ok.mp h
    obtain ⟨bs, hbs, h⟩ := bind_eq_ok.mp h
    obtain rfl := pure_eq_ok.mp h
    rw [List.flatten_cons, List.length_append, hchild hb, ih hbs, List.length_cons]
    ring

mutual

theorem length_encodeType : ∀ {t : Ty} {v : Value} {b : List UInt8} {n : Nat},
    t.size? = some n → encodeType t v = .ok b → b.length = n
  | .raw width, v, b, n, hn, h => by
    obtain rfl := Option.some.inj hn
    rw [encodeType, hexBytes_eq_ok] at h
    obtain ⟨-, hlow, hhigh⟩ := h
    omega
  | .array child low high, v, b, n, hn, h => by
    rw [Ty.size?] at hn
    split at hn
    · next hbounds =>
      obtain ⟨m, hm, rfl⟩ := Option.map_eq_some_iff.mp hn
      cases v with
      | list xs =>
        rw [encodeType] at h
        obtain ⟨⟨⟩, hrange, h⟩ := bind_eq_ok.mp h
        obtain ⟨items, hitems, h⟩ := bind_eq_ok.mp h
        obtain rfl := Except.ok.inj h
        have hcount : xs.length = low := by
          have := require_eq_ok.mp hrange
          omega
        rw [List.length_append, length_toBytes,
          length_flatten_mapM (fun hb => length_encodeType hm hb) hitems, hcount]
      | _ => cases h
    · cases hn
  | .schema name fields, v, b, n, hn, h => by
    cases v with
    | dict d =>
      rw [encodeType] at h
      obtain ⟨⟨⟩, -, h⟩ := bind_eq_ok.mp h
      exact length_encodeFields hn h
    | _ => cases h
  | .nid, v, b, n, hn, h => by
    obtain rfl := Option.some.inj hn
    rw [encodeType] at h
    obtain ⟨s, -, hlength, -⟩ := read_encodeNid h
    exact hlength
  | .chunk, v, b, n, hn, h => by cases hn
  | .enum e, v, b, n, hn, h => by
    obtain rfl := Option.some.inj hn
    rw [encodeType, encodeEnum_eq_ok] at h
    obtain ⟨m, -, -, -, rfl⟩ := h
    split <;> simp [toBytesSigned]

theorem length_encodeFields : ∀ {fields : List (String × Ty)} {d : Dict} {b : List UInt8} {n : Nat},
    fieldsSize? fields = some n → encodeFields fields d = .ok b → b.length = n
  | [], d, b, n, hn, h => by
    obtain rfl := Option.some.inj hn
    obtain rfl := Except.ok.inj h
    rfl
  | (k, t) :: fields, d, b, n, hn, h => by
    rw [fieldsSize?] at hn
    obtain ⟨m, hm, hn⟩ := Option.bind_eq_some_iff.mp hn
    obtain ⟨l, hl, hn⟩ := Option.bind_eq_some_iff.mp hn
    obtain rfl := Option.some.inj hn
    rw [encodeFields] at h
    obtain ⟨v, -, h⟩ := bind_eq_ok.mp h
    obtain ⟨raw, hraw, h⟩ := bind_eq_ok.mp h
    obtain ⟨tail, htail, h⟩ := bind_eq_ok.mp h
    obtain rfl := Except.ok.inj h
    rw [List.length_append, length_encodeType hm hraw, length_encodeFields hl htail]

end

/-- A packed header has 544 bytes. -/
theorem length_header {obj : Value} {raw : List UInt8} (h : pack .header obj = .ok raw) :
    raw.length = 544 :=
  length_encodeType (by decide +kernel) h

/-! ## Frames -/

/-- Two events of one schema with equal objects. -/
def SameEvent (e e' : Event) : Prop := e.1 = e'.1 ∧ e.2.pyEq e'.2 = true

theorem ofKind?_kind (s : Schema) : ofKind? s.kind = some s ∧ s.kind < 256 := by
  cases s <;> decide +kernel

/-- A frame is a packed object behind its kind, the version and its length. -/
theorem frame_eq_ok {e : Event} {b : List UInt8} :
    frame e = .ok b ↔ ∃ raw, pack e.1 e.2 = .ok raw ∧ raw.length ≤ eventCap ∧
      b = toBytes 1 e.1.kind ++ (toBytes 2 1 ++ (toBytes 4 raw.length ++ raw)) := by
  rw [frame, bind_eq_ok]
  constructor
  · rintro ⟨raw, hraw, h⟩
    obtain ⟨⟨⟩, hcap, h⟩ := bind_eq_ok.mp h
    refine ⟨raw, hraw, require_eq_ok.mp hcap, ?_⟩
    rw [← Except.ok.inj h, List.append_assoc, List.append_assoc]
  · rintro ⟨raw, hraw, hcap, rfl⟩
    exact ⟨raw, hraw, by simp [require_pos hcap, List.append_assoc]⟩

/-- The parts of a frame, in front of what follows it. -/
theorem frame_parts {kind : Nat} (hkind : kind < 256) {raw : List UInt8}
    (hcap : raw.length ≤ eventCap) (rest : List UInt8) :
    let b := toBytes 1 kind ++ (toBytes 2 1 ++ (toBytes 4 raw.length ++ raw)) ++ rest
    ofBytes (b.take 1) = kind ∧ ofBytes ((b.drop 1).take 2) = 1 ∧
      ofBytes ((b.drop 3).take 4) = raw.length ∧ b.drop 7 = raw ++ rest ∧
      b.length = 7 + raw.length + rest.length := by
  have hkind' : ofBytes (toBytes 1 kind) = kind := ofBytes_toBytes (by omega)
  have hversion : ofBytes (toBytes 2 1) = 1 := ofBytes_toBytes (by omega)
  have hsize : ofBytes (toBytes 4 raw.length) = raw.length := by
    refine ofBytes_toBytes (lt_of_le_of_lt hcap ?_)
    decide
  have h1 : (toBytes 1 kind).length = 1 := length_toBytes _ _
  have h2 : (toBytes 2 1).length = 2 := length_toBytes _ _
  have h4 : (toBytes 4 raw.length).length = 4 := length_toBytes _ _
  -- the three numbers are seven bytes together
  have hdrop1 : ∀ b' : List UInt8, (toBytes 1 kind ++ b').drop 1 = b' :=
    fun b' => List.drop_left' h1
  have hdrop3 : ∀ b' : List UInt8, (toBytes 1 kind ++ (toBytes 2 1 ++ b')).drop 3 = b' := by
    intro b'
    rw [← List.append_assoc]
    exact List.drop_left' (by simp)
  have hdrop7 : ∀ b' : List UInt8,
      (toBytes 1 kind ++ (toBytes 2 1 ++ (toBytes 4 raw.length ++ b'))).drop 7 = b' := by
    intro b'
    rw [← List.append_assoc, ← List.append_assoc]
    exact List.drop_left' (by simp)
  simp only [List.append_assoc]
  refine ⟨?_, ?_, ?_, ?_, ?_⟩
  · rw [List.take_left' h1, hkind']
  · rw [hdrop1, List.take_left' h2, hversion]
  · rw [hdrop3, List.take_left' h4, hsize]
  · exact hdrop7 _
  · simp only [List.length_append, h1, h2, h4]
    omega

/-- A frame comes back. -/
theorem unframe_frame {e : Event} {b : List UInt8} (hunique : CanonicalV3.Unique e.2)
    (h : frame e = .ok b) : ∃ e', unframe b = .ok e' ∧ SameEvent e' e ∧ frame e' = .ok b := by
  obtain ⟨raw, hraw, hcap, rfl⟩ := frame_eq_ok.mp h
  obtain ⟨hname, hbyte⟩ := ofKind?_kind e.1
  have hsmall : raw.length ≤ cap := hcap.trans (by decide)
  obtain ⟨w, hw, heq⟩ := unpack_pack hunique hraw hsmall
  obtain ⟨hkind, hversion, hsize, hdrop, hlength⟩ := frame_parts hbyte hcap []
  simp only [List.append_nil, List.length_nil, Nat.add_zero] at hkind hversion hsize hdrop hlength
  refine ⟨(e.1, w), ?_, ⟨rfl, heq⟩, frame_eq_ok.mpr ⟨raw, (unpack_eq_ok hw).1, hcap, rfl⟩⟩
  have hlong : 7 ≤ 7 + raw.length := by omega
  have hends : raw.length ≤ eventCap ∧ raw.length = 7 + raw.length - 7 := ⟨hcap, by omega⟩
  simp only [unframe, hlength, require_pos hlong, hkind, hversion, hsize, hdrop,
    require_pos trivial, hname, orRaise, require_pos hends, hw, ok_bind]

/-- The frames of events come back, in front of what follows them. -/
theorem parseEvents_frames {events : List Event} {framed : List UInt8}
    (hunique : ∀ e ∈ events, CanonicalV3.Unique e.2) (h : frames events = .ok framed) :
    ∃ es, (∀ rest, parseEvents events.length (framed ++ rest) = .ok (es, rest)) ∧
      List.Forall₂ SameEvent es events ∧ frames es = .ok framed := by
  induction events generalizing framed with
  | nil =>
    obtain rfl := Except.ok.inj h
    exact ⟨[], fun _ => rfl, .nil, rfl⟩
  | cons e events ih =>
    obtain ⟨parts, hparts, hflat⟩ := bind_eq_ok.mp h
    rw [List.mapM_cons] at hparts
    obtain ⟨b, hb, hparts⟩ := bind_eq_ok.mp hparts
    obtain ⟨bs, hbs, hparts⟩ := bind_eq_ok.mp hparts
    obtain rfl := pure_eq_ok.mp hparts
    obtain rfl := Except.ok.inj hflat
    have hrest : frames events = .ok bs.flatten := by
      rw [frames, hbs]
      rfl
    obtain ⟨es, hreads, hsame, hagain⟩ :=
      ih (fun e' he' => hunique e' (List.mem_cons_of_mem _ he')) hrest
    obtain ⟨e', hread, hsame', hagain'⟩ := unframe_frame (hunique e (List.mem_cons_self ..)) hb
    refine ⟨e' :: es, fun rest => ?_, .cons hsame' hsame, ?_⟩
    · obtain ⟨raw, hraw, hcap, rfl⟩ := frame_eq_ok.mp hb
      obtain ⟨-, hbyte⟩ := ofKind?_kind e.1
      obtain ⟨-, -, hsize, -, hlength⟩ := frame_parts hbyte hcap (bs.flatten ++ rest)
      have hframe : (toBytes 1 e.1.kind ++ (toBytes 2 1 ++ (toBytes 4 raw.length ++ raw))).length =
          7 + raw.length := by
        simp only [List.length_append, length_toBytes]
        omega
      have hlong : 7 ≤ 7 + raw.length + (bs.flatten ++ rest).length := by omega
      rw [List.flatten_cons, List.append_assoc, List.length_cons, parseEvents]
      simp only [hlength, require_pos hlong, hsize, require_pos hcap, ok_bind,
        List.take_left' hframe, List.drop_left' hframe, hread, hreads]
    · obtain ⟨parts, hparts, hflat⟩ := bind_eq_ok.mp hagain
      rw [frames, List.mapM_cons, hagain', ok_bind, hparts, ok_bind]
      show Except.ok (b ++ parts.flatten) = _
      rw [Except.ok.inj hflat]
      rfl

/-! ## Bodies -/

theorem encodeFields_get {fields : List (String × Ty)} {d : Dict} {b : List UInt8} {k : String}
    {t : Ty} (h : encodeFields fields d = .ok b) (hmem : (k, t) ∈ fields) :
    ∃ v b', d.get? k = some v ∧ encodeType t v = .ok b' := by
  induction fields generalizing b with
  | nil => cases hmem
  | cons f fields ih =>
    obtain ⟨l, u⟩ := f
    rw [encodeFields] at h
    obtain ⟨v, hv, h⟩ := bind_eq_ok.mp h
    obtain ⟨raw, hraw, h⟩ := bind_eq_ok.mp h
    obtain ⟨tail, htail, -⟩ := bind_eq_ok.mp h
    obtain heq | hmem := List.mem_cons.mp hmem
    · obtain ⟨rfl, rfl⟩ := Prod.mk.inj heq
      unfold Dict.index at hv
      split at hv
      · next w hw => exact ⟨w, raw, hw, Except.ok.inj hv ▸ hraw⟩
      · cases hv
    · exact ih htail hmem

/-- A packed object has every field, of its type. -/
theorem pack_get {name : Schema} {d : Dict} {b : List UInt8} {k : String} {t : Ty}
    (h : pack name (.dict d) = .ok b) (hmem : (k, t) ∈ name.fields) :
    ∃ v b', d.get? k = some v ∧ encodeType t v = .ok b' := by
  rw [pack, Schema.ty, encodeType] at h
  obtain ⟨⟨⟩, -, h⟩ := bind_eq_ok.mp h
  exact encodeFields_get h hmem

section Body

variable {sha256Hex : List UInt8 → String}

theorem withEvents_unique {header : Dict} (h : CanonicalV3.Unique (.dict header)) (count : Nat)
    (framed : List UInt8) :
    CanonicalV3.Unique (.dict (withEvents sha256Hex header count framed)) := by
  -- each of the three updates keeps the keys distinct
  have hset : ∀ {d : Dict} (k : String) (v : Value), CanonicalV3.Unique v →
      CanonicalV3.Unique (.dict d) → CanonicalV3.Unique (.dict (d.set k v)) := by
    intro d k v hv hd
    refine ⟨Dict.nodup_set hd.1 k v, objectsEntries_iff.mpr fun e he => ?_⟩
    obtain rfl | he := Dict.mem_set he
    · exact hv
    · exact objectsEntries_iff.mp hd.2 e he
  exact hset _ _ trivial (hset _ _ trivial (hset _ _ trivial h))

theorem withEvents_get (header : Dict) (count : Nat) (framed : List UInt8) :
    (withEvents sha256Hex header count framed).get? "events_root" =
        some (.str (tagged sha256Hex "events" framed)) ∧
      (withEvents sha256Hex header count framed).get? "event_count" = some (.int count) ∧
      (withEvents sha256Hex header count framed).get? "event_bytes" =
        some (.int framed.length) := by
  simp [withEvents, Dict.update, Dict.get?_set]

/-- A header that has the fields of its events already stays as it is. -/
theorem withEvents_same {h : Dict} {count : Nat} {framed : List UInt8}
    (hroot : h.get? "events_root" = some (.str (tagged sha256Hex "events" framed)))
    (hcount : h.get? "event_count" = some (.int count))
    (hbytes : h.get? "event_bytes" = some (.int framed.length)) :
    withEvents sha256Hex h count framed = h := by
  simp [withEvents, Dict.update, Dict.set_same hroot, Dict.set_same hcount, Dict.set_same hbytes]

/-- An integer field that equals an integer is this integer. -/
theorem get_int_of_pyEq {h d : Dict} {k : String} {e : Enum} {n : Int} {b : List UInt8}
    (hpack : pack .header (.dict h) = .ok b) (hmem : (k, Ty.enum e) ∈ headerFields)
    (heq : Value.pyEqDict h d = true) (hd : d.get? k = some (.int n)) :
    h.get? k = some (.int n) := by
  obtain ⟨v, raw, hv, hraw⟩ := pack_get hpack hmem
  rw [encodeType, encodeEnum_eq_ok] at hraw
  obtain ⟨m, rfl, -⟩ := hraw
  obtain ⟨u, hu, hvu⟩ := Value.pyEqDict_get? heq hv
  obtain rfl := Option.some.inj (hu.symm.trans hd)
  rw [Value.pyEq_int] at hvu
  have hmn : (m : Rat) = n := by simpa [Value.number?] using hvu
  rw [hv, Int.cast_injective hmn]

/-- The parts of a body. -/
theorem body_parts {encoded : List UInt8} (hfits : encoded.length < 65536) (framed : List UInt8) :
    let raw := asciiBytes "R717B001" ++ toBytes 2 1 ++ toBytes 2 encoded.length ++ encoded ++ framed
    raw.take 8 = asciiBytes "R717B001" ∧ ofBytes ((raw.drop 8).take 2) = 1 ∧
      ofBytes ((raw.drop 10).take 2) = encoded.length ∧
      (raw.drop 12).take encoded.length = encoded ∧ raw.drop (12 + encoded.length) = framed ∧
      raw.length = 12 + encoded.length + framed.length := by
  have hmagic : (asciiBytes "R717B001").length = 8 := by decide
  have hversion : ofBytes (toBytes 2 1) = 1 := ofBytes_toBytes (by omega)
  have hlength : ofBytes (toBytes 2 encoded.length) = encoded.length := ofBytes_toBytes (by omega)
  have h2 : ∀ n, (toBytes 2 n).length = 2 := length_toBytes 2
  have hdrop12 : (asciiBytes "R717B001" ++ toBytes 2 1 ++ toBytes 2 encoded.length ++ encoded ++
      framed).drop 12 = encoded ++ framed := by
    rw [List.append_assoc]
    exact List.drop_left' (by simp [hmagic])
  refine ⟨?_, ?_, ?_, ?_, ?_, ?_⟩
  · simp only [List.append_assoc]
    exact List.take_left' hmagic
  · simp only [List.append_assoc]
    rw [List.drop_left' hmagic, List.take_left' (h2 1), hversion]
  · rw [List.append_assoc, List.append_assoc, List.drop_left' (by simp [hmagic]),
      List.take_left' (h2 _), hlength]
  · rw [hdrop12, List.take_left]
  · rw [← List.drop_drop, hdrop12, List.drop_left]
  · simp only [List.length_append, hmagic, h2]

/-- A batch comes back, with the header that its events give. -/
theorem parseBody_body {header : Dict} {events : List Event} {raw : List UInt8}
    (hheader : CanonicalV3.Unique (.dict header)) (hevents : ∀ e ∈ events, CanonicalV3.Unique e.2)
    (h : body sha256Hex header events = .ok raw) :
    ∃ framed h' es, frames events = .ok framed ∧ parseBody sha256Hex raw = .ok (h', es) ∧
      (Value.dict h').pyEq (.dict (withEvents sha256Hex header events.length framed)) = true ∧
      List.Forall₂ SameEvent es events := by
  unfold body at h
  obtain ⟨⟨⟩, hcount, h⟩ := bind_eq_ok.mp h
  obtain ⟨framed, hframed, h⟩ := bind_eq_ok.mp h
  obtain ⟨encoded, hencoded, h⟩ := bind_eq_ok.mp h
  obtain ⟨⟨⟩, hcap, h⟩ := bind_eq_ok.mp h
  obtain rfl := Except.ok.inj h
  have hlength := length_header hencoded
  have hsmall : encoded.length ≤ cap := by
    rw [hlength]
    decide
  obtain ⟨w, hw, heq⟩ :=
    unpack_pack (withEvents_unique hheader events.length framed) hencoded hsmall
  have hdict : ∃ h' : Dict, w = .dict h' ∧ _ ∧ _ := Value.pyEq_dict.mp heq
  obtain ⟨h', rfl, -, hentries⟩ := hdict
  obtain ⟨es', hreads, hsame, hagain⟩ := parseEvents_frames hevents hframed
  obtain ⟨hroot, hnumber, hbytes⟩ := @withEvents_get sha256Hex header events.length framed
  refine ⟨framed, h', es', hframed, ?_, heq, hsame⟩
  have hpack := (unpack_eq_ok hw).1
  -- the fields of the header that was read
  have hroot' : h'.get? "events_root" = some (.str (tagged sha256Hex "events" framed)) := by
    obtain ⟨v, b, hv, hb⟩ := pack_get (k := "events_root") (t := .raw 32) hpack
      (by simp [Schema.fields, headerFields])
    obtain ⟨u, hu, hvu⟩ := Value.pyEqDict_get? hentries hv
    obtain rfl := Option.some.inj (hu.symm.trans hroot)
    rw [hv, Value.pyEq_str.mp hvu]
  have hnumber' := get_int_of_pyEq (e := .u16) hpack (by simp [headerFields]) hentries hnumber
  have hbytes' := get_int_of_pyEq (e := .u32) hpack (by simp [headerFields]) hentries hbytes
  have hsame' := withEvents_same hroot' hnumber' hbytes'
  -- the parts of the batch
  have hfits : encoded.length < 65536 := by omega
  obtain ⟨hmagic, hversion, hsize', hhead, htail, htotal⟩ := body_parts hfits framed
  have hlength' := hsame.length_eq
  have hagain' : body sha256Hex h' es' =
      .ok (asciiBytes "R717B001" ++ toBytes 2 1 ++ toBytes 2 encoded.length ++ encoded ++
        framed) := by
    simp only [body, hlength', hcount, hagain, hsame', hpack, hcap, ok_bind]
  have hends : 12 ≤ 12 + encoded.length + framed.length ∧
      12 + encoded.length + framed.length ≤ cap ∧ True :=
    ⟨by omega, htotal ▸ require_eq_ok.mp hcap, trivial⟩
  have hcounts : ((events.length : Int) ≤ maxEvents) ∧
      (framed.length : Int) =
        ((12 + encoded.length + framed.length : Nat) : Int) - (12 + encoded.length : Nat) :=
    ⟨by exact_mod_cast require_eq_ok.mp hcount, by omega⟩
  have hreads' := hreads []
  rw [List.append_nil] at hreads'
  simp only [parseBody, hmagic, hversion, hsize', hhead, htail, htotal, require_pos hends, ok_bind,
    require_pos trivial, hw, Value.asDict, intField, Dict.get, hnumber', hbytes', hroot',
    Option.getD_some, require_pos hcounts, Int.toNat_natCast, hreads', hagain']

theorem parseBody_eq_ok {raw : List UInt8} {h : Dict} {es : List Event}
    (hok : parseBody sha256Hex raw = .ok (h, es)) : body sha256Hex h es = .ok raw := by
  unfold parseBody at hok
  obtain ⟨⟨⟩, -, hok⟩ := bind_eq_ok.mp hok
  obtain ⟨⟨⟩, -, hok⟩ := bind_eq_ok.mp hok
  obtain ⟨w, -, hok⟩ := bind_eq_ok.mp hok
  obtain ⟨d, -, hok⟩ := bind_eq_ok.mp hok
  obtain ⟨count, -, hok⟩ := bind_eq_ok.mp hok
  obtain ⟨bytes, -, hok⟩ := bind_eq_ok.mp hok
  obtain ⟨⟨⟩, -, hok⟩ := bind_eq_ok.mp hok
  obtain ⟨⟨⟩, -, hok⟩ := bind_eq_ok.mp hok
  obtain ⟨⟨events, rest⟩, -, hok⟩ := bind_eq_ok.mp hok
  obtain ⟨⟨⟩, -, hok⟩ := bind_eq_ok.mp hok
  obtain ⟨again, hagain, hok⟩ := bind_eq_ok.mp hok
  obtain ⟨⟨⟩, hsame, hok⟩ := bind_eq_ok.mp hok
  obtain ⟨rfl, rfl⟩ := Prod.mk.inj (Except.ok.inj hok)
  exact require_eq_ok.mp hsame ▸ hagain

end Body

/-- The grammar round trips, for every hash function. `w.pyEq obj` is `==` of the source; an
object that packs has no `bool` or `float`, so equal objects differ in the order of entries
only. -/
theorem wireRoundTrip (sha256Hex : List UInt8 → String) :
    (∀ name obj raw, CanonicalV3.Unique obj → pack name obj = .ok raw → raw.length ≤ cap →
      ∃ w, unpack name raw = .ok w ∧ w.pyEq obj = true) ∧
    (∀ name raw obj, unpack name raw = .ok obj → pack name obj = .ok raw) ∧
    (∀ header events raw, CanonicalV3.Unique (.dict header) →
      (∀ e ∈ events, CanonicalV3.Unique e.2) → body sha256Hex header events = .ok raw →
      ∃ framed h' es, frames events = .ok framed ∧ parseBody sha256Hex raw = .ok (h', es) ∧
        (Value.dict h').pyEq (.dict (withEvents sha256Hex header events.length framed)) = true ∧
        List.Forall₂ SameEvent es events) ∧
    ∀ raw h es, parseBody sha256Hex raw = .ok (h, es) → body sha256Hex h es = .ok raw := by
  refine ⟨fun name obj raw hunique hpack hcap => unpack_pack hunique hpack hcap,
    fun name raw obj h => (unpack_eq_ok h).1, fun header events raw hheader hevents h => ?_,
    fun raw h es hok => parseBody_eq_ok hok⟩
  exact parseBody_body hheader hevents h

/-- A frozen policy, with its fields out of order. -/
def samplePolicy : Value :=
  .dict [("result", .int 255), ("old", .str (hexText (List.replicate 32 7))),
    ("new", .str (hexText (List.replicate 32 7)))]

theorem wireRoundTrip_samplePolicy : ∃ raw w, pack .policy samplePolicy = .ok raw ∧
    unpack .policy raw = .ok w ∧ w.pyEq samplePolicy = true := by
  have hpack : pack .policy samplePolicy = .ok (List.replicate 64 7 ++ [255]) := by decide +kernel
  obtain ⟨w, hw, heq⟩ := (wireRoundTrip fun _ => "").1 .policy samplePolicy _
    ⟨by decide, trivial, trivial, trivial, trivial⟩ hpack (by decide)
  exact ⟨_, w, hpack, hw, heq⟩

end Wire

end PagedReview

end ZoidbergChain
