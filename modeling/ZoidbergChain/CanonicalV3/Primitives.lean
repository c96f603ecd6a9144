import ZoidbergChain.Host
import ZoidbergChain.Python.Control
import ZoidbergChain.Python.JsonReader
import ZoidbergChain.Python.Order

/-!
# Strict JSON and scalar domains

canonical_v3/primitives.py: the checks of single fields, and the JSON text that every
canonical byte string is.

- `canonical` writes a value, `parse` reads a byte string.
- `parse_eq_ok`: `parse` accepts exactly the byte strings that `canonical` writes, up to the
  size limit, and reads the value back that has been written.
-/

namespace ZoidbergChain

open Python

namespace CanonicalV3

/-! ## Checks -/

/-- `MAX_UINT`. -/
def maxUint : Int := 9007199254740991

/-- `MAX_RECORD`. -/
def maxRecord : Nat := 3145728

/-- `MAX_DEPTH`. -/
def maxDepth : Nat := 32

/-- `CURVE_ORDER`. -/
def curveOrder : Nat :=
  0xFFFFFFFFFFFFFFFFFFFFFFFFFFFFFFFEBAAEDCE6AF48A03BBFD25E8CD0364141

/-- `V3Error(code)`. -/
def v3Error (code : String) : PyError := { exc := .v3Error, message := code, code := some code }

/-- `closed`: a `dict` with all the required keys, and no others but the optional ones. -/
def closed (v : Value) (required optional : List String) : Py Dict :=
  match v with
  | .dict d => do
    require (required.all (Dict.keys d).contains = true ∧
      (Dict.keys d).all (required ++ optional).contains = true) (v3Error "object_keys")
    .ok d
  | _ => .error (v3Error "object_type")

/-- `uint`. -/
def uint (v : Value) (low high : Int) : Py Int :=
  v.intIn low high (v3Error "integer_range")

/-- `text(value, scalars, octets, empty=True)`. -/
def text (s : String) (scalars octets : Nat) : Py Unit := do
  require (s.length ≤ scalars) (v3Error "string_length")
  require (s.utf8ByteSize ≤ octets) (v3Error "string_bytes")

/-- `pattern(value, regex)`, for the texts that the expression matches. -/
def pattern (v : Value) (regex : String → Bool) : Py String :=
  match v with
  | .str s => if regex s then .ok s else .error (v3Error "string_grammar")
  | _ => .error (v3Error "string_grammar")

/-- `[0-9a-f]{n}` behind a prefix. -/
def isHexAfter (pre : String) (n : Nat) (s : String) : Bool :=
  pre.toList.isPrefixOf s.toList &&
    decide ((s.toList.drop pre.length).length = n) && (s.toList.drop pre.length).all isLowerHex

/-- `h64`. -/
def h64 (v : Value) : Py String := pattern v (isHexAfter "" 64)

/-- `wallet`. -/
def wallet (v : Value) : Py String := pattern v (isHexAfter "0x" 40)

/-- The number that lower-case hexadecimal digits write. -/
def hexNumber (cs : List Char) : Nat := cs.foldl (fun n c => 16 * n + Json.hexDigit c) 0

/-- `signature`: 65 bytes with scalars below the order of the curve. -/
def signature (v : Value) : Py String := do
  let s ← pattern v (isHexAfter "0x" 130)
  let r := hexNumber ((s.toList.drop 2).take 64)
  let z := hexNumber ((s.toList.drop 66).take 64)
  let parity := hexNumber (s.toList.drop 130)
  require (1 ≤ r ∧ r < curveOrder ∧ 1 ≤ z ∧ z < curveOrder ∧ (parity = 27 ∨ parity = 28))
    (v3Error "signature_scalar")
  .ok s

/-! ## Writing -/

mutual

/-- `_json_value`. -/
def jsonValue (depth : Nat) : Value → Py Unit
  | .dict es => do
    require (depth < maxDepth) (v3Error "json_depth")
    jsonEntries (depth + 1) es
  | .list xs => do
    require (depth < maxDepth) (v3Error "json_depth")
    jsonItems (depth + 1) xs
  | .str s => text s maxRecord maxRecord
  | .int n => require (-maxUint ≤ n ∧ n ≤ maxUint) (v3Error "json_integer")
  | .null => .ok ()
  | .bool _ => .ok ()
  | .float _ => .error (v3Error "json_type")
  | .bytes _ => .error (v3Error "json_type")

def jsonItems (depth : Nat) : List Value → Py Unit
  | [] => .ok ()
  | x :: xs => do
    jsonValue depth x
    jsonItems depth xs

def jsonEntries (depth : Nat) : List (String × Value) → Py Unit
  | [] => .ok ()
  | (k, v) :: es => do
    text k maxRecord maxRecord
    jsonValue depth v
    jsonEntries depth es

end

/-- `json.dumps(value, sort_keys=True, separators=(",", ":"), ensure_ascii=False)`, for a
value that `jsonValue` passes. -/
def canonicalText (v : Value) : String := String.ofList (Json.render false (Json.sortKeys v))

/-- `canonical`. -/
def canonical (v : Value) : Py ByteArray := do
  jsonValue 0 v
  .ok (encodeUtf8 (canonicalText v))

/-! ## Reading -/

/-- The state of the loop that bounds the nesting before the text is read. -/
structure Scan where
  quoted : Bool := false
  escaped : Bool := false
  depth : Int := 0

/-- One byte of that loop. -/
def Scan.step (s : Scan) (b : UInt8) : Py Scan :=
  if s.quoted then
    if s.escaped then .ok { s with escaped := false }
    else if b = 92 then .ok { s with escaped := true }
    else if b = 34 then .ok { s with quoted := false }
    else .ok s
  else if b = 34 then .ok { s with quoted := true }
  else if b = 91 ∨ b = 123 then do
    require (s.depth + 1 ≤ maxDepth) (v3Error "json_depth")
    .ok { s with depth := s.depth + 1 }
  else if b = 93 ∨ b = 125 then .ok { s with depth := s.depth - 1 }
  else .ok s

/-- `pairs`. -/
def uniquePairs (es : List (String × Value)) : Py Dict :=
  if (es.map Prod.fst).Nodup then .ok es else .error (v3Error "duplicate_key")

/-- `integer`. -/
def integerToken (token : List Char) : Py Int := do
  require (token.length ≤ 17 ∧ token ≠ ['-', '0']) (v3Error "json_integer")
  let n : Int := match token with
    | '-' :: digits => -(Nat.ofDigitChars 10 digits 0 : Nat)
    | digits => (Nat.ofDigitChars 10 digits 0 : Nat)
  require (-maxUint ≤ n ∧ n ≤ maxUint) (v3Error "json_integer")
  .ok n

/-- The hooks of `parse`. -/
def strictHooks : Json.Hooks where
  integer := integerToken
  forbidden := v3Error "json_number"
  pairs := uniquePairs
  malformed := v3Error "json_syntax"
  surrogate := v3Error "unicode_scalar"

/-- `parse`. -/
def parse (raw : ByteArray) (limit : Nat) : Py Value := do
  require (raw.size ≤ limit) (v3Error "json_size")
  let _ ← raw.data.toList.foldlM Scan.step {}
  let decoded ← orRaise (String.fromUTF8? raw) (v3Error "json_syntax")
  let v ← Json.loads strictHooks decoded
  let again ← canonical v
  require (again = raw) (v3Error "noncanonical_json")
  .ok v

/-! ## Ordered values -/

/-- The keys of every object are in strict order. -/
def Ordered (v : Value) : Prop := Json.Objects (fun d => (d.map Prod.fst).Pairwise (· < ·)) v

/-- No object has a key twice. -/
def Unique (v : Value) : Prop := Json.Objects (fun d => (d.map Prod.fst).Nodup) v

theorem sortEntries_of_pairwise {es : List (String × Value)}
    (h : (es.map Prod.fst).Pairwise (· < ·)) : Json.sortEntries es = es := by
  have hle : es.Pairwise fun a b => a.1 ≤ b.1 := (List.pairwise_map.mp h).imp le_of_lt
  exact hle.insertionSort_eq

mutual

theorem sortKeys_of_ordered : ∀ {v : Value}, Ordered v → Json.sortKeys v = v
  | .null, _ | .bool _, _ | .int _, _ | .float _, _ | .str _, _ | .bytes _, _ => rfl
  | .list _, hv => congrArg Value.list (sortItems_of_ordered hv)
  | .dict es, hv => by
    rw [Json.sortKeys, sortChildren_of_ordered hv.2, sortEntries_of_pairwise hv.1]

theorem sortItems_of_ordered : ∀ {xs : List Value},
    Json.ObjectsItems (fun d => (d.map Prod.fst).Pairwise (· < ·)) xs → Json.sortItems xs = xs
  | [], _ => rfl
  | x :: xs, hxs => by
    rw [Json.sortItems, sortKeys_of_ordered hxs.1, sortItems_of_ordered hxs.2]

theorem sortChildren_of_ordered : ∀ {es : List (String × Value)},
    Json.ObjectsEntries (fun d => (d.map Prod.fst).Pairwise (· < ·)) es → Json.sortChildren es = es
  | [], _ => rfl
  | (k, v) :: es, hes => by
    rw [Json.sortChildren, sortKeys_of_ordered hes.1, sortChildren_of_ordered hes.2]

end

theorem objectsEntries_iff {P : Dict → Prop} {es : List (String × Value)} :
    Json.ObjectsEntries P es ↔ ∀ e ∈ es, Json.Objects P e.2 := by
  induction es with
  | nil => exact ⟨fun _ => nofun, fun _ => trivial⟩
  | cons e es ih => simp [Json.ObjectsEntries, ih]

theorem keys_sortChildren (es : List (String × Value)) :
    (Json.sortChildren es).map Prod.fst = es.map Prod.fst := by
  induction es with
  | nil => rfl
  | cons e es ih => simp [Json.sortChildren, ih]

theorem perm_sortEntries (es : List (String × Value)) : (Json.sortEntries es).Perm es :=
  List.perm_insertionSort _ _

/-- Sorted entries with distinct keys are in strict order. -/
theorem pairwise_sortEntries {es : List (String × Value)} (h : (es.map Prod.fst).Nodup) :
    ((Json.sortEntries es).map Prod.fst).Pairwise (· < ·) := by
  have : IsTrans (String × Value) fun a b => a.1 ≤ b.1 := ⟨fun _ _ _ => le_trans⟩
  have : Std.Total fun a b : String × Value => a.1 ≤ b.1 := ⟨fun _ _ => le_total _ _⟩
  have hsorted : (Json.sortEntries es).Pairwise fun a b => a.1 ≤ b.1 :=
    List.pairwise_insertionSort _ _
  have hnodup : ((Json.sortEntries es).map Prod.fst).Nodup :=
    ((perm_sortEntries es).map Prod.fst).nodup_iff.mpr h
  exact (List.pairwise_map.mpr hsorted).imp₂ (fun _ _ hle hne => lt_of_le_of_ne hle hne) hnodup

mutual

theorem ordered_sortKeys : ∀ {v : Value}, Unique v → Ordered (Json.sortKeys v)
  | .null, _ | .bool _, _ | .int _, _ | .float _, _ | .str _, _ | .bytes _, _ => trivial
  | .list _, hv => ordered_sortItems hv
  | .dict es, hv => by
    refine ⟨pairwise_sortEntries ((keys_sortChildren es).symm ▸ hv.1), ?_⟩
    have hchildren := objectsEntries_iff.mp (ordered_sortChildren hv.2)
    exact objectsEntries_iff.mpr fun e he => hchildren e ((perm_sortEntries _).mem_iff.mp he)

theorem ordered_sortItems : ∀ {xs : List Value},
    Json.ObjectsItems (fun d => (d.map Prod.fst).Nodup) xs →
    Json.ObjectsItems (fun d => (d.map Prod.fst).Pairwise (· < ·)) (Json.sortItems xs)
  | [], _ => trivial
  | _ :: _, hxs => ⟨ordered_sortKeys hxs.1, ordered_sortItems hxs.2⟩

theorem ordered_sortChildren : ∀ {es : List (String × Value)},
    Json.ObjectsEntries (fun d => (d.map Prod.fst).Nodup) es →
    Json.ObjectsEntries (fun d => (d.map Prod.fst).Pairwise (· < ·)) (Json.sortChildren es)
  | [], _ => trivial
  | (_, _) :: _, hes => ⟨ordered_sortKeys hes.1, ordered_sortChildren hes.2⟩

end

/-! ## Equal values -/

mutual

/-- Ordered values without `bool` and `float` are equal only when they are the same. -/
theorem eq_of_pyEq : ∀ {v w : Value}, v.allExact = true → w.allExact = true →
    Ordered v → Ordered w →
    v.pyEq w = true → v = w
  | .null, w, _, hw, _, _, h => by cases w <;> first | rfl | cases h
  | .int n, w, _, hw, _, _, h => by
    have hnumber := (Value.pyEq_of_number rfl).mp h
    cases w with
    | int m => rw [Rat.intCast_injective (Option.some.inj hnumber)]
    | bool b => cases hw
    | float f => cases hw
    | _ => cases hnumber
  | .str s, w, _, hw, _, _, h => by
    cases w <;> simp [Value.pyEq] at h
    rw [h]
  | .list xs, w, hv, hw, hvo, hwo, h => by
    cases w with
    | list ys => exact congrArg Value.list (eq_of_pyEqList hv hw hvo hwo h)
    | _ => cases h
  | .dict es, w, hv, hw, hvo, hwo, h => by
    cases w with
    | dict fs =>
      have hkeys := ((Value.pyEq_sorted_iff hvo.1 hwo.1).mp h).1
      have hitems := (Bool.and_eq_true _ _).mp h
      exact congrArg Value.dict (eq_of_pyEqDict hv hw hvo.2 hwo.2 hkeys (hvo.1.imp ne_of_lt)
        hitems.2)
    | _ => cases h

theorem eq_of_pyEqList : ∀ {xs ys : List Value}, Value.allExactItems xs = true →
    Value.allExactItems ys = true →
    Json.ObjectsItems (fun d => (d.map Prod.fst).Pairwise (· < ·)) xs →
    Json.ObjectsItems (fun d => (d.map Prod.fst).Pairwise (· < ·)) ys →
    Value.pyEqList xs ys = true → xs = ys
  | [], ys, _, _, _, _, h => by cases ys <;> first | rfl | cases h
  | x :: xs, ys, hx, hy, hxo, hyo, h => by
    cases ys with
    | nil => cases h
    | cons y ys =>
      obtain ⟨hhead, htail⟩ := (Bool.and_eq_true _ _).mp h
      obtain ⟨hx, hxs⟩ := (Bool.and_eq_true _ _).mp hx
      obtain ⟨hy, hys⟩ := (Bool.and_eq_true _ _).mp hy
      rw [eq_of_pyEq hx hy hxo.1 hyo.1 hhead, eq_of_pyEqList hxs hys hxo.2 hyo.2 htail]

theorem eq_of_pyEqDict : ∀ {es fs : List (String × Value)}, Value.allExactEntries es = true →
    Value.allExactEntries fs = true →
    Json.ObjectsEntries (fun d => (d.map Prod.fst).Pairwise (· < ·)) es →
    Json.ObjectsEntries (fun d => (d.map Prod.fst).Pairwise (· < ·)) fs →
    es.map Prod.fst = fs.map Prod.fst → (es.map Prod.fst).Nodup →
    Value.pyEqDict es fs = true → es = fs
  | [], fs, _, _, _, _, hkeys, _, _ => (List.map_eq_nil_iff.mp hkeys.symm).symm
  | (k, v) :: es, fs, hv, hw, hvo, hwo, hkeys, hnodup, h => by
    cases fs with
    | nil => cases hkeys
    | cons f fs =>
      obtain ⟨l, w⟩ := f
      obtain ⟨rfl, hrest⟩ := List.cons.inj hkeys
      obtain ⟨hhead, htail⟩ := (Bool.and_eq_true _ _).mp h
      obtain ⟨hv, hes⟩ := (Bool.and_eq_true _ _).mp hv
      obtain ⟨hw, hfs⟩ := (Bool.and_eq_true _ _).mp hw
      obtain ⟨hk, hnodup⟩ := List.nodup_cons.mp hnodup
      rw [Dict.get?_cons, if_pos rfl] at hhead
      rw [eq_of_pyEq hv hw hvo.1 hwo.1 hhead,
        eq_of_pyEqDict hes hfs hvo.2 hwo.2 hrest hnodup (Value.pyEqDict_tail hk htail)]

end
/-! ## Checked values -/

theorem jsonEntries_eq_ok {depth : Nat} {es : List (String × Value)} :
    jsonEntries depth es = .ok () ↔
      ∀ e ∈ es, text e.1 maxRecord maxRecord = .ok () ∧ jsonValue depth e.2 = .ok () := by
  induction es with
  | nil => exact ⟨fun _ => nofun, fun _ => rfl⟩
  | cons e es ih =>
    obtain ⟨k, v⟩ := e
    simp only [jsonEntries, bind_eq_ok, List.mem_cons, forall_eq_or_imp, ← ih]
    constructor
    · rintro ⟨⟨⟩, hk, ⟨⟩, hv, hes⟩
      exact ⟨⟨hk, hv⟩, hes⟩
    · rintro ⟨⟨hk, hv⟩, hes⟩
      exact ⟨(), hk, (), hv, hes⟩

mutual

/-- Sorting keeps a checked value checked. -/
theorem jsonValue_sortKeys : ∀ {depth : Nat} {v : Value}, jsonValue depth v = .ok () →
    jsonValue depth (Json.sortKeys v) = .ok ()
  | _, .null, hv | _, .bool _, hv | _, .int _, hv | _, .float _, hv | _, .str _, hv
  | _, .bytes _, hv => hv
  | depth, .list xs, hv => by
    obtain ⟨⟨⟩, hdepth, hxs⟩ := bind_eq_ok.mp hv
    rw [Json.sortKeys, jsonValue, hdepth, ok_bind, jsonItems_sortItems hxs]
  | depth, .dict es, hv => by
    obtain ⟨⟨⟩, hdepth, hes⟩ := bind_eq_ok.mp hv
    have hsorted := jsonEntries_eq_ok.mp (jsonEntries_sortChildren hes)
    rw [Json.sortKeys, jsonValue, hdepth, ok_bind]
    exact jsonEntries_eq_ok.mpr fun e he => hsorted e ((perm_sortEntries _).mem_iff.mp he)

theorem jsonItems_sortItems : ∀ {depth : Nat} {xs : List Value}, jsonItems depth xs = .ok () →
    jsonItems depth (Json.sortItems xs) = .ok ()
  | _, [], _ => rfl
  | depth, x :: xs, hxs => by
    obtain ⟨⟨⟩, hx, hxs⟩ := bind_eq_ok.mp hxs
    rw [Json.sortItems, jsonItems, jsonValue_sortKeys hx, ok_bind, jsonItems_sortItems hxs]

theorem jsonEntries_sortChildren : ∀ {depth : Nat} {es : List (String × Value)},
    jsonEntries depth es = .ok () → jsonEntries depth (Json.sortChildren es) = .ok ()
  | _, [], _ => rfl
  | depth, (k, v) :: es, hes => by
    obtain ⟨⟨⟩, hk, hes⟩ := bind_eq_ok.mp hes
    obtain ⟨⟨⟩, hv, hes⟩ := bind_eq_ok.mp hes
    rw [Json.sortChildren, jsonEntries, hk, ok_bind, jsonValue_sortKeys hv, ok_bind,
      jsonEntries_sortChildren hes]

end

/-- An integer in the range is read back. -/
theorem integerToken_renderInt {n : Int} (hn : -maxUint ≤ n ∧ n ≤ maxUint) :
    integerToken (Json.renderInt n) = .ok n := by
  have hlength : (Nat.toDigits 10 n.natAbs).length ≤ 16 := by
    refine (Nat.length_toDigits_le_iff (by decide) (by decide)).mpr ?_
    unfold maxUint at hn
    omega
  have hdigits : ∀ m c t, Nat.toDigits 10 m = c :: t → c ≠ '-' := by
    rintro m c t hct rfl
    have hc : '-'.isDigit = true := Nat.isDigit_of_mem_toDigits (b := 10) (n := m) (by decide)
      (by decide) (by rw [hct]; simp)
    exact absurd hc (by decide)
  unfold Json.renderInt integerToken
  split
  · next hneg =>
    have hzero : '-' :: Nat.toDigits 10 n.natAbs ≠ ['-', '0'] := by
      intro heq
      obtain ⟨c, t, hct, hc, -⟩ := Json.toDigits_head (n := n.natAbs) (by omega)
      rw [hct] at heq
      exact hc (List.cons.inj (List.cons.inj heq).2).1
    have hvalue : -((Nat.ofDigitChars 10 (Nat.toDigits 10 n.natAbs) 0 : Nat) : Int) = n := by
      rw [Nat.ofDigitChars_ten_toDigits]
      omega
    rw [require_pos ⟨Nat.succ_le_succ hlength, hzero⟩, ok_bind]
    simp only [hvalue, require_pos hn, ok_bind]
  · next hpos =>
    have hvalue : ((Nat.ofDigitChars 10 (Nat.toDigits 10 n.natAbs) 0 : Nat) : Int) = n := by
      rw [Nat.ofDigitChars_ten_toDigits]
      omega
    cases hct : Nat.toDigits 10 n.natAbs with
    | nil => exact absurd hct Nat.toDigits_ne_nil
    | cons c t =>
      have hc := hdigits _ c t hct
      rw [hct] at hlength hvalue
      rw [require_pos ⟨by omega, fun heq => hc (List.cons.inj heq).1⟩, ok_bind]
      split
      · next heq => exact absurd (List.cons.inj heq).1 hc
      · simp only [hvalue, require_pos hn, ok_bind]

mutual

/-- A checked and ordered value is one that `parse` can read. -/
theorem reads_of_jsonValue : ∀ {depth : Nat} {v : Value}, jsonValue depth v = .ok () →
    Ordered v → Json.Reads strictHooks v
  | _, .null, _, _ | _, .bool _, _, _ | _, .str _, _, _ => trivial
  | _, .int _, hv, _ => integerToken_renderInt (require_eq_ok.mp hv)
  | _, .list _, hv, hordered => by
    obtain ⟨⟨⟩, -, hxs⟩ := bind_eq_ok.mp hv
    exact readsItems_of_jsonItems hxs hordered
  | _, .dict es, hv, hordered => by
    obtain ⟨⟨⟩, -, hes⟩ := bind_eq_ok.mp hv
    have hnodup : (es.map Prod.fst).Nodup := hordered.1.imp ne_of_lt
    exact ⟨if_pos hnodup, readsEntries_of_jsonEntries hes hordered.2⟩

theorem readsItems_of_jsonItems : ∀ {depth : Nat} {xs : List Value},
    jsonItems depth xs = .ok () →
    Json.ObjectsItems (fun d => (d.map Prod.fst).Pairwise (· < ·)) xs →
    Json.ReadsItems strictHooks xs
  | _, [], _, _ => trivial
  | _, _ :: _, hxs, hordered => by
    obtain ⟨⟨⟩, hx, hxs⟩ := bind_eq_ok.mp hxs
    exact ⟨reads_of_jsonValue hx hordered.1, readsItems_of_jsonItems hxs hordered.2⟩

theorem readsEntries_of_jsonEntries : ∀ {depth : Nat} {es : List (String × Value)},
    jsonEntries depth es = .ok () →
    Json.ObjectsEntries (fun d => (d.map Prod.fst).Pairwise (· < ·)) es →
    Json.ReadsEntries strictHooks es
  | _, [], _, _ => trivial
  | _, (_, _) :: _, hes, hordered => by
    obtain ⟨⟨⟩, -, hes⟩ := bind_eq_ok.mp hes
    obtain ⟨⟨⟩, hv, hes⟩ := bind_eq_ok.mp hes
    exact ⟨reads_of_jsonValue hv hordered.1, readsEntries_of_jsonEntries hes hordered.2⟩

end

/-! ## The nesting of a canonical text -/

/-- The loop over the bytes of a text. -/
def Scan.run (s : Scan) (cs : List Char) : Py Scan :=
  (cs.flatMap String.utf8EncodeChar).foldlM Scan.step s

theorem Scan.run_append {s t u : Scan} {c ds : List Char} (hs : s.run c = .ok t)
    (ht : t.run ds = .ok u) : s.run (c ++ ds) = .ok u := by
  rw [Scan.run, List.flatMap_append]
  exact foldlM_append_eq_ok.mpr ⟨t, hs, ht⟩

theorem Scan.run_same {s : Scan} {cs : List Char}
    (h : ∀ c ∈ cs, ∀ b ∈ String.utf8EncodeChar c, s.step b = .ok s) : s.run cs = .ok s := by
  have hbytes : ∀ b ∈ cs.flatMap String.utf8EncodeChar, s.step b = .ok s := by
    intro b hb
    obtain ⟨c, hc, hb⟩ := List.mem_flatMap.mp hb
    exact h c hc b hb
  rw [Scan.run]
  revert hbytes
  generalize cs.flatMap String.utf8EncodeChar = bytes
  intro hbytes
  induction bytes with
  | nil => rfl
  | cons b bytes ih =>
    rw [List.foldlM_cons, hbytes b (by simp), ok_bind]
    exact ih fun b hb => hbytes b (List.mem_cons_of_mem _ hb)

/-- A byte of a character is the character itself, or at least 128. -/
theorem mem_utf8EncodeChar {c : Char} {b : UInt8} (hb : b ∈ String.utf8EncodeChar c) :
    b.toNat = c.toNat ∨ 128 ≤ b.toNat := by
  have hnat : c.val.toNat = c.toNat := rfl
  unfold String.utf8EncodeChar at hb
  dsimp only at hb
  rw [hnat] at hb
  have hhigh : ∀ n : Nat, 128 ≤ n → n < 256 → 128 ≤ (UInt8.ofNat n).toNat := by
    intro n hlow hhigh
    rw [UInt8.toNat_ofNat']
    omega
  split at hb
  · next hascii =>
    rw [List.mem_singleton.mp hb, UInt8.toNat_ofNat']
    exact Or.inl (by omega)
  · refine Or.inr ?_
    split at hb
    · simp only [List.mem_cons, List.not_mem_nil, or_false] at hb
      obtain rfl | rfl := hb <;> exact hhigh _ (by omega) (by omega)
    · split at hb
      · simp only [List.mem_cons, List.not_mem_nil, or_false] at hb
        obtain rfl | rfl | rfl := hb <;> exact hhigh _ (by omega) (by omega)
      · simp only [List.mem_cons, List.not_mem_nil, or_false] at hb
        obtain rfl | rfl | rfl | rfl := hb <;> exact hhigh _ (by omega) (by omega)

/-- The state between the tokens of a text, and the one inside a string literal. -/
def between (depth : Nat) : Scan := { depth }

def inside (depth : Nat) : Scan := { quoted := true, depth }

theorem ne_of_toNat_ne {a : UInt8} {n : Nat} (hn : n < 256) (h : a.toNat ≠ n) :
    a ≠ UInt8.ofNat n := by
  rintro rfl
  rw [UInt8.toNat_ofNat', Nat.mod_eq_of_lt hn] at h
  exact h rfl

theorem step_inside {depth : Nat} {c : Char} (hquote : c ≠ '"') (hback : c ≠ '\\') :
    ∀ b ∈ String.utf8EncodeChar c, (inside depth).step b = .ok (inside depth) := by
  intro b hb
  have hne : ∀ n < 128, c.toNat ≠ n → b ≠ UInt8.ofNat n := by
    intro n hn hc
    refine ne_of_toNat_ne (by omega) ?_
    obtain hb | hb := mem_utf8EncodeChar hb <;> omega
  have hchar : ∀ d : Char, c ≠ d → c.toNat ≠ d.toNat := fun d hd heq =>
    hd (Char.toNat_inj.mp heq)
  have h34 : b ≠ 34 := hne 34 (by decide) (hchar _ hquote)
  have h92 : b ≠ 92 := hne 92 (by decide) (hchar _ hback)
  simp [inside, Scan.step, h34, h92]

/-- The characters that are no part of a structure. -/
def isPlain (c : Char) : Bool :=
  c != '"' && c != '[' && c != ']' && c != '\x7b' && c != '\x7d'

theorem step_between {depth : Nat} {c : Char} (hc : isPlain c = true) :
    ∀ b ∈ String.utf8EncodeChar c, (between depth).step b = .ok (between depth) := by
  intro b hb
  have hne : ∀ n < 128, c.toNat ≠ n → b ≠ UInt8.ofNat n := by
    intro n hn hc
    refine ne_of_toNat_ne (by omega) ?_
    obtain hb | hb := mem_utf8EncodeChar hb <;> omega
  have hchar : ∀ d : Char, c ≠ d → c.toNat ≠ d.toNat := fun d hd heq =>
    hd (Char.toNat_inj.mp heq)
  simp only [isPlain, Bool.and_eq_true, bne_iff_ne] at hc
  obtain ⟨⟨⟨⟨hquote, hopen⟩, hclose⟩, hbrace⟩, hunbrace⟩ := hc
  have h34 : b ≠ 34 := hne 34 (by decide) (hchar _ hquote)
  have h91 : b ≠ 91 := hne 91 (by decide) (hchar _ hopen)
  have h93 : b ≠ 93 := hne 93 (by decide) (hchar _ hclose)
  have h123 : b ≠ 123 := hne 123 (by decide) (hchar _ hbrace)
  have h125 : b ≠ 125 := hne 125 (by decide) (hchar _ hunbrace)
  simp [between, Scan.step, h34, h91, h93, h123, h125]

theorem run_between {depth : Nat} {cs : List Char} (h : cs.all isPlain = true) :
    (between depth).run cs = .ok (between depth) :=
  Scan.run_same fun c hc => step_between (List.all_eq_true.mp h c hc)

theorem run_escapeChar (depth : Nat) (c : Char) :
    (inside depth).run (Json.escapeChar false c) = .ok (inside depth) := by
  unfold Json.escapeChar
  simp only [Bool.false_eq_true, false_and, if_false]
  split
  · rfl
  split
  · rfl
  split
  · rfl
  split
  · rfl
  split
  · rfl
  split
  · rfl
  split
  · rfl
  split
  · -- the backslash takes the letter with it, and the digits are plain
    have hdigits : ∀ n < 16, Nat.digitChar n ≠ '"' ∧ Nat.digitChar n ≠ '\\' := by decide
    have hescape : (inside depth).run ['\\', 'u'] = .ok (inside depth) := rfl
    refine Scan.run_append (c := ['\\', 'u']) hescape (Scan.run_same fun d hd => ?_)
    obtain ⟨n, -, rfl⟩ := List.mem_map.mp hd
    obtain ⟨hquote, hback⟩ := hdigits (n % 16) (Nat.mod_lt _ (by decide))
    exact step_inside hquote hback
  · next hquote hback _ _ _ _ _ _ =>
    refine Scan.run_same fun d hd => ?_
    obtain rfl := List.mem_singleton.mp hd
    exact step_inside hquote hback

theorem run_renderChars (depth : Nat) (cs : List Char) :
    (inside depth).run (Json.renderChars false cs) = .ok (between depth) := by
  have hbody : (inside depth).run (cs.flatMap (Json.escapeChar false)) = .ok (inside depth) := by
    induction cs with
    | nil => rfl
    | cons c cs ih =>
      rw [List.flatMap_cons]
      exact Scan.run_append (run_escapeChar depth c) ih
  exact Scan.run_append hbody rfl

/-- A string literal, with its opening quote. -/
theorem run_string (depth : Nat) (cs : List Char) :
    (between depth).run ('"' :: Json.renderChars false cs) = .ok (between depth) :=
  Scan.run_append (c := ['"']) (t := inside depth) rfl (run_renderChars depth cs)

theorem run_renderInt (depth : Nat) (n : Int) :
    (between depth).run (Json.renderInt n) = .ok (between depth) := by
  have hdigits : (Nat.toDigits 10 n.natAbs).all isPlain = true := by
    refine List.all_eq_true.mpr fun c hc => ?_
    have hdigit := Nat.isDigit_of_mem_toDigits (b := 10) (by decide) (by decide) hc
    simp only [isPlain, Bool.and_eq_true, bne_iff_ne]
    refine ⟨⟨⟨⟨?_, ?_⟩, ?_⟩, ?_⟩, ?_⟩ <;> (rintro rfl; exact absurd hdigit (by decide))
  unfold Json.renderInt
  split
  · exact Scan.run_append (c := ['-']) (t := between depth) rfl (run_between hdigits)
  · exact run_between hdigits

theorem run_byte (s : Scan) {c : Char} {b : UInt8} (hb : String.utf8EncodeChar c = [b]) :
    s.run [c] = s.step b := by
  rw [Scan.run, List.flatMap_singleton, hb, List.foldlM_cons]
  cases s.step b <;> rfl

theorem run_open {depth : Nat} (hdepth : depth < maxDepth) {c : Char}
    (hc : c = '[' ∨ c = '\x7b') : (between depth).run [c] = .ok (between (depth + 1)) := by
  have hcast : (depth : Int) + 1 ≤ maxDepth := by exact_mod_cast hdepth
  have hroom : require ((between depth).depth + 1 ≤ maxDepth) (v3Error "json_depth") = .ok () :=
    require_pos hcast
  have hstep : ∀ b : UInt8, b = 91 ∨ b = 123 →
      (between depth).step b = .ok (between (depth + 1)) := by
    intro b hb
    have hquote : b ≠ 34 := by rintro rfl; simp at hb
    rw [Scan.step, if_neg (by simp [between]), if_neg hquote, if_pos hb, hroom]
    rfl
  obtain rfl | rfl := hc
  · rw [run_byte _ (b := 91) rfl, hstep _ (Or.inl rfl)]
  · rw [run_byte _ (b := 123) rfl, hstep _ (Or.inr rfl)]

theorem run_close (depth : Nat) {c : Char} (hc : c = ']' ∨ c = '\x7d') :
    (between (depth + 1)).run [c] = .ok (between depth) := by
  have hstep : ∀ b : UInt8, b = 93 ∨ b = 125 →
      (between (depth + 1)).step b = .ok (between depth) := by
    rintro b (rfl | rfl) <;> simp [Scan.step, between]
  obtain rfl | rfl := hc
  · rw [run_byte _ (b := 93) rfl, hstep _ (Or.inl rfl)]
  · rw [run_byte _ (b := 125) rfl, hstep _ (Or.inr rfl)]

mutual

/-- The loop comes out of the text of a checked value in the state it came in. -/
theorem run_render : ∀ {depth : Nat} {v : Value}, jsonValue depth v = .ok () →
    (between depth).run (Json.render false v) = .ok (between depth)
  | _, .null, _ | _, .bool true, _ | _, .bool false, _ => run_between (by decide)
  | depth, .int n, _ => run_renderInt depth n
  | depth, .str s, _ => run_string depth s.toList
  | _, .float _, hv | _, .bytes _, hv => nomatch hv
  | depth, .list [], hv => by
    obtain ⟨⟨⟩, hdepth, -⟩ := bind_eq_ok.mp hv
    exact Scan.run_append (c := ['[']) (run_open (require_eq_ok.mp hdepth) (Or.inl rfl))
      (run_close depth (Or.inl rfl))
  | depth, .list (x :: xs), hv => by
    obtain ⟨⟨⟩, hdepth, hxs⟩ := bind_eq_ok.mp hv
    obtain ⟨⟨⟩, hx, hxs⟩ := bind_eq_ok.mp hxs
    have hopen := run_open (require_eq_ok.mp hdepth) (Or.inl rfl)
    rw [Json.render]
    exact Scan.run_append (Scan.run_append (c := ['[']) hopen (run_render hx)) (run_items hxs)
  | depth, .dict [], hv => by
    obtain ⟨⟨⟩, hdepth, -⟩ := bind_eq_ok.mp hv
    exact Scan.run_append (c := ['\x7b']) (run_open (require_eq_ok.mp hdepth) (Or.inr rfl))
      (run_close depth (Or.inr rfl))
  | depth, .dict ((k, v) :: es), hv => by
    obtain ⟨⟨⟩, hdepth, hes⟩ := bind_eq_ok.mp hv
    obtain ⟨⟨⟩, -, hes⟩ := bind_eq_ok.mp hes
    obtain ⟨⟨⟩, hv, hes⟩ := bind_eq_ok.mp hes
    have hopen := run_open (require_eq_ok.mp hdepth) (Or.inr rfl)
    have hcolon : (between (depth + 1)).run [':'] = .ok (between (depth + 1)) :=
      run_between (by decide)
    rw [Json.render]
    exact Scan.run_append (c := '\x7b' :: '"' :: Json.renderChars false k.toList)
      (Scan.run_append (c := ['\x7b']) hopen (run_string (depth + 1) k.toList))
      (Scan.run_append (Scan.run_append (c := [':']) hcolon (run_render hv)) (run_entries hes))

theorem run_items : ∀ {depth : Nat} {xs : List Value}, jsonItems (depth + 1) xs = .ok () →
    (between (depth + 1)).run (Json.renderItems false xs) = .ok (between depth)
  | depth, [], _ => run_close depth (Or.inl rfl)
  | depth, x :: xs, hxs => by
    obtain ⟨⟨⟩, hx, hxs⟩ := bind_eq_ok.mp hxs
    have hcomma : (between (depth + 1)).run [','] = .ok (between (depth + 1)) :=
      run_between (by decide)
    rw [Json.renderItems]
    exact Scan.run_append (Scan.run_append (c := [',']) hcomma (run_render hx)) (run_items hxs)

theorem run_entries : ∀ {depth : Nat} {es : List (String × Value)},
    jsonEntries (depth + 1) es = .ok () →
    (between (depth + 1)).run (Json.renderEntries false es) = .ok (between depth)
  | depth, [], _ => run_close depth (Or.inr rfl)
  | depth, (k, v) :: es, hes => by
    obtain ⟨⟨⟩, -, hes⟩ := bind_eq_ok.mp hes
    obtain ⟨⟨⟩, hv, hes⟩ := bind_eq_ok.mp hes
    have hcomma : (between (depth + 1)).run [','] = .ok (between (depth + 1)) :=
      run_between (by decide)
    have hcolon : (between (depth + 1)).run [':'] = .ok (between (depth + 1)) :=
      run_between (by decide)
    rw [Json.renderEntries]
    exact Scan.run_append (c := ',' :: '"' :: Json.renderChars false k.toList)
      (Scan.run_append (c := [',']) hcomma (run_string (depth + 1) k.toList))
      (Scan.run_append (Scan.run_append (c := [':']) hcolon (run_render hv)) (run_entries hes))

end

/-! ## Canonical byte strings -/

theorem bytes_ofList (cs : List Char) :
    (encodeUtf8 (String.ofList cs)).data.toList = cs.flatMap String.utf8EncodeChar := by
  have hbytes : encodeUtf8 (String.ofList cs) =
      (cs.flatMap String.utf8EncodeChar).toByteArray := String.toByteArray_ofList
  rw [hbytes, List.toList_data_toByteArray]

theorem fromUTF8_encodeUtf8 (s : String) : String.fromUTF8? (encodeUtf8 s) = some s := by
  have hvalid : (encodeUtf8 s).IsValidUTF8 := s.isValidUTF8
  rw [String.fromUTF8?, dif_pos hvalid]
  rfl

theorem canonical_eq_ok {v : Value} {raw : ByteArray} :
    canonical v = .ok raw ↔ jsonValue 0 v = .ok () ∧ raw = encodeUtf8 (canonicalText v) := by
  rw [canonical, bind_eq_ok]
  constructor
  · rintro ⟨⟨⟩, hv, heq⟩
    exact ⟨hv, (Except.ok.inj heq).symm⟩
  · rintro ⟨hv, rfl⟩
    exact ⟨(), hv, rfl⟩

/-- Reading the text of a checked value gives the sorted value. -/
theorem loads_canonicalText {v : Value} (hv : jsonValue 0 v = .ok ()) (hunique : Unique v) :
    Json.loads strictHooks (canonicalText v) = .ok (Json.sortKeys v) :=
  Json.loads_render (reads_of_jsonValue (jsonValue_sortKeys hv) (ordered_sortKeys hunique))

/-- `parse` accepts the canonical byte strings up to the limit, and reads the ordered value
that they are the text of. -/
theorem parse_eq_ok {raw : ByteArray} {limit : Nat} {v : Value} :
    parse raw limit = .ok v ↔ raw.size ≤ limit ∧ Ordered v ∧ canonical v = .ok raw := by
  constructor
  · intro h
    obtain ⟨⟨⟩, hsize, h⟩ := bind_eq_ok.mp h
    obtain ⟨scan, -, h⟩ := bind_eq_ok.mp h
    obtain ⟨decoded, hdecoded, h⟩ := bind_eq_ok.mp h
    obtain ⟨w, hw, h⟩ := bind_eq_ok.mp h
    obtain ⟨again, hagain, h⟩ := bind_eq_ok.mp h
    obtain ⟨⟨⟩, hsame, hout⟩ := bind_eq_ok.mp h
    obtain rfl := require_eq_ok.mp hsame
    cases hout
    refine ⟨require_eq_ok.mp hsize, ?_, hagain⟩
    obtain ⟨hv, rfl⟩ := canonical_eq_ok.mp hagain
    rw [orRaise_eq_ok, fromUTF8_encodeUtf8] at hdecoded
    obtain rfl := Option.some.inj hdecoded
    have hunique : Unique v := by
      refine Json.loads_objects (fun es d hd => ?_) hw
      unfold strictHooks uniquePairs at hd
      dsimp only at hd
      split at hd
      · next hnodup => exact ⟨(Except.ok.inj hd).symm, Except.ok.inj hd ▸ hnodup⟩
      · cases hd
    -- the text of `v` is read as `v` and as the sorted value
    have hsorted := hw.symm.trans (loads_canonicalText hv hunique)
    rw [Except.ok.inj hsorted]
    exact ordered_sortKeys hunique
  · rintro ⟨hsize, hordered, hcanonical⟩
    obtain ⟨hv, rfl⟩ := canonical_eq_ok.mp hcanonical
    have hscan : (encodeUtf8 (canonicalText v)).data.toList.foldlM Scan.step {} =
        .ok (between 0) := by
      rw [canonicalText, bytes_ofList, sortKeys_of_ordered hordered]
      exact run_render hv
    have hloads : Json.loads strictHooks (canonicalText v) = .ok v := by
      rw [canonicalText, sortKeys_of_ordered hordered]
      exact Json.loads_render (reads_of_jsonValue hv hordered)
    simp only [parse, require_pos hsize, hscan, fromUTF8_encodeUtf8, orRaise, hloads, hcanonical,
      require_pos trivial, ok_bind]

/-! ## Read fields -/

theorem pattern_eq_ok {v : Value} {regex : String → Bool} {s : String} :
    pattern v regex = .ok s ↔ v = .str s ∧ regex s = true := by
  cases v with
  | str t =>
    rw [pattern]
    by_cases h : regex t = true
    · rw [if_pos h]
      constructor
      · intro heq
        cases heq
        exact ⟨rfl, h⟩
      · rintro ⟨heq, -⟩
        rw [Value.str.inj heq]
    · rw [if_neg h]
      constructor
      · nofun
      · rintro ⟨heq, hs⟩
        exact absurd (Value.str.inj heq ▸ hs) h
  | _ => simp [pattern]

theorem wallet_eq_ok {v : Value} {s : String} :
    wallet v = .ok s ↔ v = .str s ∧ isHexAfter "0x" 40 s = true := pattern_eq_ok

theorem uint_eq_ok {v : Value} {low high n : Int} :
    uint v low high = .ok n ↔ v = .int n ∧ low ≤ n ∧ n ≤ high := Value.intIn_eq_ok

theorem ordered_get {d : Dict} {key : String} (hd : Ordered (.dict d)) : Ordered (d.get key) := by
  cases hget : Dict.get? d key with
  | none =>
    rw [Dict.get, hget]
    trivial
  | some v =>
    rw [Dict.get, hget]
    exact objectsEntries_iff.mp hd.2 _ (Dict.mem_of_get? hget)

theorem closed_eq_ok {v : Value} {fields optional : List String} {d : Dict}
    (h : closed v fields optional = .ok d) : v = .dict d := by
  cases v with
  | dict e =>
    obtain ⟨⟨⟩, -, hout⟩ := bind_eq_ok.mp h
    cases hout
    rfl
  | _ => cases h

/-- A closed object is the list of its fields. -/
theorem eq_of_closed {d d' : Dict} {fields l : List String}
    (hd : (d.map Prod.fst).Pairwise (· < ·)) (hclosed : closed (.dict d) fields [] = .ok d')
    (hsorted : l.Pairwise (· < ·)) (hfields : ∀ k, k ∈ l ↔ k ∈ fields) :
    d' = d ∧ d = l.map fun k => (k, d.get k) := by
  obtain ⟨⟨⟩, hkeys, hout⟩ := bind_eq_ok.mp hclosed
  cases hout
  obtain ⟨hall, honly⟩ := require_eq_ok.mp hkeys
  have hsame : d.map Prod.fst = l := by
    have hmem : ∀ k, k ∈ d.map Prod.fst ↔ k ∈ l := by
      intro k
      rw [hfields]
      constructor
      · intro hk
        have hmem := List.all_eq_true.mp honly k hk
        rwa [List.append_nil, List.contains_iff_mem] at hmem
      · intro hk
        have hmem := List.all_eq_true.mp hall k hk
        rwa [List.contains_iff_mem] at hmem
    have hperm : (d.map Prod.fst).Perm l :=
      (List.perm_ext_iff_of_nodup (hd.imp ne_of_lt) (hsorted.imp ne_of_lt)).mpr hmem
    exact hperm.eq_of_pairwise (fun _ _ _ _ hab hba => (lt_asymm hab hba).elim) hd hsorted
  refine ⟨rfl, ?_⟩
  rw [← hsame]
  exact Dict.entries_eq (hd.imp ne_of_lt)

end CanonicalV3

end ZoidbergChain
