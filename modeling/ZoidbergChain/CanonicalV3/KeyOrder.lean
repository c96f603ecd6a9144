import ZoidbergChain.CanonicalV3.Block

/-!
# The order of keys does not matter

A Python `dict` is compared and read by its keys. Every check of a block record gives the same
result on a value and on the value with sorted keys.

- `field_sortKeys` and `canonical_congr`: reading a field and writing canonical bytes.
- `validatePayload_sortKeys`: the checks of a block payload.
-/

namespace ZoidbergChain

open Python

namespace CanonicalV3

/-! ## Sorting twice -/

theorem sortEntries_sortEntries (es : List (String × Value)) :
    Json.sortEntries (Json.sortEntries es) = Json.sortEntries es := by
  have : IsTrans (String × Value) fun a b => a.1 ≤ b.1 := ⟨fun _ _ _ => le_trans⟩
  have : Std.Total fun a b : String × Value => a.1 ≤ b.1 := ⟨fun _ _ => le_total _ _⟩
  have hsorted : (Json.sortEntries es).Pairwise fun a b => a.1 ≤ b.1 :=
    List.pairwise_insertionSort _ _
  exact hsorted.insertionSort_eq

theorem sortChildren_eq_map (es : List (String × Value)) :
    Json.sortChildren es = es.map fun e => (e.1, Json.sortKeys e.2) := by
  induction es with
  | nil => rfl
  | cons e es ih => simp [Json.sortChildren, ih]

theorem sortItems_eq_map (xs : List Value) : Json.sortItems xs = xs.map Json.sortKeys := by
  induction xs with
  | nil => rfl
  | cons x xs ih => simp [Json.sortItems, ih]

/-- The sort looks at the keys alone. -/
theorem sortEntries_sortChildren (es : List (String × Value)) :
    Json.sortEntries (Json.sortChildren es) = Json.sortChildren (Json.sortEntries es) := by
  rw [sortChildren_eq_map, sortChildren_eq_map]
  exact (List.map_insertionSort _ _ (fun e : String × Value => (e.1, Json.sortKeys e.2)) es
    fun _ _ _ _ => Iff.rfl).symm

mutual

@[simp] theorem sortKeys_sortKeys : ∀ v : Value, Json.sortKeys (Json.sortKeys v) = Json.sortKeys v
  | .null | .bool _ | .int _ | .float _ | .str _ | .bytes _ => rfl
  | .list xs => congrArg Value.list (sortItems_sortItems xs)
  | .dict es => by
    rw [Json.sortKeys, Json.sortKeys, ← sortEntries_sortChildren, sortChildren_sortChildren es,
      sortEntries_sortEntries]

theorem sortItems_sortItems : ∀ xs : List Value,
    Json.sortItems (Json.sortItems xs) = Json.sortItems xs
  | [] => rfl
  | x :: xs => by rw [Json.sortItems, Json.sortItems, sortKeys_sortKeys x, sortItems_sortItems xs]

theorem sortChildren_sortChildren : ∀ es : List (String × Value),
    Json.sortChildren (Json.sortChildren es) = Json.sortChildren es
  | [] => rfl
  | (k, v) :: es => by
    rw [Json.sortChildren, Json.sortChildren, sortKeys_sortKeys v, sortChildren_sortChildren es]

end

/-! ## Reading fields -/

theorem get?_sortChildren (es : List (String × Value)) (key : String) :
    Dict.get? (Json.sortChildren es) key = (Dict.get? es key).map Json.sortKeys := by
  induction es with
  | nil => rfl
  | cons e es ih =>
    obtain ⟨k, v⟩ := e
    rw [Json.sortChildren, Dict.get?_cons, Dict.get?_cons, ih]
    split <;> rfl

/-- An entry goes before the entries with the same key, so that the first one stays the first. -/
theorem get?_orderedInsert (e : String × Value) (es : List (String × Value)) (key : String) :
    Dict.get? (es.orderedInsert (fun a b => a.1 ≤ b.1) e) key = Dict.get? (e :: es) key := by
  induction es with
  | nil => rfl
  | cons f es ih =>
    rw [List.orderedInsert]
    split
    · rfl
    · next hnot =>
      have hne : f.1 ≠ e.1 := fun heq => hnot (le_of_eq heq.symm)
      obtain ⟨l, w⟩ := f
      obtain ⟨k, v⟩ := e
      rw [Dict.get?_cons, ih, Dict.get?_cons, Dict.get?_cons, Dict.get?_cons]
      by_cases hk : k = key
      · subst hk
        rw [if_neg hne, if_pos rfl, if_pos rfl]
      · rw [if_neg hk, if_neg hk]

theorem get?_sortEntries (es : List (String × Value)) (key : String) :
    Dict.get? (Json.sortEntries es) key = Dict.get? es key := by
  induction es with
  | nil => rfl
  | cons e es ih =>
    obtain ⟨k, v⟩ := e
    show Dict.get? ((Json.sortEntries es).orderedInsert _ (k, v)) key = _
    rw [get?_orderedInsert, Dict.get?_cons, Dict.get?_cons, ih]

theorem get?_sorted (es : Dict) (key : String) :
    Dict.get? (Json.sortEntries (Json.sortChildren es)) key =
      (Dict.get? es key).map Json.sortKeys := by
  rw [get?_sortEntries, get?_sortChildren]

@[simp] theorem field_sortKeys (v : Value) (key : String) :
    (Json.sortKeys v).field key = Json.sortKeys (v.field key) := by
  cases v with
  | dict es =>
    show Dict.get (Json.sortEntries (Json.sortChildren es)) key = Json.sortKeys (Dict.get es key)
    rw [Dict.get_eq, Dict.get_eq, get?_sorted]
    cases Dict.get? es key <;> rfl
  | _ => rfl

@[simp] theorem has_sortKeys (v : Value) (key : String) :
    (Json.sortKeys v).has key = v.has key := by
  cases v with
  | dict es =>
    show (Dict.get? (Json.sortEntries (Json.sortChildren es)) key).isSome = _
    rw [get?_sorted, Option.isSome_map]
    rfl
  | _ => rfl

@[simp] theorem isObject_sortKeys (v : Value) : (Json.sortKeys v).isObject = v.isObject := by
  cases v <;> rfl

@[simp] theorem textAt_sortKeys (v : Value) (key : String) :
    (Json.sortKeys v).textAt key = v.textAt key := by
  rw [Value.textAt, Value.textAt, field_sortKeys]
  cases v.field key <;> rfl

@[simp] theorem intAt_sortKeys (v : Value) (key : String) :
    (Json.sortKeys v).intAt key = v.intAt key := by
  rw [Value.intAt, Value.intAt, field_sortKeys]
  cases v.field key <;> rfl

@[simp] theorem items_sortKeys (v : Value) :
    (Json.sortKeys v).items = v.items.map Json.sortKeys := by
  cases v with
  | list xs => exact sortItems_eq_map xs
  | _ => rfl

@[simp] theorem sortKeys_eq_str {v : Value} {s : String} :
    Json.sortKeys v = .str s ↔ v = .str s := by
  cases v <;> simp [Json.sortKeys]

@[simp] theorem sortKeys_eq_int {v : Value} {n : Int} :
    Json.sortKeys v = .int n ↔ v = .int n := by
  cases v <;> simp [Json.sortKeys]

@[simp] theorem sortKeys_eq_null {v : Value} : Json.sortKeys v = .null ↔ v = .null := by
  cases v <;> simp [Json.sortKeys]

theorem closed_sortKeys (v : Value) (fields optional : List String) :
    (∃ d, closed (Json.sortKeys v) fields optional = .ok d) ↔
      ∃ d, closed v fields optional = .ok d := by
  cases v with
  | dict es =>
    have hkeys : (Dict.keys (Json.sortEntries (Json.sortChildren es))).Perm (Dict.keys es) := by
      have hperm := (perm_sortEntries (Json.sortChildren es)).map Prod.fst
      rwa [keys_sortChildren] at hperm
    simp only [Json.sortKeys, closed, bind_eq_ok, require_eq_ok, List.all_eq_true,
      List.contains_iff_mem, hkeys.mem_iff]
    simp
  | _ => simp [Json.sortKeys, closed]

theorem exists_closed_and {v : Value} {fields optional : List String} {p : Prop} :
    (∃ d, closed (Json.sortKeys v) fields optional = .ok d ∧ p) ↔
      ∃ d, closed v fields optional = .ok d ∧ p := by
  rw [exists_and_right, closed_sortKeys, exists_and_right]

/-! ## Scalar checks -/

@[simp] theorem pattern_sortKeys (v : Value) (regex : String → Bool) :
    pattern (Json.sortKeys v) regex = pattern v regex := by
  cases v <;> rfl

@[simp] theorem h64_sortKeys (v : Value) : h64 (Json.sortKeys v) = h64 v := pattern_sortKeys v _

@[simp] theorem wallet_sortKeys (v : Value) : wallet (Json.sortKeys v) = wallet v :=
  pattern_sortKeys v _

@[simp] theorem submissionId_sortKeys (v : Value) :
    submissionId (Json.sortKeys v) = submissionId v := pattern_sortKeys v _

@[simp] theorem opaqueText_sortKeys (v : Value) :
    opaqueText (Json.sortKeys v) = opaqueText v := pattern_sortKeys v _

@[simp] theorem signature_sortKeys (v : Value) :
    signature (Json.sortKeys v) = signature v := by
  rw [signature, pattern_sortKeys, signature]

@[simp] theorem uint_sortKeys (v : Value) (low high : Int) :
    uint (Json.sortKeys v) low high = uint v low high := by
  cases v <;> rfl

@[simp] theorem nonemptyText_sortKeys (v : Value) (scalars octets : Nat) :
    nonemptyText (Json.sortKeys v) scalars octets = nonemptyText v scalars octets := by
  cases v <;> rfl

@[simp] theorem nonce_sortKeys (v : Value) : nonce (Json.sortKeys v) = nonce v := by
  simp only [nonce, pattern_sortKeys]

@[simp] theorem decimalUnits_sortKeys (v : Value) (positive : Bool) (maximum : Option Nat) :
    decimalUnits (Json.sortKeys v) positive maximum = decimalUnits v positive maximum := by
  simp only [decimalUnits, nonemptyText_sortKeys, pattern_sortKeys]

@[simp] theorem seconds_sortKeys (v : Value) : seconds (Json.sortKeys v) = seconds v :=
  decimalUnits_sortKeys v _ _

@[simp] theorem timeUtc_sortKeys (v : Value) : timeUtc (Json.sortKeys v) = timeUtc v := by
  simp only [timeUtc, nonemptyText_sortKeys, pattern_sortKeys]

@[simp] theorem expiry_sortKeys (issued expires : Value) :
    expiry (Json.sortKeys issued) (Json.sortKeys expires) = expiry issued expires := by
  simp only [expiry, timeUtc_sortKeys]

@[simp] theorem oneOf_sortKeys (v : Value) (choices : List String) (code : String) :
    oneOf (Json.sortKeys v) choices code = oneOf v choices code := by
  cases v <;> rfl

@[simp] theorem textOfLength_sortKeys (v : Value) (n : Nat) (code : String) :
    textOfLength (Json.sortKeys v) n code = textOfLength v n code := by
  cases v <;> rfl

@[simp] theorem verifySignature_sortKeys (crypto : Crypto) (message : ByteArray)
    (sig expected : Value) :
    verifySignature crypto message (Json.sortKeys sig) (Json.sortKeys expected) =
      verifySignature crypto message sig expected := by
  simp only [verifySignature, signature_sortKeys, wallet_sortKeys]

/-! ## Canonical bytes -/

mutual

/-- The converse of `jsonValue_sortKeys`. -/
theorem jsonValue_of_sortKeys : ∀ {depth : Nat} {v : Value},
    jsonValue depth (Json.sortKeys v) = .ok () → jsonValue depth v = .ok ()
  | _, .null, hv | _, .bool _, hv | _, .int _, hv | _, .float _, hv | _, .str _, hv
  | _, .bytes _, hv => hv
  | depth, .list xs, hv => by
    obtain ⟨⟨⟩, hdepth, hxs⟩ := bind_eq_ok.mp hv
    rw [jsonValue, hdepth, ok_bind, jsonItems_of_sortItems hxs]
  | depth, .dict es, hv => by
    obtain ⟨⟨⟩, hdepth, hes⟩ := bind_eq_ok.mp hv
    have hsorted : jsonEntries (depth + 1) (Json.sortChildren es) = .ok () :=
      jsonEntries_eq_ok.mpr fun e he =>
        jsonEntries_eq_ok.mp hes e ((perm_sortEntries _).mem_iff.mpr he)
    rw [jsonValue, hdepth, ok_bind, jsonEntries_of_sortChildren hsorted]

theorem jsonItems_of_sortItems : ∀ {depth : Nat} {xs : List Value},
    jsonItems depth (Json.sortItems xs) = .ok () → jsonItems depth xs = .ok ()
  | _, [], _ => rfl
  | depth, x :: xs, hxs => by
    obtain ⟨⟨⟩, hx, hxs⟩ := bind_eq_ok.mp hxs
    rw [jsonItems, jsonValue_of_sortKeys hx, ok_bind, jsonItems_of_sortItems hxs]

theorem jsonEntries_of_sortChildren : ∀ {depth : Nat} {es : List (String × Value)},
    jsonEntries depth (Json.sortChildren es) = .ok () → jsonEntries depth es = .ok ()
  | _, [], _ => rfl
  | depth, (k, v) :: es, hes => by
    obtain ⟨⟨⟩, hk, hes⟩ := bind_eq_ok.mp hes
    obtain ⟨⟨⟩, hv, hes⟩ := bind_eq_ok.mp hes
    rw [jsonEntries, hk, ok_bind, jsonValue_of_sortKeys hv, ok_bind,
      jsonEntries_of_sortChildren hes]

end

theorem SameValue.sorted (v : Value) : SameValue (Json.sortKeys v) v := sortKeys_sortKeys v

theorem jsonValue_congr {depth : Nat} {v w : Value} (h : SameValue v w) :
    jsonValue depth v = .ok () ↔ jsonValue depth w = .ok () := by
  have hsorted : ∀ u, jsonValue depth u = .ok () ↔ jsonValue depth (Json.sortKeys u) = .ok () :=
    fun u => ⟨jsonValue_sortKeys, jsonValue_of_sortKeys⟩
  rw [hsorted v, hsorted w, h]

/-- Values that differ in the order of keys have the same canonical bytes. -/
theorem canonical_congr {v w : Value} {raw : ByteArray} (h : SameValue v w) :
    canonical v = .ok raw ↔ canonical w = .ok raw := by
  rw [canonical_eq_ok, canonical_eq_ok, jsonValue_congr h, canonicalText, canonicalText, h]

@[simp] theorem canonical_sortKeys {v : Value} {raw : ByteArray} :
    canonical (Json.sortKeys v) = .ok raw ↔ canonical v = .ok raw :=
  canonical_congr (SameValue.sorted v)

@[simp] theorem canonicalAscii_sortKeys {v : Value} {raw : ByteArray} :
    canonicalAscii (Json.sortKeys v) = .ok raw ↔ canonicalAscii v = .ok raw := by
  simp only [canonicalAscii, bind_eq_ok, jsonValue_congr (SameValue.sorted v), sortKeys_sortKeys]

@[simp] theorem bounded_sortKeys {v : Value} {limit : Nat} {u : Unit} :
    bounded (Json.sortKeys v) limit = .ok u ↔ bounded v limit = .ok u := by
  simp only [bounded, bind_eq_ok, canonical_sortKeys]

@[simp] theorem fixed_sortKeys {v expected : Value} {u : Unit} :
    fixed (Json.sortKeys v) expected = .ok u ↔ fixed v expected = .ok u := by
  simp only [fixed, bind_eq_ok, canonical_sortKeys]

@[simp] theorem fieldsEqual_sortKeys {v : Value} {expected : Dict} {u : Unit} :
    fieldsEqual (Json.sortKeys v) expected = .ok u ↔ fieldsEqual v expected = .ok u := by
  simp only [fieldsEqual, forM_eq_ok, field_sortKeys, fixed_sortKeys]

/-! ## Equal canonical bytes -/

mutual

theorem plain_of_jsonValue : ∀ {depth : Nat} {v : Value}, jsonValue depth v = .ok () →
    Json.Plain v
  | _, .null, _ | _, .bool _, _ | _, .int _, _ | _, .str _, _ => trivial
  | _, .float _, hv | _, .bytes _, hv => nomatch hv
  | _, .list xs, hv => by
    obtain ⟨⟨⟩, -, hxs⟩ := bind_eq_ok.mp hv
    exact plainItems_of_jsonItems hxs
  | _, .dict es, hv => by
    obtain ⟨⟨⟩, -, hes⟩ := bind_eq_ok.mp hv
    exact plainEntries_of_jsonEntries hes

theorem plainItems_of_jsonItems : ∀ {depth : Nat} {xs : List Value},
    jsonItems depth xs = .ok () → Json.PlainItems xs
  | _, [], _ => trivial
  | _, _ :: _, hxs => by
    obtain ⟨⟨⟩, hx, hxs⟩ := bind_eq_ok.mp hxs
    exact ⟨plain_of_jsonValue hx, plainItems_of_jsonItems hxs⟩

theorem plainEntries_of_jsonEntries : ∀ {depth : Nat} {es : List (String × Value)},
    jsonEntries depth es = .ok () → Json.PlainEntries es
  | _, [], _ => trivial
  | _, (_, _) :: _, hes => by
    obtain ⟨⟨⟩, -, hes⟩ := bind_eq_ok.mp hes
    obtain ⟨⟨⟩, hv, hes⟩ := bind_eq_ok.mp hes
    exact ⟨plain_of_jsonValue hv, plainEntries_of_jsonEntries hes⟩

end

/-- Values with the same canonical bytes differ in the order of keys alone. -/
theorem canonical_inj {v w : Value} {raw : ByteArray} (hv : canonical v = .ok raw)
    (hw : canonical w = .ok raw) : SameValue v w := by
  obtain ⟨hjson, hraw⟩ := canonical_eq_ok.mp hv
  obtain ⟨hjson', rfl⟩ := canonical_eq_ok.mp hw
  have htext : Json.render false (Json.sortKeys v) ++ [] =
      Json.render false (Json.sortKeys w) ++ [] := by
    rw [List.append_nil, List.append_nil]
    exact (String.ofList_injective (encodeUtf8_inj.mp hraw)).symm
  have hstops : Json.Stops [] := nofun
  exact (Json.render_inj _ _ _ _ (plain_of_jsonValue (jsonValue_sortKeys hjson))
    (plain_of_jsonValue (jsonValue_sortKeys hjson')) hstops hstops htext).1

/-- `fixed` accepts the expected value, with its keys in any order. -/
theorem fixed_eq_ok {v expected : Value} {u : Unit} :
    fixed v expected = .ok u ↔ jsonValue 0 expected = .ok () ∧ SameValue v expected := by
  rw [fixed, bind_eq_ok]
  constructor
  · rintro ⟨raw, hraw, h⟩
    obtain ⟨wanted, hwanted, h⟩ := bind_eq_ok.mp h
    obtain rfl := require_eq_ok.mp h
    exact ⟨(canonical_eq_ok.mp hwanted).1, canonical_inj hraw hwanted⟩
  · rintro ⟨hjson, hsame⟩
    have hwanted : canonical expected = .ok (encodeUtf8 (canonicalText expected)) :=
      canonical_eq_ok.mpr ⟨hjson, rfl⟩
    exact ⟨_, (canonical_congr hsame).mpr hwanted, bind_eq_ok.mpr ⟨_, hwanted, require_pos rfl⟩⟩

theorem fixed_self {v : Value} (h : jsonValue 0 v = .ok ()) : fixed v v = .ok () :=
  fixed_eq_ok.mpr ⟨h, rfl⟩

theorem fieldsEqual_eq_ok {v : Value} {expected : Dict} {u : Unit} :
    fieldsEqual v expected = .ok u ↔ ∀ e ∈ expected, fixed (v.field e.1) e.2 = .ok () := by
  rw [fieldsEqual, forM_eq_ok]

theorem sameValue_envelope {p q : Value} (h : SameValue p q) (purpose : String) (ctx : Context) :
    SameValue (envelope p purpose ctx) (envelope q purpose ctx) := by
  have hpq : Json.sortKeys p = Json.sortKeys q := h
  simp only [SameValue, envelope, Json.sortKeys, Json.sortChildren, hpq]

theorem filter_orderedInsert {p : String × Value → Bool} {e : String × Value}
    {es : List (String × Value)} (hsorted : es.Pairwise fun a b => a.1 ≤ b.1) :
    (es.orderedInsert (fun a b => a.1 ≤ b.1) e).filter p =
      if p e then (es.filter p).orderedInsert (fun a b => a.1 ≤ b.1) e else es.filter p := by
  induction es with
  | nil => cases hp : p e <;> simp [hp]
  | cons f es ih =>
    obtain ⟨hhead, htail⟩ := List.pairwise_cons.mp hsorted
    rw [List.orderedInsert]
    split
    · next hle =>
      -- `e` goes to the front, before and after the filter
      have hfront : ∀ g ∈ (f :: es).filter p, e.1 ≤ g.1 := by
        intro g hg
        obtain rfl | hmem := List.mem_cons.mp (List.mem_filter.mp hg).1
        · exact hle
        · exact le_trans hle (hhead g hmem)
      have hinsert : ((f :: es).filter p).orderedInsert (fun a b => a.1 ≤ b.1) e =
          e :: (f :: es).filter p := by
        cases hes : (f :: es).filter p with
        | nil => rfl
        | cons g gs => rw [List.orderedInsert, if_pos (hfront g (by rw [hes]; simp))]
      rw [List.filter_cons, hinsert]
    · next hnot =>
      rw [List.filter_cons, ih htail, List.filter_cons]
      cases hf : p f <;> cases he : p e <;> simp [hnot]

theorem filter_sortEntries (p : String × Value → Bool) (es : List (String × Value)) :
    (Json.sortEntries es).filter p = Json.sortEntries (es.filter p) := by
  have : IsTrans (String × Value) fun a b => a.1 ≤ b.1 := ⟨fun _ _ _ => le_trans⟩
  have : Std.Total fun a b : String × Value => a.1 ≤ b.1 := ⟨fun _ _ => le_total _ _⟩
  induction es with
  | nil => rfl
  | cons e es ih =>
    have hsorted : (Json.sortEntries es).Pairwise fun a b => a.1 ≤ b.1 :=
      List.pairwise_insertionSort _ _
    show ((Json.sortEntries es).orderedInsert _ e).filter p = _
    rw [filter_orderedInsert hsorted, ih, List.filter_cons]
    split <;> rfl

theorem sameValue_withoutKey (v : Value) (key : String) :
    SameValue (withoutKey (Json.sortKeys v) key) (withoutKey v key) := by
  cases v with
  | dict es =>
    have hfilter : (Json.sortChildren es).filter (fun e => e.1 ≠ key) =
        Json.sortChildren (es.filter fun e => e.1 ≠ key) := by
      rw [sortChildren_eq_map, sortChildren_eq_map, List.filter_map]
      rfl
    have hsame : withoutKey (Json.sortKeys (.dict es)) key =
        Json.sortKeys (withoutKey (.dict es) key) := by
      rw [Json.sortKeys, withoutKey, withoutKey, Json.sortKeys, filter_sortEntries, hfilter]
    rw [hsame]
    exact SameValue.sorted _
  | _ => exact SameValue.sorted _

@[simp] theorem withoutDigest_sortKeys {crypto : Crypto} {v : Value} {key : String} {u : Unit} :
    withoutDigest crypto (Json.sortKeys v) key = .ok u ↔ withoutDigest crypto v key = .ok u := by
  simp only [withoutDigest, digest, bind_eq_ok, field_sortKeys, h64_sortKeys,
    canonical_congr (sameValue_withoutKey v key)]

@[simp] theorem validateRational_sortKeys {v : Value} {u : Unit} :
    validateRational (Json.sortKeys v) = .ok u ↔ validateRational v = .ok u := by
  simp only [validateRational, bind_eq_ok, exists_closed_and, field_sortKeys, uint_sortKeys]

/-! ## The checks of a record -/

@[simp] theorem validateDescriptor_sortKeys {v : Value} {bytes : List UInt8} :
    validateDescriptor (Json.sortKeys v) = .ok bytes ↔ validateDescriptor v = .ok bytes := by
  simp only [validateDescriptor, bind_eq_ok, exists_closed_and, field_sortKeys, oneOf_sortKeys,
    uint_sortKeys, h64_sortKeys, textOfLength_sortKeys]

@[simp] theorem signingBytes_sortKeys {ctx : Context} {v : Value} {raw : ByteArray} :
    signingBytes ctx (Json.sortKeys v) = .ok raw ↔ signingBytes ctx v = .ok raw := by
  simp only [signingBytes, bind_eq_ok, exists_closed_and, field_sortKeys, sortKeys_eq_int,
    sortKeys_eq_str, sortKeys_eq_null, h64_sortKeys, wallet_sortKeys, decimalUnits_sortKeys,
    nonce_sortKeys, timeUtc_sortKeys, nonemptyText_sortKeys,
    canonical_congr (sameValue_envelope (SameValue.sorted v) _ _)]

theorem sameValue_transferPayload (v : Value) :
    SameValue (transferPayload (Json.sortKeys v)) (transferPayload v) := by
  simp only [SameValue, transferPayload, Json.sortKeys, sortChildren_eq_map, List.map_map,
    Function.comp_def, field_sortKeys, sortKeys_sortKeys]

theorem signingBytes_transferPayload {ctx : Context} {v : Value} {raw : ByteArray} :
    signingBytes ctx (transferPayload (Json.sortKeys v)) = .ok raw ↔
      signingBytes ctx (transferPayload v) = .ok raw := by
  have hsame := sameValue_transferPayload v
  rw [← signingBytes_sortKeys, hsame, signingBytes_sortKeys]

@[simp] theorem validateTransaction_sortKeys {crypto : Crypto} {ctx : Context} {v : Value}
    {u : Unit} :
    validateTransaction crypto ctx (Json.sortKeys v) = .ok u ↔
      validateTransaction crypto ctx v = .ok u := by
  simp only [validateTransaction, bind_eq_ok, exists_closed_and, bounded_sortKeys,
    field_sortKeys, sortKeys_eq_int, sortKeys_eq_str, signingBytes_transferPayload,
    nonemptyText_sortKeys, h64_sortKeys, verifySignature_sortKeys]

theorem listUpTo_eq_ok {v : Value} {high : Nat} {code : String} {xs : List Value} :
    listUpTo v high code = .ok xs ↔ v = .list xs ∧ xs.length ≤ high := by
  cases v with
  | list ys =>
    rw [listUpTo]
    by_cases hlength : ys.length ≤ high
    · rw [if_pos hlength]
      constructor
      · rintro ⟨⟩
        exact ⟨rfl, hlength⟩
      · rintro ⟨heq, -⟩
        rw [Value.list.inj heq]
    · rw [if_neg hlength]
      constructor
      · nofun
      · rintro ⟨heq, hle⟩
        exact absurd (Value.list.inj heq ▸ hle) hlength
  | _ => simp [listUpTo]

/-- A list with sorted items has the same length and passes the same checks. -/
theorem exists_listUpTo {v : Value} {high : Nat} {code : String} {p : List Value → Prop} :
    (∃ xs, listUpTo (Json.sortKeys v) high code = .ok xs ∧ p xs) ↔
      ∃ xs, listUpTo v high code = .ok xs ∧ p (xs.map Json.sortKeys) := by
  cases v with
  | list xs =>
    simp only [Json.sortKeys, sortItems_eq_map, listUpTo_eq_ok, Value.list.injEq]
    constructor
    · rintro ⟨ys, ⟨rfl, hlength⟩, hp⟩
      exact ⟨xs, ⟨rfl, by rwa [List.length_map] at hlength⟩, hp⟩
    · rintro ⟨ys, ⟨rfl, hlength⟩, hp⟩
      exact ⟨_, ⟨rfl, by rwa [List.length_map]⟩, hp⟩
  | _ => simp [Json.sortKeys, listUpTo]

theorem nonceGapFree_map_sortKeys (records : List Value) :
    nonceGapFree (records.map Json.sortKeys) ↔ nonceGapFree records := by
  induction records using nonceGapFree.induct with
  | case1 left right rest ih =>
    simp only [List.map_cons] at ih ⊢
    simp only [nonceGapFree, textAt_sortKeys, ih]
  | case2 records hshort =>
    cases records with
    | nil => rfl
    | cons x xs =>
      cases xs with
      | nil => rfl
      | cons y ys => exact absurd rfl (hshort x y ys)

theorem forall_mem_map_sortKeys {xs : List Value} {p : Value → Prop} :
    (∀ x ∈ xs.map Json.sortKeys, p x) ↔ ∀ x ∈ xs, p (Json.sortKeys x) := by
  simp

@[simp] theorem transactionOrder_sortKeys (v : Value) :
    transactionOrder (Json.sortKeys v) = transactionOrder v := by
  simp only [transactionOrder, textAt_sortKeys]

@[simp] theorem validateTransactions_sortKeys {crypto : Crypto} {ctx : Context} {v : Value}
    {u : Unit} :
    validateTransactions crypto ctx (Json.sortKeys v) = .ok u ↔
      validateTransactions crypto ctx v = .ok u := by
  simp only [validateTransactions, bind_eq_ok, exists_listUpTo, bounded_sortKeys, forM_eq_ok,
    forall_mem_map_sortKeys, validateTransaction_sortKeys, List.map_map, Function.comp_def,
    transactionOrder_sortKeys, textAt_sortKeys, nonceGapFree_map_sortKeys, require_eq_ok]

@[simp] theorem aggregateHash_sortKeys {crypto : Crypto} {ctx : Context} {v : Value} {h : String} :
    aggregateHash crypto ctx (Json.sortKeys v) = .ok h ↔ aggregateHash crypto ctx v = .ok h := by
  simp only [aggregateHash, bind_eq_ok, validateTransactions_sortKeys, canonicalAscii_sortKeys]

@[simp] theorem validateRewards_sortKeys {v creator : Value} {u : Unit} :
    validateRewards (Json.sortKeys v) (Json.sortKeys creator) = .ok u ↔
      validateRewards v creator = .ok u := by
  cases v with
  | list xs =>
    cases xs with
    | nil => rfl
    | cons x xs =>
      cases xs with
      | nil =>
        simp only [Json.sortKeys, Json.sortItems, validateRewards, reward, bind_eq_ok,
          exists_closed_and, canonical_sortKeys, wallet_sortKeys]
      | cons y ys => rfl
  | _ => rfl

@[simp] theorem validateTechnical_sortKeys {crypto : Crypto} {ctx : Context} {v : Value}
    {u : Unit} :
    validateTechnical crypto ctx (Json.sortKeys v) = .ok u ↔
      validateTechnical crypto ctx v = .ok u := by
  -- the two branches on the type are the same on both sides
  have hbranch : ∀ mime : String, ∀ u : Unit,
      (if mime = "text/plain" then do
        fixed (Json.sortKeys (v.field "raw_media_semantics")) (.str "policy_canonical_utf8_text")
        imageFields.forM fun e => fixed (Json.sortKeys (v.field e.1)) .null
      else do
        fixed (Json.sortKeys (v.field "raw_media_semantics")) (.str "exact_input_bytes")
        imageFields.forM fun e => do
          let _ ← uint (v.field e.1) 1 e.2 : Py Unit) = .ok u ↔
      (if mime = "text/plain" then do
        fixed (v.field "raw_media_semantics") (.str "policy_canonical_utf8_text")
        imageFields.forM fun e => fixed (v.field e.1) .null
      else do
        fixed (v.field "raw_media_semantics") (.str "exact_input_bytes")
        imageFields.forM fun e => do
          let _ ← uint (v.field e.1) 1 e.2 : Py Unit) = .ok u := by
    intro mime u
    split <;> simp only [bind_eq_ok, forM_eq_ok, fixed_sortKeys]
  simp only [validateTechnical, bind_eq_ok, exists_closed_and, bounded_sortKeys,
    fieldsEqual_sortKeys, field_sortKeys, oneOf_sortKeys, fixed_sortKeys, h64_sortKeys,
    uint_sortKeys, withoutDigest_sortKeys, hbranch]

@[simp] theorem attestationBytes_sortKeys {ctx : Context} {v : Value} {raw : ByteArray} :
    attestationBytes ctx (Json.sortKeys v) = .ok raw ↔ attestationBytes ctx v = .ok raw := by
  simp only [attestationBytes, bind_eq_ok, exists_closed_and, fieldsEqual_sortKeys,
    field_sortKeys, wallet_sortKeys, submissionId_sortKeys, h64_sortKeys, opaqueText_sortKeys,
    expiry_sortKeys, canonical_congr (sameValue_envelope (SameValue.sorted v) _ _)]

@[simp] theorem validateAttestation_sortKeys {crypto : Crypto} {ctx : Context} {v : Value}
    {u : Unit} : validateAttestation crypto ctx (Json.sortKeys v) = .ok u ↔
      validateAttestation crypto ctx v = .ok u := by
  simp only [validateAttestation, digest, bind_eq_ok, exists_closed_and, bounded_sortKeys,
    field_sortKeys, attestationBytes_sortKeys, textAt_sortKeys, fieldsEqual_sortKeys,
    canonical_congr (sameValue_envelope (SameValue.sorted (v.field "canonical_payload")) _ _),
    verifySignature_sortKeys]

theorem votePayload_sortKeys (ctx : Context) (v : Value) :
    votePayload ctx (Json.sortKeys v) = votePayload ctx v := by
  simp only [votePayload, textAt_sortKeys]

theorem sameValue_identity (p v : Value) :
    SameValue (.dict [("payload", p), ("signature", Json.sortKeys v)])
      (.dict [("payload", p), ("signature", v)]) := by
  simp only [SameValue, Json.sortKeys, Json.sortChildren, sortKeys_sortKeys]

@[simp] theorem validateVote_sortKeys {crypto : Crypto} {ctx : Context} {v : Value} {u : Unit} :
    validateVote crypto ctx (Json.sortKeys v) = .ok u ↔ validateVote crypto ctx v = .ok u := by
  simp only [validateVote, digest, bind_eq_ok, exists_closed_and, bounded_sortKeys,
    field_sortKeys, submissionId_sortKeys, h64_sortKeys, wallet_sortKeys, fieldsEqual_sortKeys,
    oneOf_sortKeys, uint_sortKeys, opaqueText_sortKeys, expiry_sortKeys, votePayload_sortKeys,
    canonical_congr (sameValue_identity _ _), verifySignature_sortKeys]

@[simp] theorem voteOrder_sortKeys (v : Value) : voteOrder (Json.sortKeys v) = voteOrder v := by
  simp only [voteOrder, textAt_sortKeys]

@[simp] theorem validateVotes_sortKeys {crypto : Crypto} {ctx : Context} {v : Value} {u : Unit} :
    validateVotes crypto ctx (Json.sortKeys v) = .ok u ↔ validateVotes crypto ctx v = .ok u := by
  simp only [validateVotes, bind_eq_ok, exists_listUpTo, forM_eq_ok, forall_mem_map_sortKeys,
    validateVote_sortKeys, List.map_map, Function.comp_def, voteOrder_sortKeys, textAt_sortKeys,
    require_eq_ok, List.countP_map]

theorem selectedVotes_map_sortKeys (votes : List Value) (dimension : String) :
    selectedVotes (votes.map Json.sortKeys) dimension =
      (selectedVotes votes dimension).map Json.sortKeys := by
  rw [selectedVotes, selectedVotes, List.filter_map]
  simp only [Function.comp_def, textAt_sortKeys]
  exact (List.map_insertionSort _ _ Json.sortKeys _ fun v _ w _ => by
    rw [textAt_sortKeys, textAt_sortKeys]).symm

theorem choiceCount_map_sortKeys (selected : List Value) (choice : String) :
    choiceCount (selected.map Json.sortKeys) choice = choiceCount selected choice := by
  simp only [choiceCount, List.countP_map, Function.comp_def, textAt_sortKeys]

theorem voteProjection_map_sortKeys (selected : List Value) :
    voteProjection (selected.map Json.sortKeys) = voteProjection selected := by
  simp only [voteProjection, List.map_map, Function.comp_def, textAt_sortKeys]

theorem deriveTally_map_sortKeys (crypto : Crypto) (ctx : Context) (votes : List Value)
    (dimension : String) : deriveTally crypto ctx (votes.map Json.sortKeys) dimension =
      deriveTally crypto ctx votes dimension := by
  unfold deriveTally
  rw [selectedVotes_map_sortKeys]
  simp only [choiceCount_map_sortKeys, voteProjection_map_sortKeys, List.countP_map,
    Function.comp_def, textAt_sortKeys, List.length_map]

@[simp] theorem validateDerivedTally_sortKeys {crypto : Crypto} {ctx : Context} {v : Value}
    {votes : List Value} {dimension : String} {u : Unit} :
    validateDerivedTally crypto ctx (Json.sortKeys v) (votes.map Json.sortKeys) dimension = .ok u ↔
      validateDerivedTally crypto ctx v votes dimension = .ok u := by
  simp only [validateDerivedTally, bind_eq_ok, exists_closed_and, bounded_sortKeys,
    deriveTally_map_sortKeys, fixed_sortKeys]

@[simp] theorem validateCertificate_sortKeys {crypto : Crypto} {ctx : Context} {v : Value}
    {u : Unit} : validateCertificate crypto ctx (Json.sortKeys v) = .ok u ↔
      validateCertificate crypto ctx v = .ok u := by
  simp only [validateCertificate, bind_eq_ok, exists_closed_and, bounded_sortKeys,
    fieldsEqual_sortKeys, field_sortKeys, submissionId_sortKeys, h64_sortKeys, wallet_sortKeys,
    validateTechnical_sortKeys, validateAttestation_sortKeys, textAt_sortKeys, items_sortKeys,
    validateVotes_sortKeys, forM_eq_ok, forall_mem_map_sortKeys, validateDerivedTally_sortKeys,
    sortKeys_eq_str, withoutDigest_sortKeys]

@[simp] theorem validateHeader_sortKeys {crypto : Crypto} {v : Value} {u : Unit} :
    validateHeader crypto (Json.sortKeys v) = .ok u ↔ validateHeader crypto v = .ok u := by
  simp only [validateHeader, bind_eq_ok, field_sortKeys, fixed_sortKeys, uint_sortKeys,
    h64_sortKeys, seconds_sortKeys, pattern_sortKeys, submissionId_sortKeys, forM_eq_ok,
    wallet_sortKeys, validateRational_sortKeys, fieldsEqual_sortKeys]

/-- The checks of a payload do not see the order of its keys. -/
theorem validatePayload_sortKeys {crypto : Crypto} {ctx : Context} {v : Value} {u : Unit} :
    validatePayload crypto ctx (Json.sortKeys v) = .ok u ↔
      validatePayload crypto ctx v = .ok u := by
  have hcontent : ∀ mime : String, (Json.sortKeys (v.field "content_type") ∈
      if mime = "text/plain" then [Value.str "text"] else [.str "image", .str "mixed"]) ↔
      v.field "content_type" ∈
        if mime = "text/plain" then [Value.str "text"] else [.str "image", .str "mixed"] := by
    intro mime
    split <;> simp
  simp only [validatePayload, bind_eq_ok, exists_closed_and, bounded_sortKeys,
    validateHeader_sortKeys, field_sortKeys, validateDescriptor_sortKeys, textAt_sortKeys,
    intAt_sortKeys, has_sortKeys, nonemptyText_sortKeys, validateRewards_sortKeys,
    aggregateHash_sortKeys, fixed_sortKeys, validateCertificate_sortKeys, fieldsEqual_sortKeys,
    require_eq_ok, hcontent]

/-- Nor do the budgets of a record. -/
theorem checkBudgets_sortKeys {record : Value} {raw : ByteArray} {sizes : Sizes} :
    checkBudgets (Json.sortKeys record) raw = .ok sizes ↔
      checkBudgets record raw = .ok sizes := by
  simp only [checkBudgets, bind_eq_ok, field_sortKeys, canonical_sortKeys, textAt_sortKeys]

end CanonicalV3

end ZoidbergChain
