import ZoidbergChain.CanonicalV3.Fields
import ZoidbergChain.Python.JsonWidth

/-!
# Widths of canonical bytes

How many canonical bytes a checked value takes, and how deep it nests.

- `size_canonical`: canonical bytes are as many as the text is wide.
- `width_dict_le`, `le_width_dict`: the width of an object by the widths of its fields.
- `jsonValue_of_nesting`: a checked value can be put into other objects.
-/

namespace ZoidbergChain

open Python

namespace CanonicalV3

/-! ## Plain texts -/

theorem utf8ByteSize_eq (s : String) : s.utf8ByteSize = Json.bytes s.toList := by
  have h := congrArg List.length (bytes_ofList s.toList)
  rw [String.ofList_toList, Json.length_utf8] at h
  exact h

theorem isPlain_of_hex {c : Char} (hc : isLowerHex c = true) : Json.isPlain c = true := by
  simp only [isLowerHex, Char.isDigit, Bool.or_eq_true, Bool.and_eq_true, decide_eq_true_eq,
    ge_iff_le, Char.le_def, UInt32.le_iff_toNat_le] at hc
  have hval : (48 ≤ c.toNat ∧ c.toNat ≤ 57) ∨ (97 ≤ c.toNat ∧ c.toNat ≤ 102) := hc
  have hquote : c ≠ '"' := by
    rintro rfl
    revert hval
    decide
  have hslash : c ≠ '\\' := by
    rintro rfl
    revert hval
    decide
  simp only [Json.isPlain, Bool.and_eq_true, decide_eq_true_eq, ne_eq]
  exact ⟨⟨⟨by omega, by omega⟩, hquote⟩, hslash⟩

/-- Hexadecimal digits behind a plain prefix are plain. -/
theorem plain_of_hex {pre : String} {n : Nat} {s : String}
    (hpre : ∀ c ∈ pre.toList, Json.isPlain c = true) (h : isHexAfter pre n s = true) :
    (∀ c ∈ s.toList, Json.isPlain c = true) ∧ s.length = pre.length + n := by
  simp only [isHexAfter, Bool.and_eq_true, decide_eq_true_eq, List.isPrefixOf_iff_prefix] at h
  obtain ⟨⟨⟨rest, hrest⟩, hlength⟩, hhex⟩ := h
  have hdrop : s.toList.drop pre.length = rest := by
    rw [← hrest, ← String.length_toList, List.drop_left]
  rw [hdrop] at hlength hhex
  constructor
  · intro c hc
    rw [← hrest] at hc
    obtain hc | hc := List.mem_append.mp hc
    · exact hpre c hc
    · exact isPlain_of_hex (List.all_eq_true.mp hhex c hc)
  · rw [← String.length_toList, ← hrest, List.length_append, hlength, String.length_toList]

/-! ## Bytes and widths -/

mutual

theorem width_sortKeys : ∀ v : Value, Json.width (Json.sortKeys v) = Json.width v
  | .null | .bool _ | .int _ | .float _ | .str _ | .bytes _ => rfl
  | .list xs => by
    cases xs with
    | nil => rfl
    | cons x xs =>
      have hitems := widths_sortItems (x :: xs)
      rw [Json.sortKeys, Json.width_list (by simp [Json.sortItems]),
        Json.width_list (by simp), hitems]
  | .dict es => by
    cases es with
    | nil => rfl
    | cons e es =>
      have hlength := length_sortEntries_sortChildren (e :: es)
      have hne : Json.sortEntries (Json.sortChildren (e :: es)) ≠ [] := by
        intro hnil
        rw [hnil] at hlength
        simp at hlength
      have hperm := (perm_sortEntries (Json.sortChildren (e :: es))).map
        fun e => Json.textWidth e.1 + Json.width e.2 + 2
      rw [Json.sortKeys, Json.width_dict hne, Json.width_dict (by simp), hperm.sum_eq,
        widths_sortChildren (e :: es)]

theorem widths_sortItems : ∀ xs : List Value,
    (Json.sortItems xs).map (fun x => Json.width x + 1) = xs.map fun x => Json.width x + 1
  | [] => rfl
  | x :: xs => by
    rw [Json.sortItems, List.map_cons, List.map_cons, width_sortKeys x, widths_sortItems xs]

theorem widths_sortChildren : ∀ es : List (String × Value),
    (Json.sortChildren es).map (fun e => Json.textWidth e.1 + Json.width e.2 + 2) =
      es.map fun e => Json.textWidth e.1 + Json.width e.2 + 2
  | [] => rfl
  | (k, v) :: es => by
    rw [Json.sortChildren, List.map_cons, List.map_cons, width_sortKeys v, widths_sortChildren es]

end

/-- Canonical bytes are as many as the text is wide. -/
theorem size_canonical {v : Value} {raw : ByteArray} (h : canonical v = .ok raw) :
    raw.size = Json.width v := by
  obtain ⟨-, rfl⟩ := canonical_eq_ok.mp h
  have hbytes := congrArg List.length (bytes_ofList (Json.render false (Json.sortKeys v)))
  rw [Json.length_utf8] at hbytes
  rw [← width_sortKeys]
  exact hbytes

theorem width_congr {v w : Value} (h : SameValue v w) : Json.width v = Json.width w := by
  rw [← width_sortKeys v, h, width_sortKeys]

theorem bounded_eq_ok {v : Value} {limit : Nat} {u : Unit} :
    bounded v limit = .ok u ↔ jsonValue 0 v = .ok () ∧ Json.width v ≤ limit := by
  rw [bounded, bind_eq_ok]
  constructor
  · rintro ⟨raw, hraw, hsize⟩
    rw [← size_canonical hraw]
    exact ⟨(canonical_eq_ok.mp hraw).1, require_eq_ok.mp hsize⟩
  · rintro ⟨hv, hwidth⟩
    have hraw : canonical v = .ok (encodeUtf8 (canonicalText v)) := canonical_eq_ok.mpr ⟨hv, rfl⟩
    refine ⟨_, hraw, require_eq_ok.mpr ?_⟩
    rwa [size_canonical hraw]

/-! ## Objects -/

/-- The bytes of an entry with its delimiters. -/
def entryWidth (d : Dict) (key : String) : Nat :=
  Json.textWidth key + Json.width (d.get key) + 2

theorem width_dict_keys {d : Dict} (hne : d ≠ []) (hnodup : (d.map Prod.fst).Nodup) :
    Json.width (.dict d) = 1 + ∑ key ∈ (d.map Prod.fst).toFinset, entryWidth d key := by
  have hentries : (d.map fun e => Json.textWidth e.1 + Json.width e.2 + 2) =
      (d.map Prod.fst).map (entryWidth d) := by
    rw [List.map_map]
    refine List.map_congr_left fun e he => ?_
    show _ = entryWidth d e.1
    rw [entryWidth, Dict.get_eq, Dict.get?_of_mem hnodup he]
    rfl
  rw [Json.width_dict hne, List.sum_toFinset _ hnodup, hentries]

/-- An object is as wide as its fields can be. -/
theorem width_dict_le {d : Dict} {widths : List (String × Nat)}
    (hnodup : (d.map Prod.fst).Nodup) (hwidths : (widths.map Prod.fst).Nodup)
    (hplain : ∀ e ∈ widths, ∀ c ∈ e.1.toList, Json.isPlain c = true)
    (hkeys : ∀ key ∈ d.map Prod.fst, key ∈ widths.map Prod.fst)
    (hfields : ∀ e ∈ widths, e.1 ∈ d.map Prod.fst → Json.width (d.get e.1) ≤ e.2) :
    Json.width (.dict d) ≤ objectWidth widths := by
  by_cases hne : d = []
  · subst hne
    show 2 ≤ objectWidth widths
    unfold objectWidth
    omega
  -- the bound of an entry, by its key
  have hbound : ∃ f : String → Nat, ∀ e ∈ widths, f e.1 = e.1.length + 3 + e.2 + 1 := by
    refine ⟨fun key => ((widths.find? fun e => e.1 = key).map
      fun e => e.1.length + 3 + e.2 + 1).getD 0, fun e he => ?_⟩
    have hfind : widths.find? (fun e' => e'.1 = e.1) = some e := by
      clear hplain hkeys hfields
      induction widths with
      | nil => nomatch he
      | cons e' widths ih =>
        rw [List.map_cons, List.nodup_cons] at hwidths
        obtain rfl | he := List.mem_cons.mp he
        · simp
        · have hother : e'.1 ≠ e.1 := fun heq =>
            hwidths.1 (heq ▸ List.mem_map_of_mem he)
          rw [List.find?_cons_of_neg (by simpa using hother)]
          exact ih hwidths.2 he
    simp only [hfind, Option.map_some, Option.getD_some]
  obtain ⟨f, hf⟩ := hbound
  have hentry : ∀ key ∈ (d.map Prod.fst).toFinset, entryWidth d key ≤ f key := by
    intro key hkey
    rw [List.mem_toFinset] at hkey
    obtain ⟨e, he, rfl⟩ := List.mem_map.mp (hkeys key hkey)
    have hwidth := hfields e he hkey
    rw [hf e he, entryWidth, Json.textWidth_of_plain (hplain e he)]
    omega
  have hsubset : (d.map Prod.fst).toFinset ⊆ (widths.map Prod.fst).toFinset := by
    intro key hkey
    rw [List.mem_toFinset] at hkey ⊢
    exact hkeys key hkey
  have hsum : (∑ key ∈ (widths.map Prod.fst).toFinset, f key) =
      widths.length + (widths.map fun e => e.1.length + 3 + e.2).sum := by
    rw [List.sum_toFinset _ hwidths, List.map_map]
    have hmap : widths.map (f ∘ Prod.fst) = widths.map fun e => e.1.length + 3 + e.2 + 1 :=
      List.map_congr_left hf
    rw [hmap]
    clear * -
    induction widths with
    | nil => rfl
    | cons e widths ih =>
      rw [List.map_cons, List.sum_cons, ih, List.map_cons, List.sum_cons, List.length_cons]
      omega
  have hpos : 0 < widths.length := by
    obtain ⟨e, es, rfl⟩ := List.exists_cons_of_ne_nil hne
    obtain ⟨w, hw, -⟩ := List.mem_map.mp (hkeys e.1 (by simp))
    exact List.length_pos_of_mem hw
  have hle := (Finset.sum_le_sum hentry).trans (Finset.sum_le_sum_of_subset hsubset)
  rw [width_dict_keys hne hnodup, objectWidth]
  omega

/-- An object is at least as wide as some of its fields together. -/
theorem le_width_dict (keys : List String) {d : Dict} (hnodup : (d.map Prod.fst).Nodup)
    (hdistinct : keys.Nodup) (hkeys : ∀ key ∈ keys, key ∈ d.map Prod.fst) :
    (keys.map fun key => Json.width (d.get key)).sum ≤ Json.width (.dict d) := by
  by_cases hne : d = []
  · have hnil : keys = [] := by
      refine List.eq_nil_iff_forall_not_mem.mpr fun key hkey => ?_
      have hmem := hkeys key hkey
      rw [hne] at hmem
      nomatch hmem
    rw [hnil]
    exact Nat.zero_le _
  have hsubset : keys.toFinset ⊆ (d.map Prod.fst).toFinset := by
    intro key hkey
    rw [List.mem_toFinset] at hkey ⊢
    exact hkeys key hkey
  have hentry : ∀ key ∈ keys.toFinset, Json.width (d.get key) ≤ entryWidth d key := by
    intro key _
    unfold entryWidth
    omega
  have hle := (Finset.sum_le_sum hentry).trans (Finset.sum_le_sum_of_subset hsubset)
  rw [width_dict_keys hne hnodup, ← List.sum_toFinset _ hdistinct]
  omega

/-! ## Nesting -/

mutual

/-- How deep lists and objects nest in a value. -/
def nesting : Value → Nat
  | .list xs => nestingItems xs + 1
  | .dict es => nestingEntries es + 1
  | _ => 0

def nestingItems : List Value → Nat
  | [] => 0
  | x :: xs => max (nesting x) (nestingItems xs)

def nestingEntries : List (String × Value) → Nat
  | [] => 0
  | (_, v) :: es => max (nesting v) (nestingEntries es)

end

theorem nestingItems_le {xs : List Value} {n : Nat} :
    nestingItems xs ≤ n ↔ ∀ x ∈ xs, nesting x ≤ n := by
  induction xs with
  | nil => simp [nestingItems]
  | cons x xs ih => simp [nestingItems, ih]

theorem nestingEntries_le {es : List (String × Value)} {n : Nat} :
    nestingEntries es ≤ n ↔ ∀ e ∈ es, nesting e.2 ≤ n := by
  induction es with
  | nil => simp [nestingEntries]
  | cons e es ih =>
    obtain ⟨k, v⟩ := e
    simp [nestingEntries, ih]

/-- An object nests as deep as its fields and one more. -/
theorem nesting_dict_le {d : Dict} {n : Nat} (hnodup : (d.map Prod.fst).Nodup)
    (hfields : ∀ key ∈ d.map Prod.fst, nesting (d.get key) ≤ n) : nesting (.dict d) ≤ n + 1 := by
  rw [nesting, Nat.succ_le_succ_iff, nestingEntries_le]
  intro e he
  have hfield := hfields e.1 (List.mem_map_of_mem he)
  rw [Dict.get_eq, Dict.get?_of_mem hnodup he] at hfield
  exact hfield

mutual

theorem nesting_sortKeys : ∀ v : Value, nesting (Json.sortKeys v) = nesting v
  | .null | .bool _ | .int _ | .float _ | .str _ | .bytes _ => rfl
  | .list xs => by rw [Json.sortKeys, nesting, nesting, nesting_sortItems xs]
  | .dict es => by
    have hperm : ∀ n, nestingEntries (Json.sortEntries (Json.sortChildren es)) ≤ n ↔
        nestingEntries (Json.sortChildren es) ≤ n := by
      intro n
      simp only [nestingEntries_le, (perm_sortEntries _).mem_iff]
    rw [Json.sortKeys, nesting, nesting, eq_of_forall_ge_iff hperm, nesting_sortChildren es]

theorem nesting_sortItems : ∀ xs : List Value, nestingItems (Json.sortItems xs) = nestingItems xs
  | [] => rfl
  | x :: xs => by
    rw [Json.sortItems, nestingItems, nestingItems, nesting_sortKeys x, nesting_sortItems xs]

theorem nesting_sortChildren : ∀ es : List (String × Value),
    nestingEntries (Json.sortChildren es) = nestingEntries es
  | [] => rfl
  | (k, v) :: es => by
    rw [Json.sortChildren, nestingEntries, nestingEntries, nesting_sortKeys v,
      nesting_sortChildren es]

end

theorem nesting_congr {v w : Value} (h : SameValue v w) : nesting v = nesting w := by
  rw [← nesting_sortKeys v, h, nesting_sortKeys]

mutual

/-- A checked value is checked at any depth that it fits in. -/
theorem jsonValue_of_nesting : ∀ {depth depth' : Nat} {v : Value}, jsonValue depth v = .ok () →
    depth' + nesting v ≤ maxDepth → jsonValue depth' v = .ok ()
  | _, _, .null, hv, _ | _, _, .bool _, hv, _ | _, _, .int _, hv, _ | _, _, .float _, hv, _
  | _, _, .str _, hv, _ | _, _, .bytes _, hv, _ => hv
  | depth, depth', .list xs, hv, hnesting => by
    obtain ⟨⟨⟩, -, hxs⟩ := bind_eq_ok.mp hv
    rw [nesting] at hnesting
    rw [jsonValue, require_pos (by omega), ok_bind, jsonItems_of_nesting hxs (by omega)]
  | depth, depth', .dict es, hv, hnesting => by
    obtain ⟨⟨⟩, -, hes⟩ := bind_eq_ok.mp hv
    rw [nesting] at hnesting
    rw [jsonValue, require_pos (by omega), ok_bind, jsonEntries_of_nesting hes (by omega)]

theorem jsonItems_of_nesting : ∀ {depth depth' : Nat} {xs : List Value},
    jsonItems depth xs = .ok () → depth' + nestingItems xs ≤ maxDepth →
    jsonItems depth' xs = .ok ()
  | _, _, [], _, _ => rfl
  | depth, depth', x :: xs, hxs, hnesting => by
    obtain ⟨⟨⟩, hx, hxs⟩ := bind_eq_ok.mp hxs
    rw [nestingItems] at hnesting
    rw [jsonItems, jsonValue_of_nesting hx (by omega), ok_bind,
      jsonItems_of_nesting hxs (by omega)]

theorem jsonEntries_of_nesting : ∀ {depth depth' : Nat} {es : List (String × Value)},
    jsonEntries depth es = .ok () → depth' + nestingEntries es ≤ maxDepth →
    jsonEntries depth' es = .ok ()
  | _, _, [], _, _ => rfl
  | depth, depth', (k, v) :: es, hes, hnesting => by
    obtain ⟨⟨⟩, hk, hes⟩ := bind_eq_ok.mp hes
    obtain ⟨⟨⟩, hv, hes⟩ := bind_eq_ok.mp hes
    rw [nestingEntries] at hnesting
    rw [jsonEntries, hk, ok_bind, jsonValue_of_nesting hv (by omega), ok_bind,
      jsonEntries_of_nesting hes (by omega)]

end

end CanonicalV3

end ZoidbergChain
