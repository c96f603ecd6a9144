import ZoidbergChain.CanonicalV3.Primitives

/-!
# Strict JSON round trips

- `SameValue`: values that differ in the order of their entries only, which a Python `dict` does
  not compare.
- `strictJson`: `parse` undoes `canonical`, and a value has one byte string that `parse`
  accepts.
-/

namespace ZoidbergChain

open Python

namespace CanonicalV3

/-! ## Values up to the order of entries -/

/-- The values are the same but for the order of the entries of their objects. -/
def SameValue (v w : Value) : Prop := Json.sortKeys v = Json.sortKeys w

theorem mem_sortChildren {es : List (String × Value)} {e : String × Value} :
    e ∈ Json.sortChildren es ↔ ∃ k v, (k, v) ∈ es ∧ e = (k, Json.sortKeys v) := by
  induction es with
  | nil => simp [Json.sortChildren]
  | cons e' es ih =>
    obtain ⟨k', v'⟩ := e'
    simp only [Json.sortChildren, List.mem_cons, ih, Prod.mk.injEq]
    constructor
    · rintro (rfl | ⟨k, v, hmem, rfl⟩)
      · exact ⟨k', v', Or.inl ⟨rfl, rfl⟩, rfl⟩
      · exact ⟨k, v, Or.inr hmem, rfl⟩
    · rintro ⟨k, v, ⟨rfl, rfl⟩ | hmem, rfl⟩
      · exact Or.inl rfl
      · exact Or.inr ⟨k, v, hmem, rfl⟩

theorem length_sortEntries_sortChildren (es : List (String × Value)) :
    (Json.sortEntries (Json.sortChildren es)).length = es.length := by
  have hkeys := congrArg List.length (keys_sortChildren es)
  rw [List.length_map, List.length_map] at hkeys
  rw [(perm_sortEntries _).length_eq, hkeys]

mutual

/-- Python compares a checked value equal to the sorted one. -/
theorem pyEq_sortKeys : ∀ {depth : Nat} {v : Value}, jsonValue depth v = .ok () → Unique v →
    (Json.sortKeys v).pyEq v = true
  | _, .null, _, _ | _, .str _, _, _ | _, .int _, _, _ => Value.pyEq_self rfl
  | _, .bool b, _, _ => by simp [Json.sortKeys, Value.pyEq, Value.number?]
  | _, .float _, hv, _ => by cases hv
  | _, .bytes _, hv, _ => by cases hv
  | depth, .list xs, hv, hunique => by
    obtain ⟨⟨⟩, -, hxs⟩ := bind_eq_ok.mp hv
    rw [Json.sortKeys, Value.pyEq]
    exact pyEq_sortItems hxs hunique
  | depth, .dict es, hv, hunique => by
    obtain ⟨⟨⟩, -, hes⟩ := bind_eq_ok.mp hv
    obtain ⟨hkeys, hchildren⟩ := hunique
    rw [Json.sortKeys, Value.pyEq, Bool.and_eq_true, beq_iff_eq, Value.pyEqDict_iff]
    refine ⟨length_sortEntries_sortChildren es, fun e he => ?_⟩
    obtain ⟨k, v, hmem, rfl⟩ := mem_sortChildren.mp ((perm_sortEntries _).mem_iff.mp he)
    exact ⟨v, Dict.get?_of_mem hkeys hmem, pyEq_sortChildren hes hchildren _ hmem⟩

theorem pyEq_sortItems : ∀ {depth : Nat} {xs : List Value}, jsonItems depth xs = .ok () →
    Json.ObjectsItems (fun d => (d.map Prod.fst).Nodup) xs →
    Value.pyEqList (Json.sortItems xs) xs = true
  | _, [], _, _ => rfl
  | depth, x :: xs, hxs, hunique => by
    obtain ⟨⟨⟩, hx, hxs⟩ := bind_eq_ok.mp hxs
    rw [Json.sortItems, Value.pyEqList, Bool.and_eq_true]
    exact ⟨pyEq_sortKeys hx hunique.1, pyEq_sortItems hxs hunique.2⟩

theorem pyEq_sortChildren : ∀ {depth : Nat} {es : List (String × Value)},
    jsonEntries depth es = .ok () → Json.ObjectsEntries (fun d => (d.map Prod.fst).Nodup) es →
    ∀ e ∈ es, (Json.sortKeys e.2).pyEq e.2 = true
  | _, [], _, _ => by simp
  | depth, (k, v) :: es, hes, hunique => by
    obtain ⟨⟨⟩, -, hes⟩ := bind_eq_ok.mp hes
    obtain ⟨⟨⟩, hv, hes⟩ := bind_eq_ok.mp hes
    intro e he
    obtain rfl | he := List.mem_cons.mp he
    · exact pyEq_sortKeys hv hunique.1
    · exact pyEq_sortChildren hes hunique.2 e he

end

mutual

theorem unique_of_ordered : ∀ {v : Value}, Ordered v → Unique v
  | .null, _ | .bool _, _ | .int _, _ | .float _, _ | .str _, _ | .bytes _, _ => trivial
  | .list _, hv => uniqueItems_of_ordered hv
  | .dict _, hv => ⟨hv.1.imp ne_of_lt, uniqueEntries_of_ordered hv.2⟩

theorem uniqueItems_of_ordered : ∀ {xs : List Value},
    Json.ObjectsItems (fun d => (d.map Prod.fst).Pairwise (· < ·)) xs →
    Json.ObjectsItems (fun d => (d.map Prod.fst).Nodup) xs
  | [], _ => trivial
  | _ :: _, hxs => ⟨unique_of_ordered hxs.1, uniqueItems_of_ordered hxs.2⟩

theorem uniqueEntries_of_ordered : ∀ {es : List (String × Value)},
    Json.ObjectsEntries (fun d => (d.map Prod.fst).Pairwise (· < ·)) es →
    Json.ObjectsEntries (fun d => (d.map Prod.fst).Nodup) es
  | [], _ => trivial
  | (_, _) :: _, hes => ⟨unique_of_ordered hes.1, uniqueEntries_of_ordered hes.2⟩

end

/-- `parse` reads objects with distinct keys. -/
theorem unique_of_parse {raw : ByteArray} {limit : Nat} {v : Value}
    (h : parse raw limit = .ok v) : Unique v := unique_of_ordered (parse_eq_ok.mp h).2.1

/-! ## The round trips -/

/-- `canonical` does not see the order of entries. -/
theorem canonicalText_sortKeys {v : Value} (hunique : Unique v) :
    canonicalText (Json.sortKeys v) = canonicalText v := by
  rw [canonicalText, canonicalText, sortKeys_of_ordered (ordered_sortKeys hunique)]

/-- `parse` reads a canonical byte string as the sorted value. -/
theorem parse_canonical {v : Value} {raw : ByteArray} {limit : Nat} (hunique : Unique v)
    (hraw : canonical v = .ok raw) (hsize : raw.size ≤ limit) :
    parse raw limit = .ok (Json.sortKeys v) := by
  obtain ⟨hv, rfl⟩ := canonical_eq_ok.mp hraw
  refine parse_eq_ok.mpr ⟨hsize, ordered_sortKeys hunique, canonical_eq_ok.mpr ⟨?_, ?_⟩⟩
  · exact jsonValue_sortKeys hv
  · rw [canonicalText_sortKeys hunique]

/-- A value whose objects have distinct keys, as every `dict` has, comes back from its canonical
byte string. An accepted byte string is the canonical one of its value, and different ones
stand for different values. -/
theorem strictJson :
    (∀ v raw limit, Unique v → canonical v = .ok raw → raw.size ≤ limit →
      ∃ w, parse raw limit = .ok w ∧ SameValue w v ∧ w.pyEq v = true) ∧
    (∀ raw limit v, parse raw limit = .ok v → canonical v = .ok raw) ∧
    ∀ raw raw' limit limit' v w, parse raw limit = .ok v → parse raw' limit' = .ok w →
      SameValue v w → raw = raw' := by
  refine ⟨fun v raw limit hunique hraw hsize => ?_, fun raw limit v hparse => ?_,
    fun raw raw' limit limit' v w hv hw hsame => ?_⟩
  · refine ⟨Json.sortKeys v, parse_canonical hunique hraw hsize, ?_, ?_⟩
    · exact sortKeys_of_ordered (ordered_sortKeys hunique)
    · exact pyEq_sortKeys (canonical_eq_ok.mp hraw).1 hunique
  · exact (parse_eq_ok.mp hparse).2.2
  · obtain ⟨-, hordered, hraw⟩ := parse_eq_ok.mp hv
    obtain ⟨-, hordered', hraw'⟩ := parse_eq_ok.mp hw
    -- both values are sorted, so they are the same
    have heq : v = w := by
      rw [← sortKeys_of_ordered hordered, ← sortKeys_of_ordered hordered']
      exact hsame
    rw [heq, hraw'] at hraw
    exact (Except.ok.inj hraw).symm

theorem strictJson_sample :
    ∃ raw, canonical (.dict [("b", .list [.null, .int (-7)]), ("a\"]", .bool true)]) = .ok raw ∧
      ∃ w, parse raw 64 = .ok w ∧
        SameValue w (.dict [("b", .list [.null, .int (-7)]), ("a\"]", .bool true)]) := by
  have hok : (canonical (.dict [("b", .list [.null, .int (-7)]), ("a\"]", .bool true)])).map
      (fun raw => decide (raw.size ≤ 64)) = .ok true := by decide +kernel
  cases hraw : canonical (.dict [("b", .list [.null, .int (-7)]), ("a\"]", .bool true)]) with
  | error e =>
    rw [hraw] at hok
    cases hok
  | ok raw =>
    rw [hraw] at hok
    have hunique : Unique (.dict [("b", .list [.null, .int (-7)]), ("a\"]", .bool true)]) :=
      ⟨by decide, ⟨⟨trivial, trivial, trivial⟩, trivial, trivial⟩⟩
    obtain ⟨w, hw, hsame, -⟩ := strictJson.1 _ raw 64 hunique hraw
      (of_decide_eq_true (Except.ok.inj hok))
    exact ⟨raw, rfl, w, hw, hsame⟩

end CanonicalV3

end ZoidbergChain
