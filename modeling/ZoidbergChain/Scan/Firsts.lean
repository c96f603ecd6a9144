import Mathlib

/-!
# The first item of each group

A table that keeps the first item of every group, as `dict.setdefault` does.

- `grouped_firsts`: its items are given ones in their order, one for each group.
-/

namespace Scan

variable {α κ : Type} [DecidableEq κ] (group : α → κ)

/-- `table.setdefault(group(x), x)`. -/
def setDefault (found : List α) (x : α) : List α :=
  if found.any fun y => group y = group x then found else found ++ [x]

/-- The first item of every group. -/
def firsts (xs : List α) : List α := xs.foldl (setDefault group) []

variable {group}

/-- What the table says after some items. -/
structure Grouped (group : α → κ) (xs found : List α) : Prop where
  sublist : found.Sublist xs
  distinct : (found.map group).Nodup
  covers : ∀ x ∈ xs, group x ∈ found.map group

theorem Grouped.setDefault {xs found : List α} (h : Grouped group xs found) (x : α) :
    Grouped group (xs ++ [x]) (setDefault group found x) := by
  by_cases hany : (found.any fun y => group y = group x) = true
  · rw [Scan.setDefault, if_pos hany]
    refine ⟨h.sublist.trans (List.sublist_append_left _ _), h.distinct, fun y hy => ?_⟩
    rcases List.mem_append.mp hy with hy | hy
    · exact h.covers y hy
    · obtain ⟨z, hz, heq⟩ := List.any_eq_true.mp hany
      rw [List.mem_singleton.mp hy, ← of_decide_eq_true heq]
      exact List.mem_map_of_mem hz
  · rw [Scan.setDefault, if_neg hany]
    refine ⟨h.sublist.append (List.Sublist.refl _), ?_, fun y hy => ?_⟩
    · rw [List.map_append, List.map_singleton, List.nodup_append]
      refine ⟨h.distinct, List.nodup_singleton _, ?_⟩
      rintro k hk k' hk' rfl
      obtain ⟨z, hz, rfl⟩ := List.mem_map.mp hk
      rw [List.mem_singleton] at hk'
      exact hany (List.any_eq_true.mpr ⟨z, hz, decide_eq_true hk'⟩)
    · rw [List.map_append]
      rcases List.mem_append.mp hy with hy | hy
      · exact List.mem_append_left _ (h.covers y hy)
      · rw [List.mem_singleton.mp hy]
        exact List.mem_append_right _ (by simp)

theorem grouped_foldl {front found : List α} (h : Grouped group front found) (xs : List α) :
    Grouped group (front ++ xs) (xs.foldl (setDefault group) found) := by
  induction xs generalizing front found with
  | nil => rwa [List.append_nil]
  | cons x xs ih =>
    have hrest := ih (h.setDefault x)
    rwa [List.append_assoc] at hrest

theorem grouped_firsts (xs : List α) : Grouped group xs (firsts group xs) := by
  have hempty : Grouped group [] [] := ⟨List.Sublist.refl _, by simp, by simp⟩
  exact grouped_foldl hempty xs

/-- The groups of the table are those of the items. -/
theorem mem_map_firsts {xs : List α} {k : κ} :
    k ∈ (firsts group xs).map group ↔ k ∈ xs.map group := by
  constructor
  · exact fun hk => ((grouped_firsts xs).sublist.map group).mem hk
  · intro hk
    obtain ⟨x, hx, rfl⟩ := List.mem_map.mp hk
    exact (grouped_firsts xs).covers x hx

end Scan
