import Mathlib

/-!
# Repeated items

A list from which repeated items are dropped, and functions that do not notice.

- `fresh seen xs` keeps the items of `xs` that are neither in `seen` nor repeated.
- `Absorbs f`: dropping a repeated item leaves the value of `f` as it is.
  `Absorbs.fresh` drops all of them.
- `insertionSort_repeat`: in a sorted list a repeated item comes after its first
  occurrence, and dropping it before or after sorting is the same.
-/

namespace Scan

variable {α β : Type} [DecidableEq α]

/-- The items of a list that do not occur in `seen` or earlier in the list. -/
def fresh (seen : List α) : List α → List α
  | [] => []
  | x :: xs => if x ∈ seen then fresh seen xs else x :: fresh (seen ++ [x]) xs

omit [DecidableEq α] in
/-- The value of `f` does not change when a repeated item is dropped. -/
def Absorbs (f : List α → β) : Prop :=
  ∀ (xs ys : List α) (x : α), x ∈ xs → f (xs ++ x :: ys) = f (xs ++ ys)

theorem Absorbs.fresh {f : List α → β} (hf : Absorbs f) (seen xs : List α) :
    f (seen ++ fresh seen xs) = f (seen ++ xs) := by
  induction xs generalizing seen with
  | nil => rfl
  | cons x xs ih =>
    rw [Scan.fresh]
    by_cases hx : x ∈ seen
    · rw [if_pos hx, ih seen, hf seen xs x hx]
    · rw [if_neg hx]
      have hstep := ih (seen ++ [x])
      simpa using hstep

omit [DecidableEq α] in
/-- A function of the items that pass a test. -/
theorem Absorbs.filter {f : List α → β} (hf : Absorbs f) (p : α → Bool) :
    Absorbs fun xs => f (xs.filter p) := by
  intro xs ys x hx
  simp only [List.filter_append, List.filter_cons]
  by_cases hp : p x = true
  · rw [if_pos hp]
    exact hf _ _ x (List.mem_filter.mpr ⟨hx, hp⟩)
  · rw [if_neg hp]

/-! ## Sorting -/

section Sorting

omit [DecidableEq α]

variable (r : α → α → Prop) [DecidableRel r]

/-- An inserted item splits the list. -/
theorem orderedInsert_split (x : α) (xs : List α) :
    ∃ front back, xs.orderedInsert r x = front ++ x :: back ∧ xs = front ++ back := by
  induction xs with
  | nil => exact ⟨[], [], rfl, rfl⟩
  | cons y xs ih =>
    by_cases hy : r x y
    · exact ⟨[], y :: xs, by simp [hy], rfl⟩
    · obtain ⟨front, back, hinsert, rfl⟩ := ih
      exact ⟨y :: front, back, by simp [hy, hinsert], rfl⟩

variable [IsTrans α r]

/-- Inserting an item into a sorted list with and without an item `x`: it goes before
`x` or behind it in both. -/
theorem orderedInsert_append {l back : List α} {x y : α}
    (hsorted : (x :: back).Pairwise r) :
    (∃ front', front'.Perm (y :: l) ∧
        (l ++ x :: back).orderedInsert r y = front' ++ x :: back ∧
        (l ++ back).orderedInsert r y = front' ++ back) ∨
      ∃ back', ¬r y x ∧ (l ++ x :: back).orderedInsert r y = l ++ x :: back' ∧
        (l ++ back).orderedInsert r y = l ++ back' := by
  induction l with
  | nil =>
    by_cases hyx : r y x
    · refine Or.inl ⟨[y], List.Perm.refl _, by simp [hyx], ?_⟩
      cases back with
      | nil => rfl
      | cons b back =>
        have hxb : r x b := (List.pairwise_cons.mp hsorted).1 b (by simp)
        simp [IsTrans.trans y x b hyx hxb]
    · exact Or.inr ⟨back.orderedInsert r y, hyx, by simp [hyx], rfl⟩
  | cons a l ih =>
    by_cases hya : r y a
    · exact Or.inl ⟨y :: a :: l, List.Perm.refl _, by simp [hya], by simp [hya]⟩
    · obtain ⟨front', hperm, hwith, hwithout⟩ | ⟨back', hyx, hwith, hwithout⟩ := ih
      · refine Or.inl ⟨a :: front', ?_, by simp [hya, hwith], by simp [hya, hwithout]⟩
        exact (hperm.cons a).trans (List.Perm.swap y a l)
      · exact Or.inr ⟨back', hyx, by simp [hya, hwith], by simp [hya, hwithout]⟩

variable [Std.Total r]

/-- A repeated item of a list is behind its first occurrence after sorting, and leaves
the order of the rest alone. -/
theorem insertionSort_repeat {xs : List α} {x : α} (hx : x ∈ xs) (ys : List α) :
    ∃ front back, x ∈ front ∧ (xs ++ x :: ys).insertionSort r = front ++ x :: back ∧
      (xs ++ ys).insertionSort r = front ++ back := by
  have hsplit : ∀ xs : List α, ∃ front back, (x ∈ xs → x ∈ front) ∧
      (xs ++ x :: ys).insertionSort r = front ++ x :: back ∧
      (xs ++ ys).insertionSort r = front ++ back := by
    intro xs
    induction xs with
    | nil =>
      obtain ⟨front, back, hinsert, hrest⟩ := orderedInsert_split r x (ys.insertionSort r)
      exact ⟨front, back, by simp, hinsert, hrest⟩
    | cons y xs ih =>
      obtain ⟨front, back, hmem, hwith, hwithout⟩ := ih
      have hsorted : (x :: back).Pairwise r := by
        have h := List.pairwise_insertionSort r (xs ++ x :: ys)
        rw [hwith] at h
        exact (List.pairwise_append.mp h).2.1
      rw [List.cons_append, List.cons_append, List.insertionSort_cons, List.insertionSort_cons,
        hwith, hwithout]
      obtain ⟨front', hperm, h, h'⟩ | ⟨back', hyx, h, h'⟩ :=
        orderedInsert_append r (l := front) (y := y) hsorted
      · refine ⟨front', back, fun hx => ?_, h, h'⟩
        rw [hperm.mem_iff]
        obtain rfl | hx := List.mem_cons.mp hx
        · exact List.mem_cons_self ..
        · exact List.mem_cons_of_mem _ (hmem hx)
      · refine ⟨front, back', fun hx => ?_, h, h'⟩
        obtain rfl | hx := List.mem_cons.mp hx
        · exact absurd (Std.Total.total x x |>.elim id id) hyx
        · exact hmem hx
  obtain ⟨front, back, hmem, h⟩ := hsplit xs
  exact ⟨front, back, hmem hx, h⟩

/-- Sorting first does not matter to a function that ignores repeated items. -/
theorem absorbs_insertionSort {f : List α → β} (hf : Absorbs f) :
    Absorbs fun xs => f (xs.insertionSort r) := by
  intro xs ys x hx
  obtain ⟨front, back, hmem, hwith, hwithout⟩ := insertionSort_repeat r hx ys
  simp only [hwith, hwithout]
  exact hf front back x hmem

end Sorting

end Scan
