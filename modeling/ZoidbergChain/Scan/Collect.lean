import Mathlib

/-!
# Sorted collections

A collection that is kept sorted, and takes an item unless it clashes with one that is there.

- `Collected` is what holds of it after some arrivals.
- `collected_eq`: without clashes between different items, the arrivals may come in any order and
  any number of times.
- `not_collected_eq`: with a clash the first one to arrive stays.
-/

namespace Scan

section Collect

variable {α κ : Type} [LinearOrder κ] (key : α → κ) (clash : α → α → Prop) [DecidableRel clash]

/-- The items in the order of their keys. -/
def inOrder (xs : List α) : List α := xs.insertionSort fun a b => key a ≤ key b

/-- The collection after an item has arrived. -/
def collect (xs : List α) (x : α) : List α :=
  if ∃ y ∈ xs, clash y x then xs else inOrder key (xs ++ [x])

theorem perm_inOrder (xs : List α) : (inOrder key xs).Perm xs := List.perm_insertionSort _ _

theorem pairwise_inOrder (xs : List α) :
    (inOrder key xs).Pairwise fun a b => key a ≤ key b :=
  have : IsTrans α fun a b => key a ≤ key b := ⟨fun _ _ _ => le_trans⟩
  have : Std.Total fun a b : α => key a ≤ key b := ⟨fun a b => le_total (key a) (key b)⟩
  List.pairwise_insertionSort _ _

/-- Items that are in order stay where they are. -/
theorem inOrder_of_pairwise {xs : List α} (h : xs.Pairwise fun a b => key a ≤ key b) :
    inOrder key xs = xs :=
  h.insertionSort_eq

/-- What holds of a collection after some arrivals. -/
structure Collected (xs arrivals : List α) : Prop where
  ordered : xs.Pairwise fun a b => key a ≤ key b
  arrived : ∀ x ∈ xs, x ∈ arrivals
  apart : xs.Pairwise fun a b => ¬clash a b
  full : ∀ x ∈ arrivals, ∃ y ∈ xs, clash y x

variable {key clash} {xs arrivals : List α}

/-- The first item of some kind in the order has the least key of that kind. -/
theorem find?_inOrder {p : α → Bool} {x : α}
    (h : (inOrder key xs).find? p = some x) :
    x ∈ xs ∧ p x = true ∧ ∀ y ∈ xs, p y = true → key x ≤ key y := by
  obtain ⟨hx, before, after, hsplit, hbefore⟩ := List.find?_eq_some_iff_append.mp h
  have hperm := perm_inOrder key xs
  have hpair := pairwise_inOrder key xs
  rw [hsplit] at hperm hpair
  refine ⟨hperm.mem_iff.mp (by simp), hx, fun y hy hpy => ?_⟩
  obtain hy | hy := List.mem_append.mp (hperm.mem_iff.mpr hy)
  · have hnot := hbefore y hy
    simp [hpy] at hnot
  · obtain rfl | hy := List.mem_cons.mp hy
    · exact le_rfl
    · exact (List.pairwise_cons.mp (List.pairwise_append.mp hpair).2.1).1 y hy

theorem find?_inOrder_eq_none {p : α → Bool} :
    (inOrder key xs).find? p = none ↔ ∀ x ∈ xs, p x = false := by
  simp [(perm_inOrder key xs).mem_iff]

omit [DecidableRel clash] in
theorem Collected.empty : Collected key clash [] [] where
  ordered := List.Pairwise.nil
  arrived := by simp
  apart := List.Pairwise.nil
  full := by simp

theorem mem_collect_of_mem {x y : α} (hy : y ∈ xs) : y ∈ collect key clash xs x := by
  unfold collect
  split
  · exact hy
  · exact (perm_inOrder key _).mem_iff.mpr (List.mem_append_left _ hy)

section Laws

variable (hrefl : ∀ x, clash x x) (hsymm : ∀ x y, clash x y → clash y x)

include hrefl hsymm

theorem Collected.collect (h : Collected key clash xs arrivals) (x : α) :
    Collected key clash (collect key clash xs x) (arrivals ++ [x]) := by
  by_cases hclash : ∃ y ∈ xs, clash y x
  · rw [Scan.collect, if_pos hclash]
    refine ⟨h.ordered, fun y hy => List.mem_append_left _ (h.arrived y hy), h.apart, ?_⟩
    intro z hz
    rcases List.mem_append.mp hz with hz | hz
    · exact h.full z hz
    · rw [List.mem_singleton.mp hz]
      exact hclash
  · rw [Scan.collect, if_neg hclash]
    have hperm := perm_inOrder key (xs ++ [x])
    refine ⟨pairwise_inOrder key _, fun y hy => ?_, ?_, fun z hz => ?_⟩
    · rcases List.mem_append.mp (hperm.mem_iff.mp hy) with hy | hy
      · exact List.mem_append_left _ (h.arrived y hy)
      · exact List.mem_append_right _ hy
    · refine (hperm.pairwise_iff fun {a b} hab hba => hab (hsymm _ _ hba)).mpr ?_
      refine List.pairwise_append.mpr ⟨h.apart, List.pairwise_singleton _ _, fun y hy z hz => ?_⟩
      rw [List.mem_singleton.mp hz]
      exact fun hyx => hclash ⟨y, hy, hyx⟩
    · rcases List.mem_append.mp hz with hz | hz
      · obtain ⟨y, hy, hyz⟩ := h.full z hz
        exact ⟨y, hperm.mem_iff.mpr (List.mem_append_left _ hy), hyz⟩
      · rw [List.mem_singleton.mp hz]
        exact ⟨x, hperm.mem_iff.mpr (by simp), hrefl x⟩

/-- The collection after all arrivals. -/
theorem collected_foldl (arrivals : List α) :
    Collected key clash (arrivals.foldl (Scan.collect key clash) []) arrivals := by
  induction arrivals using List.reverseRecOn with
  | nil => exact .empty
  | append_singleton arrivals x ih =>
    rw [List.foldl_append]
    exact ih.collect hrefl hsymm x

omit hsymm [DecidableRel clash] in
/-- Different items are kept apart, so that no item is there twice. -/
theorem Collected.nodup (h : Collected key clash xs arrivals) : xs.Nodup := by
  refine h.apart.imp fun {a b} hab heq => hab ?_
  rw [heq]
  exact hrefl b

omit hrefl [DecidableRel clash] in
/-- Of items that clash at most one is there. -/
theorem Collected.eq_of_clash (h : Collected key clash xs arrivals) {x y : α} (hx : x ∈ xs)
    (hy : y ∈ xs) (hclash : clash x y) : x = y := by
  have : Std.Symm fun a b => ¬clash a b := ⟨fun a b hab hba => hab (hsymm _ _ hba)⟩
  by_contra hne
  exact h.apart.forall hx hy hne hclash

omit hsymm [DecidableRel clash] in
/-- Without clashes the collection is a function of the items that have arrived. -/
theorem collected_eq {xs' arrivals' : List α} (h : Collected key clash xs arrivals)
    (h' : Collected key clash xs' arrivals') (hsame : ∀ x, x ∈ arrivals ↔ x ∈ arrivals')
    (hkey : ∀ x ∈ arrivals, ∀ y ∈ arrivals, key x = key y → x = y)
    (hclash : ∀ x ∈ arrivals, ∀ y ∈ arrivals, clash x y → x = y) : xs = xs' := by
  have hmem : ∀ x, x ∈ xs ↔ x ∈ arrivals := by
    refine fun x => ⟨h.arrived x, fun hx => ?_⟩
    obtain ⟨y, hy, hyx⟩ := h.full x hx
    rwa [← hclash y (h.arrived y hy) x hx hyx]
  have hmem' : ∀ x, x ∈ xs' ↔ x ∈ arrivals' := by
    refine fun x => ⟨h'.arrived x, fun hx => ?_⟩
    obtain ⟨y, hy, hyx⟩ := h'.full x hx
    rwa [← hclash y ((hsame y).mpr (h'.arrived y hy)) x ((hsame x).mpr hx) hyx]
  have hperm : xs.Perm xs' :=
    (List.perm_ext_iff_of_nodup (h.nodup hrefl) (h'.nodup hrefl)).mpr fun x => by
      rw [hmem, hmem', hsame]
  refine hperm.eq_of_pairwise ?_ h.ordered h'.ordered
  intro x y hx hy hxy hyx
  exact hkey x ((hmem x).mp hx) y ((hmem y).mp (hperm.mem_iff.mpr hy)) (le_antisymm hxy hyx)

/-- With a clash the first one to arrive stays, and the other one never gets in. -/
theorem not_collected_eq {x y : α} (hclash : clash x y) (hne : x ≠ y) :
    x ∈ (x :: arrivals).foldl (Scan.collect key clash) [] ∧
      y ∉ (x :: arrivals).foldl (Scan.collect key clash) [] := by
  have hmem : ∀ (more ys : List α), x ∈ ys → x ∈ more.foldl (Scan.collect key clash) ys := by
    intro more
    induction more with
    | nil => exact fun _ => id
    | cons z more ih => exact fun ys hx => ih _ (mem_collect_of_mem hx)
  have hfirst : x ∈ (x :: arrivals).foldl (Scan.collect key clash) [] := by
    refine hmem arrivals _ ?_
    show x ∈ Scan.collect key clash [] x
    rw [Scan.collect, if_neg (by simp)]
    exact (perm_inOrder key _).mem_iff.mpr (by simp)
  refine ⟨hfirst, fun hy => hne ?_⟩
  exact (collected_foldl hrefl hsymm (x :: arrivals)).eq_of_clash hsymm hfirst hy hclash

end Laws

end Collect

end Scan
