import Mathlib

/-!
# The highest item of a set

A choice that is made item by item: a new item takes the place of the one held when its rank
is higher. It ends on the highest of all, in whatever order they come and how often.

- `Highest.insert`: one choice.
- `Highest.eq`: only one item is the highest where the ranks tell the items apart.
-/

namespace Scan

variable {α ρ : Type} [LinearOrder ρ] {rank : α → ρ} {s : Set α} {x y : α}

/-- An item of the set that no other one outranks. -/
structure Highest (rank : α → ρ) (s : Set α) (x : α) : Prop where
  mem : x ∈ s
  le : ∀ y ∈ s, rank y ≤ rank x

theorem highest_singleton (x : α) : Highest rank {x} x :=
  ⟨rfl, fun _ hy => by rw [Set.mem_singleton_iff.mp hy]⟩

/-- The choice between the item held and a new one. -/
theorem Highest.insert (h : Highest rank s x) (y : α) :
    Highest rank (insert y s) (if rank x < rank y then y else x) := by
  by_cases hlt : rank x < rank y
  · rw [if_pos hlt]
    refine ⟨Set.mem_insert y s, fun z hz => ?_⟩
    rcases hz with rfl | hz
    · exact le_refl _
    · exact (h.le z hz).trans hlt.le
  · rw [if_neg hlt]
    refine ⟨Set.mem_insert_of_mem y h.mem, fun z hz => ?_⟩
    rcases hz with rfl | hz
    · exact not_lt.mp hlt
    · exact h.le z hz

theorem Highest.eq (hinj : s.InjOn rank) (hx : Highest rank s x) (hy : Highest rank s y) :
    x = y :=
  hinj hx.mem hy.mem (le_antisymm (hy.le x hx.mem) (hx.le y hy.mem))

end Scan
