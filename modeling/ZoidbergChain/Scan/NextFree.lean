import Mathlib

/-!
# The next free number

The search for the first number, from a start on, that is not taken. It tries as many numbers
as it has fuel for; `nextFree_spec` says that as much fuel as there are taken numbers is enough.
-/

namespace Scan

/-- `while value in taken: value += 1`. -/
def nextFree (taken : List Int) : Nat → Int → Int
  | 0, value => value
  | fuel + 1, value => if value ∈ taken then nextFree taken fuel (value + 1) else value

variable {taken : List Int}

theorem nextFree_le (fuel : Nat) (value : Int) :
    value ≤ nextFree taken fuel value ∧ nextFree taken fuel value ≤ value + fuel ∧
      (∀ n, value ≤ n → n < nextFree taken fuel value → n ∈ taken) ∧
      (nextFree taken fuel value < value + fuel → nextFree taken fuel value ∉ taken) := by
  induction fuel generalizing value with
  | zero =>
    refine ⟨le_rfl, by simp [nextFree], fun n hle hlt => ?_, fun hlt => ?_⟩
    · exact absurd hlt (not_lt.mpr hle)
    · simp [nextFree] at hlt
  | succ fuel ih =>
    unfold nextFree
    split
    · next hmem =>
      obtain ⟨hle, hbound, hbelow, hfree⟩ := ih (value + 1)
      refine ⟨by omega, by push_cast; omega, fun n hn hlt => ?_, fun hlt => hfree ?_⟩
      · by_cases hfirst : n = value
        · exact hfirst ▸ hmem
        · exact hbelow n (by omega) hlt
      · push_cast at hlt
        omega
    · next hnot =>
      refine ⟨le_rfl, by push_cast; omega, fun n hle hlt => ?_, fun _ => hnot⟩
      exact absurd hlt (not_lt.mpr hle)

/-- The numbers from the start up to the result are taken, and the result is free. -/
theorem nextFree_spec (value : Int) :
    value ≤ nextFree taken taken.length value ∧
      (∀ n, value ≤ n → n < nextFree taken taken.length value → n ∈ taken) ∧
      nextFree taken taken.length value ∉ taken := by
  obtain ⟨hle, hbound, hbelow, hfree⟩ := @nextFree_le taken taken.length value
  refine ⟨hle, hbelow, fun hmem => ?_⟩
  by_cases hlt : nextFree taken taken.length value < value + taken.length
  · exact hfree hlt hmem
  · -- one number more is taken than there are
    have hlast : nextFree taken taken.length value = value + taken.length := by omega
    have hsub : Finset.Icc value (value + taken.length) ⊆ taken.toFinset := by
      intro n hn
      obtain ⟨hlow, hhigh⟩ := Finset.mem_Icc.mp hn
      rw [List.mem_toFinset]
      by_cases hend : n = value + taken.length
      · rw [hend, ← hlast]
        exact hmem
      · exact hbelow n hlow (by omega)
    have hcard := (Finset.card_le_card hsub).trans (List.toFinset_card_le taken)
    rw [Int.card_Icc] at hcard
    omega

/-- The result is the only free number above which nothing was skipped. -/
theorem nextFree_eq {value next : Int} (hle : value ≤ next)
    (hbelow : ∀ n, value ≤ n → n < next → n ∈ taken) (hfree : next ∉ taken) :
    nextFree taken taken.length value = next := by
  obtain ⟨hle', hbelow', hfree'⟩ := @nextFree_spec taken value
  by_contra hne
  obtain hlt | hgt := lt_or_gt_of_ne hne
  · exact hfree' (hbelow _ hle' hlt)
  · exact hfree (hbelow' _ hle hgt)

end Scan
