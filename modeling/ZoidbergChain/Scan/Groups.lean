import Mathlib

/-!
# Groups, and taking what still fits

- `flatMap_groups_perm`: the groups of a list by a key hold its items.
- `takeFitting` goes through priced items and takes each one whose price is within what remains of
  a budget. It goes on behind one that does not fit.
-/

namespace Scan

variable {α κ : Type}

/-- The groups of some keys hold the items with one of these keys. -/
theorem flatMap_groups_perm [DecidableEq κ] (key : α → κ) {keys : List κ} (hkeys : keys.Nodup)
    (xs : List α) :
    (keys.flatMap fun k => xs.filter fun x => key x = k).Perm
      (xs.filter fun x => key x ∈ keys) := by
  induction keys with
  | nil => simp
  | cons k keys ih =>
    obtain ⟨hk, hkeys⟩ := List.nodup_cons.mp hkeys
    rw [List.flatMap_cons]
    refine ((ih hkeys).append_left _).trans ?_
    -- an item belongs to the first group, to a later one, or to none
    clear ih
    induction xs with
    | nil => exact .refl _
    | cons x xs ih =>
      by_cases hx : key x = k
      · subst hx
        simpa [hk] using ih
      · by_cases hmem : key x ∈ keys
        · simpa [hx, hmem] using List.perm_middle.trans (ih.cons x)
        · simpa [hx, hmem] using ih

/-- The items taken and the items left out, each in order. -/
def takeFitting (budget : Int) : List (α × Int) → List α × List α
  | [] => ([], [])
  | (x, price) :: rest =>
    if budget < price then
      let (taken, left) := takeFitting budget rest
      (taken, x :: left)
    else
      let (taken, left) := takeFitting (budget - price) rest
      (x :: taken, left)

/-- What is taken is within the budget: its prices, as the traversal reads them, sum up to no
more. -/
theorem takeFitting_spec (budget : Int) (hbudget : 0 ≤ budget) (items : List (α × Int)) :
    ∃ priced : List (α × Int), priced.Sublist items ∧
      priced.map Prod.fst = (takeFitting budget items).1 ∧ (priced.map Prod.snd).sum ≤ budget := by
  induction items generalizing budget with
  | nil => exact ⟨[], List.Sublist.refl _, rfl, by simpa using hbudget⟩
  | cons item rest ih =>
    obtain ⟨x, price⟩ := item
    unfold takeFitting
    by_cases hfits : budget < price
    · rw [if_pos hfits]
      obtain ⟨priced, hsub, hfst, hsum⟩ := ih budget hbudget
      exact ⟨priced, hsub.cons _, hfst, hsum⟩
    · rw [if_neg hfits]
      obtain ⟨priced, hsub, hfst, hsum⟩ := ih (budget - price) (by omega)
      refine ⟨(x, price) :: priced, hsub.cons_cons _, ?_, ?_⟩
      · rw [List.map_cons, hfst]
      · rw [List.map_cons, List.sum_cons]
        omega

/-- Every item is taken or left out. -/
theorem takeFitting_perm (budget : Int) (items : List (α × Int)) :
    ((takeFitting budget items).1 ++ (takeFitting budget items).2).Perm (items.map Prod.fst) := by
  induction items generalizing budget with
  | nil => exact .refl _
  | cons item rest ih =>
    obtain ⟨x, price⟩ := item
    unfold takeFitting
    by_cases hfits : budget < price
    · rw [if_pos hfits]
      exact List.perm_middle.trans ((ih budget).cons x)
    · rw [if_neg hfits]
      exact (ih (budget - price)).cons x

end Scan
