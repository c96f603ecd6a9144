import Mathlib

/-!
# Walks along a partial step

A walk goes from one item to the next until it meets its goal, and gives up where it comes to an
item a second time or where the step leads nowhere.

- `walk_stops`: as much fuel as there are keys is enough.
- `walk_linked`: along a linked list the walk collects what stands after the goal.
-/

namespace Scan

/-- How a walk ends: at the goal, with what it passed on the way and the item it passed last in
front; at an item that it passed before; or where the step leads nowhere. -/
inductive WalkEnd (α : Type) where
  | arrived (passed : List α) (goal : α)
  | cycle
  | lost

variable {α κ : Type} [DecidableEq κ]

/-- Walk from the cursor on; nothing when the fuel runs out before the walk ends. -/
def walk (key : α → κ) (goal : α → Bool) (next : α → Option α) :
    Nat → List α → α → Option (WalkEnd α)
  | 0, _, _ => none
  | fuel + 1, passed, cursor =>
    if goal cursor then some (.arrived passed cursor)
    else if key cursor ∈ passed.map key then some .cycle
    else
      match next cursor with
      | none => some .lost
      | some before => walk key goal next fuel (cursor :: passed) before

variable {key : α → κ} {goal : α → Bool} {next : α → Option α}

/-- A walk among finitely many keys ends before the fuel does. -/
theorem walk_stops (keys : List κ) (hnext : ∀ x y, next x = some y → key y ∈ keys) {fuel : Nat}
    {passed : List α} {cursor : α} (hpassed : (passed.map key).Nodup)
    (hsub : passed.map key ⊆ keys) (hcursor : key cursor ∈ keys)
    (hfuel : keys.length < fuel + passed.length) :
    walk key goal next fuel passed cursor ≠ none := by
  induction fuel generalizing passed cursor with
  | zero =>
    -- as many different keys were passed as there are
    have hle := hpassed.length_le_of_subset hsub
    rw [List.length_map] at hle
    omega
  | succ fuel ih =>
    unfold walk
    split
    · nofun
    split
    · nofun
    next hfresh =>
      cases hstep : next cursor with
      | none => nofun
      | some before =>
        refine ih ?_ ?_ (hnext _ _ hstep) ?_
        · exact List.nodup_cons.mpr ⟨hfresh, hpassed⟩
        · exact List.cons_subset.mpr ⟨hcursor, hsub⟩
        · rw [List.length_cons]
          omega

/-- More fuel does not change the end of a walk. -/
theorem walk_mono {fuel fuel' : Nat} {passed : List α} {cursor : α} {e : WalkEnd α}
    (hle : fuel ≤ fuel') (hwalk : walk key goal next fuel passed cursor = some e) :
    walk key goal next fuel' passed cursor = some e := by
  induction fuel generalizing fuel' passed cursor with
  | zero => cases hwalk
  | succ fuel ih =>
    obtain ⟨fuel', rfl⟩ : ∃ m, fuel' = m + 1 := ⟨fuel' - 1, by omega⟩
    unfold walk at hwalk ⊢
    split at hwalk
    · next hgoal =>
      rw [if_pos hgoal]
      exact hwalk
    next hgoal =>
      rw [if_neg hgoal]
      split at hwalk
      · next hseen =>
        rw [if_pos hseen]
        exact hwalk
      next hseen =>
        rw [if_neg hseen]
        cases hstep : next cursor with
        | none =>
          rw [hstep] at hwalk
          exact hwalk
        | some before =>
          rw [hstep] at hwalk
          exact ih (by omega) hwalk

/-- Where a walk arrives, the goal holds, and what is closed under the step still does. -/
theorem walk_arrived {P : α → Prop} (hP : ∀ x y, P x → next x = some y → P y) {fuel : Nat}
    {passed passed' : List α} {cursor x : α} (hcursor : P cursor)
    (hwalk : walk key goal next fuel passed cursor = some (.arrived passed' x)) :
    goal x = true ∧ P x := by
  induction fuel generalizing passed cursor with
  | zero => cases hwalk
  | succ fuel ih =>
    unfold walk at hwalk
    split at hwalk
    · next hgoal =>
      obtain ⟨-, rfl⟩ := WalkEnd.arrived.inj (Option.some.inj hwalk)
      exact ⟨hgoal, hcursor⟩
    split at hwalk
    · cases hwalk
    cases hstep : next cursor with
    | none =>
      rw [hstep] at hwalk
      cases hwalk
    | some before =>
      rw [hstep] at hwalk
      exact ih (hP _ _ hcursor hstep) hwalk

/-- In a linked list the walk goes from an item back to the last goal before it. -/
theorem walk_linked {x : α} {after passed : List α} {tip : α} {fuel : Nat}
    (hlinked : (x :: after).IsChain fun a b => next b = some a)
    (htip : (x :: after).getLast? = some tip) (hgoal : goal x = true)
    (hafter : ∀ y ∈ after, goal y = false) (hkeys : ((after ++ passed).map key).Nodup)
    (hfuel : after.length < fuel) :
    walk key goal next fuel passed tip = some (.arrived (after ++ passed) x) := by
  induction after using List.reverseRecOn generalizing passed tip fuel with
  | nil =>
    obtain ⟨fuel, rfl⟩ : ∃ m, fuel = m + 1 := ⟨fuel - 1, by omega⟩
    obtain rfl : x = tip := Option.some.inj htip
    unfold walk
    rw [if_pos hgoal]
    rfl
  | append_singleton after last ih =>
    obtain ⟨fuel, rfl⟩ : ∃ m, fuel = m + 1 := ⟨fuel - 1, by omega⟩
    rw [← List.cons_append, List.getLast?_concat] at htip
    obtain rfl := Option.some.inj htip
    rw [← List.cons_append, List.isChain_append] at hlinked
    obtain ⟨hlinked, -, hlast⟩ := hlinked
    obtain ⟨before, hbefore⟩ : ∃ before, (x :: after).getLast? = some before :=
      Option.isSome_iff_exists.mp (by simp [List.getLast?_isSome])
    have hstep : next last = some before := hlast before hbefore last rfl
    have hfresh : key last ∉ passed.map key := by
      rw [List.append_assoc, List.map_append, List.nodup_append] at hkeys
      have hcons : (last :: passed).map key = key last :: passed.map key := rfl
      exact (List.nodup_cons.mp (hcons ▸ hkeys.2.1)).1
    unfold walk
    rw [hafter last (by simp), if_neg (by nofun), if_neg hfresh, hstep]
    dsimp only
    rw [List.append_assoc] at hkeys ⊢
    exact ih hlinked hbefore (fun y hy => hafter y (by simp [hy])) hkeys
      (by simp only [List.length_append, List.length_singleton] at hfuel; omega)

/-- The last item of a list for which the goal holds. -/
theorem exists_last_goal {xs : List α} (hex : ∃ x ∈ xs, goal x = true) :
    ∃ before x after, xs = before ++ x :: after ∧ goal x = true ∧
      ∀ y ∈ after, goal y = false := by
  induction xs using List.reverseRecOn with
  | nil =>
    obtain ⟨x, hx, -⟩ := hex
    cases hx
  | append_singleton xs last ih =>
    by_cases hlast : goal last = true
    · exact ⟨xs, last, [], rfl, hlast, by simp⟩
    · obtain ⟨x, hx, hgoal⟩ := hex
      have hne : x ≠ last := by
        rintro rfl
        exact hlast hgoal
      have hmem : x ∈ xs := by simpa [hne] using hx
      obtain ⟨before, y, after, rfl, hy, hafter⟩ := ih ⟨x, hmem, hgoal⟩
      refine ⟨before, y, after ++ [last], by simp, hy, fun z hz => ?_⟩
      obtain hz | hz := List.mem_append.mp hz
      · exact hafter z hz
      · rw [List.mem_singleton.mp hz]
        exact Bool.not_eq_true _ ▸ hlast

end Scan
