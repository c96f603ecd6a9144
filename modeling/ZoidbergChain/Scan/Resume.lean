import Mathlib

/-!
# Resumed scans

A value that is computed over a list by one pass and kept with the length of the list and
the key of its last item. A later pass resumes behind that length; it starts again when the
list is shorter now or another key stands at the place of the last item.

- `resume_scan`: where the last item determines the list in front of it, a resumed pass
  leaves what a whole one does.
- `take_eq_of_linked`, `take_eq_of_sorted`: it does in lists whose items name the one before,
  and in sorted lists that only gain items.
-/

namespace Scan

variable {α σ κ : Type}

/-- What a pass leaves: its value, the length of the list and the key of the last item. -/
structure Kept (σ κ : Type) where
  value : σ
  length : Nat
  last : Option κ
  deriving DecidableEq

/-- A pass over the whole list. -/
def scan (add : σ → α → σ) (empty : σ) (key : α → κ) (xs : List α) : Kept σ κ where
  value := xs.foldl add empty
  length := xs.length
  last := xs.getLast?.map key

/-- What was kept is not about the beginning of this list. -/
def Kept.Stale (key : α → κ) (kept : Kept σ κ) (xs : List α) : Prop :=
  xs.length < kept.length ∨ kept.length ≠ 0 ∧ (xs[kept.length - 1]?).map key ≠ kept.last

instance [DecidableEq κ] (key : α → κ) (kept : Kept σ κ) (xs : List α) :
    Decidable (kept.Stale key xs) := inferInstanceAs (Decidable (_ ∨ _))

/-- A pass that resumes where the last one ended, or starts again. -/
def resume [DecidableEq κ] (add : σ → α → σ) (empty : σ) (key : α → κ) (kept : Kept σ κ)
    (xs : List α) : Kept σ κ :=
  let start : σ × Nat := if kept.Stale key xs then (empty, 0) else (kept.value, kept.length)
  { value := (xs.drop start.2).foldl add start.1
    length := xs.length
    last := xs.getLast?.map key }

/-- The last item of `ys`, found at its place in `xs`, stands behind all of `ys` there. -/
def Marks (key : α → κ) (ys xs : List α) : Prop :=
  ys ≠ [] → ys.length ≤ xs.length → (xs[ys.length - 1]?).map key = ys.getLast?.map key →
    xs.take ys.length = ys

theorem resume_scan [DecidableEq κ] {add : σ → α → σ} {empty : σ} {key : α → κ}
    {ys xs : List α} (hmarks : Marks key ys xs) :
    resume add empty key (scan add empty key ys) xs = scan add empty key xs := by
  unfold resume
  by_cases hstale : (scan add empty key ys).Stale key xs
  · rw [if_pos hstale]
    rfl
  · rw [if_neg hstale]
    obtain ⟨hlength, hlast⟩ := not_or.mp hstale
    have htake : xs.take ys.length = ys := by
      by_cases hnil : ys = []
      · subst hnil
        rfl
      · have hne : ys.length ≠ 0 := fun h => hnil (List.length_eq_zero_iff.mp h)
        refine hmarks hnil (not_lt.mp hlength) ?_
        by_contra hdiffers
        exact hlast ⟨hne, hdiffers⟩
    have hvalue : (xs.drop ys.length).foldl add (ys.foldl add empty) = xs.foldl add empty := by
      conv_rhs => rw [← List.take_append_drop ys.length xs, List.foldl_append, htake]
    simp only [scan, hvalue]

/-! ## Lists whose items name the one before -/

/-- Every item names the key of the item in front of it. -/
def Linked (key parent : α → κ) (xs : List α) : Prop :=
  ∀ i x y, xs[i]? = some x → xs[i + 1]? = some y → parent y = key x

theorem take_eq_of_linked {key parent : α → κ} {ys xs : List α}
    (hdetermines : ∀ x ∈ xs, ∀ y ∈ ys, key x = key y → x = y)
    (hxs : Linked key parent xs) (hys : Linked key parent ys) : Marks key ys xs := by
  intro hnil hlength hlast
  have hpos : 0 < ys.length := List.length_pos_of_ne_nil hnil
  -- from the last item backwards: equal items name the same item in front of them
  have hback : ∀ k, k < ys.length → xs[ys.length - 1 - k]? = ys[ys.length - 1 - k]? := by
    intro k
    induction k with
    | zero =>
      intro _
      rw [Nat.sub_zero]
      rw [List.getLast?_eq_getElem?] at hlast
      have hx : ys.length - 1 < xs.length := by omega
      have hy : ys.length - 1 < ys.length := by omega
      rw [List.getElem?_eq_getElem hx, List.getElem?_eq_getElem hy] at hlast ⊢
      exact congrArg some (hdetermines _ (List.getElem_mem _) _ (List.getElem_mem _)
        (Option.some.inj hlast))
    | succ k ih =>
      intro hk
      have hnext := ih (by omega)
      obtain ⟨i, hi⟩ : ∃ i, i = ys.length - 1 - (k + 1) := ⟨_, rfl⟩
      have hsucc : ys.length - 1 - k = i + 1 := by omega
      rw [← hi]
      rw [hsucc] at hnext
      have hx : i < xs.length := by omega
      have hy : i < ys.length := by omega
      have hy' : i + 1 < ys.length := by omega
      have hylast := List.getElem?_eq_getElem hy'
      have hxparent := hxs i _ _ (List.getElem?_eq_getElem hx) (hnext.trans hylast)
      have hyparent := hys i _ _ (List.getElem?_eq_getElem hy) hylast
      rw [List.getElem?_eq_getElem hx, List.getElem?_eq_getElem hy]
      exact congrArg some (hdetermines _ (List.getElem_mem _) _ (List.getElem_mem _)
        (hxparent.symm.trans hyparent))
  apply List.ext_getElem?
  intro i
  by_cases hi : i < ys.length
  · rw [List.getElem?_take_of_lt hi]
    have hplace := hback (ys.length - 1 - i) (by omega)
    rwa [show ys.length - 1 - (ys.length - 1 - i) = i by omega] at hplace
  · rw [List.getElem?_take_eq_none (not_lt.mp hi), List.getElem?_eq_none (not_lt.mp hi)]

/-! ## Sorted lists that gain items -/

/-- The items ascend strictly by their height. -/
def Ascending (height : α → Nat) (xs : List α) : Prop :=
  xs.Pairwise fun x y => height x < height y

theorem Ascending.nodup {height : α → Nat} {xs : List α} (h : Ascending height xs) : xs.Nodup :=
  List.Pairwise.imp (fun hlt heq => absurd (congrArg height heq) hlt.ne) h

theorem take_eq_of_sorted {height : α → Nat} {key : α → κ} {ys xs : List α}
    (hheight : ∀ x y, key x = key y → height x = height y)
    (hxs : Ascending height xs) (hys : Ascending height ys) (hgain : ys ⊆ xs) :
    Marks key ys xs := by
  intro hnil hlength hlast
  have hpos : 0 < ys.length := List.length_pos_of_ne_nil hnil
  have hx : ys.length - 1 < xs.length := by omega
  have hy : ys.length - 1 < ys.length := by omega
  rw [List.getLast?_eq_getElem?, List.getElem?_eq_getElem hx, List.getElem?_eq_getElem hy]
    at hlast
  have hsame := hheight _ _ (Option.some.inj hlast)
  -- an item of `ys` is not above the last one, so it stands at a place up to that one's
  have hfront : ys ⊆ xs.take ys.length := by
    intro y hmem
    obtain ⟨j, hj, rfl⟩ := List.getElem_of_mem hmem
    obtain ⟨i, hi, heq⟩ := List.getElem_of_mem (hgain hmem)
    refine List.mem_take_iff_getElem.mpr ⟨i, ?_, heq⟩
    by_contra hbehind
    have hbound : height ys[j] ≤ height ys[ys.length - 1] := by
      rcases Nat.lt_or_ge j (ys.length - 1) with hlt | hge
      · exact (List.pairwise_iff_getElem.mp hys j _ hj hy hlt).le
      · have hjeq : j = ys.length - 1 := by omega
        subst hjeq
        exact le_rfl
    have habove : height xs[ys.length - 1] < height xs[i] :=
      List.pairwise_iff_getElem.mp hxs _ i hx hi (by omega)
    rw [heq] at habove
    omega
  have hperm : ys.Perm (xs.take ys.length) :=
    (List.subperm_of_subset hys.nodup hfront).perm_of_length_le (by simp)
  exact (hperm.eq_of_pairwise (fun x y _ _ hlt hgt => absurd hlt (Nat.lt_asymm hgt)) hys
    (hxs.sublist (List.take_sublist _ _))).symm

end Scan
