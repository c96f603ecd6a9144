import Mathlib

/-!
# Walking around with a stride

A walk around `size` places by a stride that has no factor in common with `size` comes to every
place once, and is back at the start after `size` steps.

- `card_lowTimes`: so it comes to the places up to `high` as many times as there are of them.
-/

namespace Stride

/-- The place after `t` steps. -/
def place (size stride t : Nat) : Nat := t * stride % size

variable {size stride high : Nat}

theorem place_zero : place size stride 0 = 0 := by simp [place]

theorem place_size : place size stride size = 0 := by simp [place]

theorem place_succ (t : Nat) :
    place size stride (t + 1) = (place size stride t + stride) % size := by
  unfold place
  rw [Nat.add_mul, Nat.one_mul, Nat.mod_add_mod]

theorem place_inj (hcoprime : Nat.Coprime size stride) {i j : Nat} (hi : i < size) (hj : j < size)
    (h : place size stride i = place size stride j) : i = j := by
  have hmod : i ≡ j [MOD size] := Nat.ModEq.cancel_right_of_coprime hcoprime h
  exact hmod.eq_of_lt_of_lt hi hj

/-- The walk comes to every place. -/
theorem exists_place (hcoprime : Nat.Coprime size stride) {i : Nat} (hi : i < size) :
    ∃ t < size, place size stride t = i := by
  have himage : (Finset.range size).image (place size stride) = Finset.range size := by
    refine Finset.eq_of_subset_of_card_le (fun j hj => ?_) ?_
    · obtain ⟨t, -, rfl⟩ := Finset.mem_image.mp hj
      exact Finset.mem_range.mpr (Nat.mod_lt _ (Nat.zero_lt_of_lt hi))
    · rw [Finset.card_image_of_injOn]
      intro s hs t ht hst
      exact place_inj hcoprime (Finset.mem_range.mp hs) (Finset.mem_range.mp ht) hst
  have hmem : i ∈ (Finset.range size).image (place size stride) := by
    rw [himage]
    exact Finset.mem_range.mpr hi
  obtain ⟨t, ht, rfl⟩ := Finset.mem_image.mp hmem
  exact ⟨t, Finset.mem_range.mp ht, rfl⟩

/-- The times from `t` on at which the walk is at most at `high`. -/
def lowTimes (size stride high t : Nat) : Finset Nat :=
  (Finset.Ico t size).filter fun s => place size stride s ≤ high

theorem card_lowTimes (hcoprime : Nat.Coprime size stride) (hhigh : high < size) :
    (lowTimes size stride high 0).card = high + 1 := by
  have himage : (lowTimes size stride high 0).image (place size stride) =
      Finset.range (high + 1) := by
    ext i
    rw [Finset.mem_image, Finset.mem_range]
    constructor
    · rintro ⟨t, ht, rfl⟩
      have hlow := (Finset.mem_filter.mp ht).2
      omega
    · intro hi
      obtain ⟨t, ht, rfl⟩ := exists_place hcoprime (show i < size by omega)
      refine ⟨t, Finset.mem_filter.mpr ⟨Finset.mem_Ico.mpr ⟨Nat.zero_le t, ht⟩, ?_⟩, rfl⟩
      omega
  have hinj : Set.InjOn (place size stride) (lowTimes size stride high 0) := by
    intro s hs t ht hst
    have hs' := Finset.mem_Ico.mp (Finset.mem_filter.mp hs).1
    have ht' := Finset.mem_Ico.mp (Finset.mem_filter.mp ht).1
    exact place_inj hcoprime hs'.2 ht'.2 hst
  rw [← Finset.card_image_of_injOn hinj, himage, Finset.card_range]

/-- A low time is one time less from the next one on. -/
theorem card_lowTimes_succ {t : Nat} (ht : t < size) (hlow : place size stride t ≤ high) :
    (lowTimes size stride high t).card = (lowTimes size stride high (t + 1)).card + 1 := by
  have hinsert : lowTimes size stride high t = insert t (lowTimes size stride high (t + 1)) := by
    unfold lowTimes
    rw [← Finset.insert_Ico_add_one_left_eq_Ico ht, Finset.filter_insert, if_pos hlow]
  have hnot : t ∉ lowTimes size stride high (t + 1) := by
    intro hmem
    have hmem' := Finset.mem_Ico.mp (Finset.mem_filter.mp hmem).1
    omega
  rw [hinsert, Finset.card_insert_of_notMem hnot]

theorem lowTimes_skip {t : Nat} (hhigh : high < place size stride t) :
    lowTimes size stride high t = lowTimes size stride high (t + 1) := by
  ext s
  unfold lowTimes
  rw [Finset.mem_filter, Finset.mem_filter, Finset.mem_Ico, Finset.mem_Ico]
  constructor
  · rintro ⟨⟨hts, hs⟩, hlow⟩
    have hne : t ≠ s := by
      rintro rfl
      omega
    exact ⟨⟨by omega, hs⟩, hlow⟩
  · rintro ⟨⟨hts, hs⟩, hlow⟩
    exact ⟨⟨by omega, hs⟩, hlow⟩

end Stride
