import Mathlib

/-!
# First heights of monotone predicates

A traversal that records the first height at which a monotone predicate holds, and
the minimum of several such records.

`FirstReach P n o` says that after `n` heights the record `o` decides `P` on them.
`FirstReach.mark` is the step of the traversal, `FirstReach.carry` a height that it
may skip.
-/

namespace Scan

/-- Below `n`, the predicate holds exactly from the recorded height on. -/
structure FirstReach (P : Nat → Prop) (n : Nat) (o : Option Int) : Prop where
  bound : ∀ r, o = some r → 0 ≤ r ∧ r < n
  decides : ∀ k < n, P k ↔ ∃ r, o = some r ∧ r ≤ (k : Int)

namespace FirstReach

variable {P : Nat → Prop} {n : Nat} {o : Option Int}

theorem zero (P : Nat → Prop) : FirstReach P 0 none where
  bound := by simp
  decides := by simp

/-- A recorded height is kept. -/
theorem keep {r : Int} (hmono : ∀ k, P k → P (k + 1)) (h : FirstReach P n (some r)) :
    FirstReach P (n + 1) (some r) := by
  obtain ⟨hr, hrn⟩ := h.bound r rfl
  refine ⟨fun s hs => ?_, fun k hk => ?_⟩
  · obtain rfl := Option.some.inj hs
    exact ⟨hr, by omega⟩
  · by_cases hkn : k < n
    · exact h.decides k hkn
    · -- at the new height the predicate holds because it held just below
      obtain ⟨m, rfl⟩ : ∃ m, n = m + 1 := ⟨n - 1, by omega⟩
      obtain rfl : k = m + 1 := by omega
      have hm : P m := (h.decides m (by omega)).mpr ⟨r, rfl, by omega⟩
      exact iff_of_true (hmono m hm) ⟨r, rfl, by omega⟩

/-- A height at which nothing new is reached. -/
theorem carry (hmono : ∀ k, P k → P (k + 1)) (hnew : P n → ∃ k < n, P k)
    (h : FirstReach P n o) : FirstReach P (n + 1) o := by
  cases o with
  | some r => exact h.keep hmono
  | none =>
    have hnot : ∀ k < n, ¬P k := fun k hk hP => by simpa using (h.decides k hk).mp hP
    refine ⟨by simp, fun k hk => ?_⟩
    have hk' : ¬P k := by
      by_cases hkn : k < n
      · exact hnot k hkn
      · obtain rfl : k = n := by omega
        intro hP
        obtain ⟨j, hj, hPj⟩ := hnew hP
        exact hnot j hj hPj
    simp [hk']

/-- One step of the traversal: the height is recorded when nothing is yet. -/
theorem mark {c : Prop} [Decidable c] (hmono : ∀ k, P k → P (k + 1)) (h : FirstReach P n o)
    (hc : c ↔ P n) : FirstReach P (n + 1) (if o.isNone ∧ c then some (n : Int) else o) := by
  cases o with
  | some r => simpa using h.keep hmono
  | none =>
    by_cases hP : P n
    · have hnot : ∀ k < n, ¬P k := fun k hk hk' => by simpa using (h.decides k hk).mp hk'
      rw [if_pos ⟨rfl, hc.mpr hP⟩]
      refine ⟨fun r hr => ?_, fun k hk => ?_⟩
      · obtain rfl := Option.some.inj hr
        exact ⟨by omega, by omega⟩
      · by_cases hkn : k < n
        · simp [hnot k hkn, hkn]
        · obtain rfl : k = n := by omega
          simp [hP]
    · rw [if_neg fun h' => hP (hc.mp h'.2)]
      exact h.carry hmono fun hP' => absurd hP' hP

end FirstReach

/-- A predicate that holds on the heights up to `n` exactly from some item of `xs` on
holds first at the minimum of `xs`, when that is within `n`. -/
theorem isLeast_min? {Q : Int → Prop} {n m : Int} {xs : List Int} (hpos : ∀ x ∈ xs, 0 ≤ x)
    (hQ : ∀ k, 0 ≤ k → k ≤ n → (Q k ↔ ∃ x ∈ xs, x ≤ k)) (hm : xs.min? = some m)
    (hmn : m ≤ n) : IsLeast {k | 0 ≤ k ∧ k ≤ n ∧ Q k} m := by
  obtain ⟨hmem, hle⟩ := List.min?_eq_some_iff.mp hm
  have hm0 := hpos m hmem
  constructor
  · exact ⟨hm0, hmn, (hQ m hm0 hmn).mpr ⟨m, hmem, le_refl m⟩⟩
  · rintro k ⟨hk0, hkn, hk⟩
    obtain ⟨x, hx, hxk⟩ := (hQ k hk0 hkn).mp hk
    exact le_trans (hle x hx) hxk

/-- Without a minimum within `n` the predicate holds nowhere. -/
theorem not_of_min? {Q : Int → Prop} {n : Int} {xs : List Int}
    (hQ : ∀ k, 0 ≤ k → k ≤ n → (Q k ↔ ∃ x ∈ xs, x ≤ k)) (hm : ∀ m, xs.min? = some m → n < m)
    {k : Int} (hk0 : 0 ≤ k) (hkn : k ≤ n) : ¬Q k := by
  intro hk
  obtain ⟨x, hx, hxk⟩ := (hQ k hk0 hkn).mp hk
  cases hmin : xs.min? with
  | none =>
    rw [List.min?_eq_none_iff] at hmin
    rw [hmin] at hx
    cases hx
  | some m =>
    have hle := (List.min?_eq_some_iff.mp hmin).2 x hx
    have := hm m hmin
    omega

end Scan
