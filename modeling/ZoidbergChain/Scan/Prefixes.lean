import Mathlib

/-!
# Binary prefixes

The numbers of `log + 1` bits that begin with the bits of `n` are an interval. Of the numbers
from `n` up to `2 * n` exactly one is a prefix of each of them.

- `exists_prefix`: one is.
- `prefix_apart`: only one is, and the prefixes without a bit more come behind.
-/

namespace Prefixes

/-- The bits behind the prefix `n` of a number of `log + 1` bits. -/
def rest (log n : Nat) : Nat := log - Nat.log 2 n

/-- The first number of `log + 1` bits with the prefix `n`. -/
def first (log n : Nat) : Nat := n * 2 ^ rest log n

/-- The number behind the last one. -/
def stop (log n : Nat) : Nat := (n + 1) * 2 ^ rest log n

variable {log n : Nat}

theorem stop_eq : stop log n = first log n + 2 ^ rest log n := by
  unfold stop first
  ring

/-- The numbers with a prefix have `log + 1` bits. -/
theorem bounds (hn : n ≠ 0) (hlog : Nat.log 2 n ≤ log) :
    2 ^ log ≤ first log n ∧ stop log n ≤ 2 ^ (log + 1) := by
  have hsum : Nat.log 2 n + rest log n = log := by
    unfold rest
    omega
  constructor
  · calc 2 ^ log = 2 ^ Nat.log 2 n * 2 ^ rest log n := by rw [← pow_add, hsum]
      _ ≤ first log n := Nat.mul_le_mul_right _ (Nat.pow_log_le_self 2 hn)
  · calc stop log n ≤ 2 ^ (Nat.log 2 n + 1) * 2 ^ rest log n :=
          Nat.mul_le_mul_right _ (Nat.lt_pow_succ_log_self (by decide) n)
      _ = 2 ^ (log + 1) := by
          rw [← pow_add]
          congr 1
          omega

/-- Two prefixes between `n` and `2 * n` share no number: the longer one comes first. -/
theorem prefix_apart {s t : Nat} (hs : n ≤ s) (hst : s < t) (ht : t < 2 * n)
    (hlog : Nat.log 2 t ≤ log) : stop log s ≤ first log t ∨ stop log t ≤ first log s := by
  have hmono : Nat.log 2 s ≤ Nat.log 2 t := Nat.log_mono_right hst.le
  by_cases hsame : Nat.log 2 s = Nat.log 2 t
  · have hrest : rest log s = rest log t := by
      unfold rest
      rw [hsame]
    left
    unfold stop first
    rw [hrest]
    exact Nat.mul_le_mul_right _ hst
  · -- `t` has one bit more than `s`, and so has `2 * s`
    have hdouble : Nat.log 2 (2 * s) = Nat.log 2 s + 1 := by
      rw [Nat.mul_comm]
      exact Nat.log_mul_base (by decide) (by omega)
    have hnext : Nat.log 2 t ≤ Nat.log 2 s + 1 := by
      rw [← hdouble]
      exact Nat.log_mono_right (by omega)
    have hrest : rest log s = rest log t + 1 := by
      unfold rest
      omega
    right
    calc stop log t ≤ 2 * s * 2 ^ rest log t := Nat.mul_le_mul_right _ (by omega)
      _ = first log s := by
        unfold first
        rw [hrest, pow_succ]
        ring

/-- Every number of `log + 1` bits has a prefix between `n` and `2 * n`. -/
theorem exists_prefix {y : Nat} (hn : n ≠ 0) (hlow : 2 ^ log ≤ y) (hhigh : y < 2 ^ (log + 1))
    (hle : n ≤ 2 ^ log) : ∃ s, n ≤ s ∧ s < 2 * n ∧ first log s ≤ y ∧ y < stop log s := by
  -- cut bits off until the rest is below `2 * n`
  have hcut : ∃ k, y / 2 ^ k < 2 * n := ⟨log + 1, by rw [Nat.div_eq_of_lt hhigh]; omega⟩
  have hk := Nat.find_spec hcut
  generalize hkdef : Nat.find hcut = k at hk
  have hmin : ∀ j < k, 2 * n ≤ y / 2 ^ j := fun j hj =>
    not_lt.mp (Nat.find_min hcut (hkdef.symm ▸ hj))
  have hge : n ≤ y / 2 ^ k := by
    cases k with
    | zero => simpa using hle.trans hlow
    | succ k =>
      have hbefore := hmin k (Nat.lt_succ_self k)
      rw [pow_succ, ← Nat.div_div_eq_div_mul]
      omega
  have hpos : 0 < 2 ^ k := Nat.two_pow_pos k
  have hylog : Nat.log 2 y = log := Nat.log_eq_of_pow_le_of_lt_pow hlow hhigh
  have hrest : rest log (y / 2 ^ k) = k := by
    have hlogk : Nat.log 2 (y / 2 ^ k) = log - k := by
      rw [← hylog]
      exact Nat.log_div_base_pow 2 y k
    have hkle : k ≤ log := by
      by_contra hlt
      have hzero : y / 2 ^ k = 0 := Nat.div_eq_of_lt
        (hhigh.trans_le (Nat.pow_le_pow_right (by decide) (by omega)))
      omega
    unfold rest
    omega
  refine ⟨y / 2 ^ k, hge, hk, ?_, ?_⟩
  · unfold first
    rw [hrest]
    exact Nat.div_mul_le_self y _
  · unfold stop
    rw [hrest]
    exact Nat.lt_mul_of_div_lt (Nat.lt_succ_self _) hpos

end Prefixes
