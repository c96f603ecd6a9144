import ZoidbergChain.Python.Plain

/-!
# Normalization under the default decimal context

`d.normalize()` with all of the default context: 28 digits, the largest exponent and the smallest
one. A number that is too large raises `decimal.Overflow`.

- `roundDigits` drops digits, ties to even; `Numeral.normalize?` rounds and removes the trailing
  zeros.
- `Numeral.InContext`: the number has at most 28 significant digits. `normalize?_value` is the main
  fact: exactly then its value is kept.
- `normalize?_eq_normalize`: away from the two ends of the exponent range this is
  `Numeral.normalize`.
-/

namespace Python

/-! ## Counting digits -/

/-- The number of decimal digits. -/
def digitCount (n : Nat) : Nat := (Nat.toDigits 10 n).length

theorem digitCount_pos (n : Nat) : 0 < digitCount n := Nat.length_toDigits_pos

theorem digitCount_le_iff {n m : Nat} (hm : 0 < m) : digitCount n ≤ m ↔ n < 10 ^ m :=
  Nat.length_toDigits_le_iff (by decide) hm

theorem digitCount_mul_pow {d : Nat} (hd : d ≠ 0) (j : Nat) :
    digitCount (d * 10 ^ j) = digitCount d + j := by
  induction j with
  | zero => simp
  | succ j ih =>
    have hpos : 0 < d * 10 ^ j := Nat.mul_pos (Nat.pos_of_ne_zero hd) (by positivity)
    have hsplit : d * 10 ^ (j + 1) = d * 10 ^ j * 10 := by rw [pow_succ, ← Nat.mul_assoc]
    have hdiv : d * 10 ^ j * 10 / 10 = d * 10 ^ j := Nat.mul_div_left _ (by decide)
    rw [digitCount, hsplit, Nat.toDigits_of_base_le (by decide) (by omega), hdiv,
      List.length_append]
    show digitCount (d * 10 ^ j) + 1 = _
    rw [ih]
    omega

/-! ## Rounding -/

/-- A coefficient without its last `k` digits, rounded with ties to even. -/
def roundDigits (c k : Nat) : Nat :=
  let q := c / 10 ^ k
  let r := 2 * (c % 10 ^ k)
  if 10 ^ k < r ∨ (r = 10 ^ k ∧ q % 2 = 1) then q + 1 else q

/-- Dropping zeros alone is exact. -/
theorem roundDigits_of_le (d : Nat) {j k : Nat} (hk : k ≤ j) :
    roundDigits (d * 10 ^ j) k = d * 10 ^ (j - k) := by
  have hsplit : d * 10 ^ j = d * 10 ^ (j - k) * 10 ^ k := by
    rw [Nat.mul_assoc, ← pow_add]
    congr 2
    omega
  have hpos : 0 < 10 ^ k := Nat.pow_pos (by decide)
  have hquot : d * 10 ^ j / 10 ^ k = d * 10 ^ (j - k) := by
    rw [hsplit, Nat.mul_div_left _ hpos]
  have hrest : d * 10 ^ j % 10 ^ k = 0 := by
    rw [hsplit, Nat.mul_mod_left]
  rw [roundDigits, hquot, hrest, if_neg]
  omega

/-- Zeros behind the dropped digits do not change the rounding. -/
theorem roundDigits_mul_pow (d j k : Nat) :
    roundDigits (d * 10 ^ j) (k + j) = roundDigits d k := by
  have hpos : 0 < 10 ^ j := Nat.pow_pos (by decide)
  have hquot : d * 10 ^ j / 10 ^ (k + j) = d / 10 ^ k := by
    rw [pow_add, Nat.mul_div_mul_right _ _ hpos]
  have hrest : 2 * (d * 10 ^ j % 10 ^ (k + j)) = 2 * (d % 10 ^ k) * 10 ^ j := by
    rw [pow_add, Nat.mul_mod_mul_right, Nat.mul_assoc]
  have hless : 10 ^ (k + j) < 2 * (d % 10 ^ k) * 10 ^ j ↔ 10 ^ k < 2 * (d % 10 ^ k) := by
    rw [pow_add]
    exact Nat.mul_lt_mul_right hpos
  have heq : 2 * (d % 10 ^ k) * 10 ^ j = 10 ^ (k + j) ↔ 2 * (d % 10 ^ k) = 10 ^ k := by
    rw [pow_add]
    exact Nat.mul_left_inj hpos.ne'
  simp only [roundDigits, hquot, hrest, hless, heq]

/-- Rounding to the context precision drops the digits above it. -/
theorem roundToPrecision_eq (c : Nat) (e : Int) :
    roundToPrecision c e = (roundDigits c (digitCount c - contextPrecision),
      e + (digitCount c - contextPrecision : Nat)) := by
  by_cases hc : c < 10 ^ contextPrecision
  · have hcount := (digitCount_le_iff (n := c) (m := contextPrecision) (by decide)).mpr hc
    have hzero : digitCount c - contextPrecision = 0 := by omega
    have hround := roundDigits_of_le c (Nat.zero_le 0)
    rw [roundToPrecision_of_lt e hc, hzero]
    simp only [pow_zero, Nat.mul_one, Nat.sub_zero] at hround
    rw [hround]
    simp
  · unfold roundToPrecision roundDigits digitCount
    rw [if_neg hc]

/-- Where a digit that is not zero is dropped, the value changes. -/
theorem le_of_roundDigits {d j k : Nat} (hd : d % 10 ≠ 0)
    (h : roundDigits (d * 10 ^ j) k * 10 ^ k = d * 10 ^ j) : k ≤ j := by
  by_contra hlt
  obtain ⟨i, rfl⟩ : ∃ i, k = i + 1 + j := ⟨k - j - 1, by omega⟩
  have hpos : 0 < 10 ^ j := Nat.pow_pos (by decide)
  have hsplit : roundDigits (d * 10 ^ j) (i + 1 + j) * 10 ^ (i + 1) * 10 ^ j = d * 10 ^ j := by
    rw [← h, Nat.mul_assoc, ← pow_add]
    simp only [h]
  have hcancel := Nat.eq_of_mul_eq_mul_right hpos hsplit
  apply hd
  rw [← hcancel, pow_succ, ← Nat.mul_assoc, Nat.mul_mod_left]

/-! ## Normalization -/

/-- `Emax` of the default context. -/
def maxExponent : Int := 999999

/-- `Etiny` of the default context: the last place that it keeps. -/
def tinyExponent : Int := -1000026

/-- `d.adjusted()`: the exponent of the first digit. -/
def Numeral.adjusted (n : Numeral) : Int := n.exp + digitCount n.coeff - 1

/-- The digits that the context drops. -/
def Numeral.droppedDigits (n : Numeral) : Nat :=
  (max ((digitCount n.coeff : Int) - contextPrecision) (tinyExponent - n.exp)).toNat

/-- `d._fix(context)` of a decimal other than zero. -/
def Numeral.rounded (n : Numeral) : Numeral :=
  ⟨n.neg, roundDigits n.coeff n.droppedDigits, n.exp + n.droppedDigits⟩

/-- `d.normalize()`, or nothing when it raises `decimal.Overflow`. -/
def Numeral.normalize? (n : Numeral) : Option Numeral :=
  if n.coeff = 0 then some ⟨n.neg, 0, 0⟩
  else if maxExponent < n.adjusted ∨ maxExponent < n.rounded.adjusted then none
  else
    let u := trim n.rounded.coeff n.rounded.exp
    some ⟨n.neg, u.1, u.2⟩

/-- The number has no digits beyond the context: at most 28 significant ones, none of them behind
the last place. -/
def Numeral.InContext (n : Numeral) : Prop :=
  (trim n.coeff n.exp).1 < 10 ^ contextPrecision ∧ tinyExponent ≤ (trim n.coeff n.exp).2

instance (n : Numeral) : Decidable n.InContext := inferInstanceAs (Decidable (_ ∧ _))

/-- A numeral by its significant digits. -/
theorem Numeral.split {n : Numeral} (hn : n.coeff ≠ 0) :
    ∃ d j : Nat, d % 10 ≠ 0 ∧ d ≠ 0 ∧ n.coeff = d * 10 ^ j ∧
      trim n.coeff n.exp = (d, n.exp + j) := by
  obtain ⟨hzero, -⟩ | ⟨d, j, hd, hc, ht⟩ := trim_cases n.coeff n.exp
  · exact absurd hzero hn
  · refine ⟨d, j, hd, ?_, hc, ht⟩
    rintro rfl
    exact hd rfl

/-- The dropped digits are zeros exactly when the number is in the context. -/
theorem Numeral.droppedDigits_le_iff {n : Numeral} {d j : Nat} (hd : d ≠ 0)
    (hc : n.coeff = d * 10 ^ j) (ht : trim n.coeff n.exp = (d, n.exp + j)) :
    n.droppedDigits ≤ j ↔ n.InContext := by
  have hcount : digitCount n.coeff = digitCount d + j := by rw [hc, digitCount_mul_pow hd]
  have hfits := digitCount_le_iff (n := d) (m := contextPrecision) (by decide)
  rw [Numeral.InContext, ht, ← hfits, Numeral.droppedDigits, hcount]
  show _ ↔ digitCount d ≤ contextPrecision ∧ tinyExponent ≤ n.exp + j
  omega

/-- A number in the context has the same leading exponent when it is rounded. -/
theorem Numeral.adjusted_rounded {n : Numeral} (hn : n.coeff ≠ 0) (h : n.InContext) :
    n.rounded.adjusted = n.adjusted := by
  obtain ⟨d, j, -, hd, hc, ht⟩ := Numeral.split hn
  have hle := (Numeral.droppedDigits_le_iff hd hc ht).mpr h
  have hround : n.rounded.coeff = d * 10 ^ (j - n.droppedDigits) := by
    show roundDigits n.coeff n.droppedDigits = _
    rw [hc, roundDigits_of_le d hle]
  show n.exp + n.droppedDigits + digitCount n.rounded.coeff - 1 = n.exp + digitCount n.coeff - 1
  rw [hround, hc, digitCount_mul_pow hd, digitCount_mul_pow hd]
  omega

/-- The exponent of the first digit, by the significant digits. -/
theorem Numeral.adjusted_eq_trim {n : Numeral} (hn : n.coeff ≠ 0) :
    n.adjusted = (trim n.coeff n.exp).2 + digitCount (trim n.coeff n.exp).1 - 1 := by
  obtain ⟨d, j, -, hd, hc, ht⟩ := Numeral.split hn
  rw [ht, Numeral.adjusted, hc, digitCount_mul_pow hd]
  show n.exp + ((digitCount d + j : Nat) : Int) - 1 = n.exp + j + digitCount d - 1
  omega

theorem Numeral.adjusted_le_of_normalize? {n m : Numeral} (hn : n.coeff ≠ 0)
    (hm : n.normalize? = some m) : n.adjusted ≤ maxExponent := by
  rw [Numeral.normalize?, if_neg hn] at hm
  split_ifs at hm with h
  omega

/-- A number in the context that is not too large is reduced to its significant digits. -/
theorem Numeral.normalize?_of_inContext {n : Numeral} (hn : n.coeff ≠ 0) (h : n.InContext)
    (hmax : n.adjusted ≤ maxExponent) :
    n.normalize? = some ⟨n.neg, (trim n.coeff n.exp).1, (trim n.coeff n.exp).2⟩ := by
  have hadjusted := Numeral.adjusted_rounded hn h
  obtain ⟨d, j, hlast, hd, hc, ht⟩ := Numeral.split hn
  have hle := (Numeral.droppedDigits_le_iff hd hc ht).mpr h
  have htrim : trim n.rounded.coeff n.rounded.exp = (d, n.exp + j) := by
    show trim (roundDigits n.coeff n.droppedDigits) (n.exp + n.droppedDigits) = _
    rw [hc, roundDigits_of_le d hle, trim_mul_pow hlast]
    simp only [Prod.mk.injEq, true_and]
    omega
  rw [Numeral.normalize?, if_neg hn, if_neg (by omega), htrim, ht]

/-- Normalizing keeps the value of exactly the numbers in the context. -/
theorem Numeral.normalize?_value {n m : Numeral} (hm : n.normalize? = some m) :
    m.value = n.value ↔ n.InContext := by
  by_cases hn : n.coeff = 0
  · rw [Numeral.normalize?, if_pos hn] at hm
    obtain rfl := Option.some.inj hm
    have htrim : trim n.coeff n.exp = (0, 0) := by rw [hn]; rfl
    rw [Numeral.InContext, htrim]
    simp [Numeral.value, hn, tinyExponent]
  · constructor
    · intro hvalue
      obtain ⟨d, j, hlast, hd, hc, ht⟩ := Numeral.split hn
      refine (Numeral.droppedDigits_le_iff hd hc ht).mp (le_of_roundDigits (d := d) hlast ?_)
      rw [Numeral.normalize?, if_neg hn] at hm
      split_ifs at hm
      obtain rfl := Option.some.inj hm
      -- the sign and the common power of ten are cancelled
      have hsign : (if n.neg then (-1 : Rat) else 1) ≠ 0 := by split <;> norm_num
      have hpow : (10 : Rat) ^ n.exp ≠ 0 := zpow_ne_zero _ (by norm_num)
      have hkept := trim_value n.rounded.coeff n.rounded.exp
      simp only [Numeral.value, mul_assoc] at hvalue
      have hcancel := mul_left_cancel₀ hsign hvalue
      rw [hkept] at hcancel
      have hexp : (10 : Rat) ^ n.rounded.exp = 10 ^ n.droppedDigits * (10 : Rat) ^ n.exp := by
        show (10 : Rat) ^ (n.exp + n.droppedDigits) = _
        rw [zpow_add₀ (by norm_num), zpow_natCast, mul_comm]
      rw [hexp, ← mul_assoc] at hcancel
      have hcoeff := mul_right_cancel₀ hpow hcancel
      have hnat : n.rounded.coeff * 10 ^ n.droppedDigits = n.coeff := by exact_mod_cast hcoeff
      rw [← hc]
      exact hnat
    · intro h
      have hmax := Numeral.adjusted_le_of_normalize? hn hm
      rw [Numeral.normalize?_of_inContext hn h hmax] at hm
      obtain rfl := Option.some.inj hm
      simp only [Numeral.value, mul_assoc, trim_value]

/-- Within the range of exponents only the precision counts. -/
theorem Numeral.normalize?_eq_normalize {n m : Numeral} (hexp : tinyExponent ≤ n.exp)
    (hm : n.normalize? = some m) : n.normalize = m := by
  by_cases hn : n.coeff = 0
  · rw [Numeral.normalize?, if_pos hn] at hm
    obtain rfl := Option.some.inj hm
    rw [Numeral.normalize, hn]
    rfl
  · rw [Numeral.normalize?, if_neg hn] at hm
    split_ifs at hm
    obtain rfl := Option.some.inj hm
    obtain ⟨d, j, hlast, hd, hc, ht⟩ := Numeral.split hn
    have hcount : digitCount n.coeff = digitCount d + j := by rw [hc, digitCount_mul_pow hd]
    have hdropped : n.droppedDigits = digitCount d + j - contextPrecision := by
      rw [Numeral.droppedDigits, hcount]
      omega
    have hsame : trim (roundDigits d (digitCount d - contextPrecision))
        (n.exp + j + (digitCount d - contextPrecision : Nat)) =
        trim (roundDigits n.coeff n.droppedDigits) (n.exp + n.droppedDigits) := by
      by_cases hlong : contextPrecision ≤ digitCount d
      · have hk : n.droppedDigits = digitCount d - contextPrecision + j := by omega
        rw [hk, hc, roundDigits_mul_pow]
        congr 1
        push_cast
        ring
      · -- nothing but zeros is dropped on either side
        have hzero : digitCount d - contextPrecision = 0 := by omega
        have hle : n.droppedDigits ≤ j := by omega
        have hround := roundDigits_of_le d (Nat.zero_le 0)
        simp only [pow_zero, Nat.mul_one, Nat.sub_zero] at hround
        rw [hzero, hround, hc, roundDigits_of_le d hle, trim_mul_pow hlast, trim_self hlast]
        simp only [Prod.mk.injEq, true_and]
        omega
    unfold Numeral.normalize
    simp only [ht, roundToPrecision_eq, hsame, Numeral.rounded]

/-! ## Significant digits -/

/-- A coefficient without trailing zeros and its exponent are determined by the value. -/
theorem significant_inj {c d : Nat} {e f : Int} (hc : c % 10 ≠ 0) (hd : d % 10 ≠ 0)
    (h : (c : Rat) * (10 : Rat) ^ e = (d : Rat) * (10 : Rat) ^ f) : c = d ∧ e = f := by
  wlog hef : e ≤ f generalizing c d e f
  · obtain ⟨hdc, hfe⟩ := this hd hc h.symm (by omega)
    exact ⟨hdc.symm, hfe.symm⟩
  obtain ⟨k, rfl⟩ : ∃ k : Nat, f = e + k := ⟨(f - e).toNat, by omega⟩
  have hpow : (10 : Rat) ^ e ≠ 0 := zpow_ne_zero e (by norm_num)
  rw [zpow_add₀ (by norm_num), zpow_natCast, mul_comm ((10 : Rat) ^ e), ← mul_assoc] at h
  have hcancel := mul_right_cancel₀ hpow h
  have hnat : c = d * 10 ^ k := by exact_mod_cast hcancel
  cases k with
  | zero => exact ⟨by simpa using hnat, by simp⟩
  | succ k =>
    apply absurd _ hc
    rw [hnat, pow_succ, ← Nat.mul_assoc, Nat.mul_mod_left]

/-- The value of a numeral that is not negative. -/
theorem Numeral.value_of_sign {n : Numeral} (hn : n.coeff ≠ 0 → n.neg = false) :
    n.value = (n.coeff : Rat) * (10 : Rat) ^ n.exp := by
  rw [Numeral.value]
  by_cases hzero : n.coeff = 0
  · simp [hzero]
  · rw [hn hzero]
    simp

/-- Numerals of one value have the same significant digits. -/
theorem trim_eq_of_value {n m : Numeral} (hn : n.coeff ≠ 0 → n.neg = false)
    (hm : m.coeff ≠ 0 → m.neg = false) (h : n.value = m.value) :
    trim n.coeff n.exp = trim m.coeff m.exp := by
  rw [Numeral.value_of_sign hn, Numeral.value_of_sign hm, ← trim_value, ← trim_value m.coeff] at h
  obtain ⟨-, htn⟩ | ⟨c, k, hc, -, htn⟩ := trim_cases n.coeff n.exp
  · obtain ⟨-, htm⟩ | ⟨d, l, hd, -, htm⟩ := trim_cases m.coeff m.exp
    · rw [htn, htm]
    · -- zero is no number with a last digit
      rw [htn, htm] at h
      have hd0 : (d : Rat) ≠ 0 := by
        rintro hd0
        exact hd (by rw [Nat.cast_eq_zero.mp hd0])
      simp [hd0, zpow_ne_zero] at h
  · obtain ⟨-, htm⟩ | ⟨d, l, hd, -, htm⟩ := trim_cases m.coeff m.exp
    · rw [htn, htm] at h
      have hc0 : (c : Rat) ≠ 0 := by
        rintro hc0
        exact hc (by rw [Nat.cast_eq_zero.mp hc0])
      simp [hc0, zpow_ne_zero] at h
    · rw [htn, htm] at h
      obtain ⟨rfl, hexp⟩ := significant_inj hc hd h
      rw [htn, htm]
      exact Prod.ext rfl hexp

theorem roundDigits_le {c k : Nat} (h : digitCount c ≤ contextPrecision + k) :
    roundDigits c k ≤ 10 ^ contextPrecision := by
  have hlt : c < 10 ^ k * 10 ^ contextPrecision := by
    rw [← pow_add, Nat.add_comm k]
    exact (digitCount_le_iff (by simp [contextPrecision])).mp h
  have hquot := Nat.div_lt_of_lt_mul hlt
  unfold roundDigits
  dsimp only
  split
  · exact hquot
  · exact hquot.le

/-- What `normalize` returns has at most 28 digits and no trailing zero. -/
theorem Numeral.normalize?_isNormal {n m : Numeral} (hm : n.normalize? = some m) :
    IsNormal m.coeff m.exp ∧ m.neg = n.neg ∧ (m.coeff ≠ 0 → n.coeff ≠ 0) := by
  by_cases hn : n.coeff = 0
  · rw [Numeral.normalize?, if_pos hn] at hm
    obtain rfl := Option.some.inj hm
    exact ⟨.inl ⟨rfl, rfl⟩, rfl, fun h => absurd rfl h⟩
  · rw [Numeral.normalize?, if_neg hn] at hm
    split_ifs at hm
    obtain rfl := Option.some.inj hm
    refine ⟨?_, rfl, fun _ => hn⟩
    have hle : n.rounded.coeff ≤ 10 ^ contextPrecision := by
      refine roundDigits_le ?_
      rw [Numeral.droppedDigits]
      omega
    obtain ⟨-, ht⟩ | ⟨c, k, hc, hk, ht⟩ := trim_cases n.rounded.coeff n.rounded.exp
    · rw [ht]
      exact .inl ⟨rfl, rfl⟩
    · rw [ht]
      refine .inr ⟨hc, lt_of_le_of_ne ?_ ?_⟩
      · exact le_trans (hk ▸ Nat.le_mul_of_pos_right c (by positivity)) hle
      · rintro rfl
        exact hc (by decide)

theorem trim_isNormal {n : Numeral} (h : n.InContext) :
    IsNormal (trim n.coeff n.exp).1 (trim n.coeff n.exp).2 := by
  obtain ⟨-, ht⟩ | ⟨c, k, hc, -, ht⟩ := trim_cases n.coeff n.exp
  · rw [ht]
    exact .inl ⟨rfl, rfl⟩
  · have hlt := h.1
    rw [ht] at hlt ⊢
    exact .inr ⟨hc, hlt⟩

end Python
