import ZoidbergChain.Python.Numeral

/-!
# Normalized numerals read back

`Numeral.normalize` followed by `format(d, "f")` is a canonical text: it reads
back as a numeral whose normal form is the same (`parseDecimal_positional`,
`normalize_positional`), so that normalizing a normalized text changes nothing.
-/

namespace Python

/-- A coefficient and exponent in normal form: zero, or without trailing zeros and
within the context precision. -/
def IsNormal (c : Nat) (e : Int) : Prop :=
  (c = 0 ∧ e = 0) ∨ (c % 10 ≠ 0 ∧ c < 10 ^ contextPrecision)

theorem trim_cases (n : Nat) (e : Int) : (n = 0 ∧ trim n e = (0, 0)) ∨
    ∃ (c k : Nat), c % 10 ≠ 0 ∧ n = c * 10 ^ k ∧ trim n e = (c, e + k) := by
  by_cases hn : n = 0
  · exact Or.inl ⟨hn, by rw [trim, if_pos hn]⟩
  · obtain ⟨c, k, hc, hk⟩ := exists_mul_pow n hn
    exact Or.inr ⟨c, k, hc, hk, by rw [hk, trim_mul_pow hc]⟩

theorem IsNormal.trim {c : Nat} {e : Int} (h : IsNormal c e) : trim c e = (c, e) := by
  rcases h with ⟨rfl, rfl⟩ | ⟨hc, -⟩
  · rfl
  · exact trim_self hc e

theorem IsNormal.lt {c : Nat} {e : Int} (h : IsNormal c e) : c < 10 ^ contextPrecision := by
  rcases h with ⟨rfl, -⟩ | ⟨-, hc⟩
  · exact Nat.pow_pos (by decide)
  · exact hc

/-- Rounding drops digits, so the result has at most one digit more than the
precision, and that only as the power of ten itself. -/
theorem roundToPrecision_le (c : Nat) (e : Int) :
    (roundToPrecision c e).1 ≤ 10 ^ contextPrecision ∧ e ≤ (roundToPrecision c e).2 ∧
      (c ≠ 0 → (roundToPrecision c e).1 ≠ 0) := by
  unfold roundToPrecision
  split
  · next h => exact ⟨h.le, le_refl e, id⟩
  · next h =>
    set len := (Nat.toDigits 10 c).length with hlen
    have hpos : 0 < contextPrecision := by decide
    have hlt : c < 10 ^ len :=
      (Nat.length_toDigits_le_iff (by decide) Nat.length_toDigits_pos).mp (le_refl len)
    have hge : contextPrecision < len := by
      by_contra hle
      exact h ((Nat.length_toDigits_le_iff (by decide) hpos).mp (by omega))
    have hsplit : 10 ^ len = 10 ^ (len - contextPrecision) * 10 ^ contextPrecision := by
      rw [← pow_add]
      congr 1
      omega
    have hquot : c / 10 ^ (len - contextPrecision) < 10 ^ contextPrecision :=
      Nat.div_lt_of_lt_mul (by rw [← hsplit]; exact hlt)
    have hquot0 : 0 < c / 10 ^ (len - contextPrecision) := by
      refine Nat.div_pos ?_ (by positivity)
      by_contra hsmall
      -- `c` has `len` digits, so it is not below a smaller power of ten
      have hshort : (Nat.toDigits 10 c).length ≤ len - contextPrecision :=
        (Nat.length_toDigits_le_iff (by decide) (by omega)).mpr (by omega)
      omega
    -- rounding adds at most one unit to the kept digits
    have hround : ∀ (p : Prop) [Decidable p],
        (if p then c / 10 ^ (len - contextPrecision) + 1
          else c / 10 ^ (len - contextPrecision)) ≤ 10 ^ contextPrecision ∧
        (if p then c / 10 ^ (len - contextPrecision) + 1
          else c / 10 ^ (len - contextPrecision)) ≠ 0 := by
      intro p _
      split
      · exact ⟨hquot, Nat.succ_ne_zero _⟩
      · exact ⟨hquot.le, hquot0.ne'⟩
    dsimp only
    exact ⟨(hround _).1, by omega, fun _ => (hround _).2⟩

theorem normalize_isNormal (n : Numeral) :
    IsNormal n.normalize.coeff n.normalize.exp ∧ n.normalize.neg = n.neg ∧
      (n.coeff ≠ 0 → n.normalize.coeff ≠ 0 ∧ n.exp ≤ n.normalize.exp) := by
  rcases trim_cases n.coeff n.exp with ⟨hzero, ht⟩ | ⟨c, k, hc, hk, ht⟩
  · have hnorm : n.normalize = ⟨n.neg, 0, 0⟩ := by
      unfold Numeral.normalize
      rw [ht]
      rfl
    rw [hnorm]
    exact ⟨Or.inl ⟨rfl, rfl⟩, rfl, fun h => absurd hzero h⟩
  · obtain ⟨hle, hexp, hne⟩ := roundToPrecision_le c (n.exp + k)
    have hc0 : c ≠ 0 := by rintro rfl; simp at hc
    set r := roundToPrecision c (n.exp + k) with hr
    have hnorm : n.normalize = ⟨n.neg, (trim r.1 r.2).1, (trim r.1 r.2).2⟩ := by
      unfold Numeral.normalize
      rw [ht]
    rcases trim_cases r.1 r.2 with ⟨hr0, -⟩ | ⟨d, j, hd, hj, htr⟩
    · exact absurd hr0 (hne hc0)
    · rw [hnorm, htr]
      have hd0 : d ≠ 0 := by rintro rfl; simp at hd
      have hdr : d ≤ r.1 := by
        rw [hj]
        exact Nat.le_mul_of_pos_right d (by positivity)
      have hlt : d < 10 ^ contextPrecision := by
        refine lt_of_le_of_ne (hdr.trans hle) ?_
        rintro rfl
        exact hd (by decide)
      exact ⟨Or.inr ⟨hd, hlt⟩, rfl, fun _ => ⟨hd0, by simp only; omega⟩⟩

/-! ## Positional notation -/

/-- A character of a positional text. -/
def isPositional (c : Char) : Bool := c.isDigit || c == '.'

theorem isDigit_toDigits {n : Nat} {c : Char} (h : c ∈ Nat.toDigits 10 n) : c.isDigit = true :=
  Nat.isDigit_of_mem_toDigits (by decide) (by decide) h

theorem isDigit_paddedDigits {w n : Nat} {c : Char} (h : c ∈ paddedDigits w n) :
    c.isDigit = true := by
  simp only [paddedDigits, List.mem_append, List.mem_replicate] at h
  rcases h with ⟨-, rfl⟩ | h
  · rfl
  · exact isDigit_toDigits h

theorem positional_chars {c : Nat} {e : Int} {x : Char} (h : x ∈ positional c e) :
    isPositional x = true := by
  unfold positional at h
  split at h
  · simp [isPositional, isDigit_toDigits h]
  · simp only [List.mem_append, List.mem_cons] at h
    rcases h with h | rfl | h
    · simp [isPositional, isDigit_toDigits h]
    · rfl
    · simp [isPositional, isDigit_paddedDigits h]

theorem length_paddedDigits {w n : Nat} (hw : 0 < w) (h : n < 10 ^ w) :
    (paddedDigits w n).length = w := by
  have hle := (Nat.length_toDigits_le_iff (b := 10) (by decide) hw).mpr h
  simp only [paddedDigits, List.length_append, List.length_replicate]
  omega

theorem ofDigitChars_paddedDigits (w n init : Nat) (hw : 0 < w) (h : n < 10 ^ w) :
    Nat.ofDigitChars 10 (paddedDigits w n) init = 10 ^ w * init + n := by
  have hlen := length_paddedDigits hw h
  rw [Nat.ofDigitChars_eq_ofDigitChars_zero, hlen]
  simp [paddedDigits, Nat.ofDigitChars_append, Nat.ofDigitChars_replicate_zero,
    Nat.ofDigitChars_ten_toDigits]

theorem takeWhile_isDigit (ds rest : List Char) (hds : ∀ c ∈ ds, c.isDigit = true)
    (hrest : ∀ c ∈ rest.head?, c.isDigit = false) :
    (ds ++ rest).takeWhile Char.isDigit = ds ∧ (ds ++ rest).dropWhile Char.isDigit = rest := by
  rw [List.takeWhile_append_of_pos hds, List.dropWhile_append_of_pos hds]
  cases rest with
  | nil => simp
  | cons c rest =>
    have hc := hrest c (by simp)
    simp [hc]

/-- The numeral that a positional text is read as. -/
theorem readUnsigned_positional (c : Nat) (e : Int) :
    readUnsigned false (positional c e) =
      some (if 0 ≤ e then ⟨false, c * 10 ^ e.toNat, 0⟩ else ⟨false, c, e⟩) := by
  unfold positional
  split
  · next he =>
    obtain ⟨htake, hdrop⟩ := takeWhile_isDigit (Nat.toDigits 10 (c * 10 ^ e.toNat)) []
      (fun _ => isDigit_toDigits) (by simp)
    rw [List.append_nil] at htake hdrop
    simp [readUnsigned, htake, hdrop, readExponent, Nat.toDigits_ne_nil,
      Nat.ofDigitChars_ten_toDigits]
  · next he =>
    set k := (-e).toNat with hk
    have hkpos : 0 < k := by omega
    have hmod : c % 10 ^ k < 10 ^ k := Nat.mod_lt _ (by positivity)
    obtain ⟨htake, hdrop⟩ := takeWhile_isDigit (Nat.toDigits 10 (c / 10 ^ k))
      ('.' :: paddedDigits k (c % 10 ^ k)) (fun _ => isDigit_toDigits)
      (by intro x hx; obtain rfl : '.' = x := by simpa using hx
          rfl)
    obtain ⟨htake', hdrop'⟩ := takeWhile_isDigit (paddedDigits k (c % 10 ^ k)) []
      (fun _ => isDigit_paddedDigits) (by simp)
    rw [List.append_nil] at htake' hdrop'
    have hvalue : Nat.ofDigitChars 10 (Nat.toDigits 10 (c / 10 ^ k) ++
        paddedDigits k (c % 10 ^ k)) 0 = c := by
      rw [Nat.ofDigitChars_append, Nat.ofDigitChars_ten_toDigits,
        ofDigitChars_paddedDigits _ _ _ hkpos hmod]
      exact Nat.div_add_mod c (10 ^ k)
    have hexp : (0 : Int) - (k : Int) = e := by omega
    simp [readUnsigned, htake, hdrop, htake', hdrop', readExponent, Nat.toDigits_ne_nil, hvalue,
      length_paddedDigits hkpos hmod]
    omega

/-- What a positional text is read as has the digits it was written from. -/
theorem trim_positional {c : Nat} {e : Int} (h : IsNormal c e) :
    trim (if 0 ≤ e then ⟨false, c * 10 ^ e.toNat, 0⟩ else ⟨false, c, e⟩ : Numeral).coeff
      (if 0 ≤ e then ⟨false, c * 10 ^ e.toNat, 0⟩ else ⟨false, c, e⟩ : Numeral).exp = (c, e) := by
  split
  · next he =>
    rcases h with ⟨rfl, rfl⟩ | ⟨hc, -⟩
    · rfl
    · rw [trim_mul_pow hc]
      simp only [Prod.mk.injEq, true_and]
      omega
  · exact h.trim

/-- A normal numeral is the normal form of what its positional text is read as. -/
theorem normalize_positional {c : Nat} {e : Int} (h : IsNormal c e) :
    (if 0 ≤ e then ⟨false, c * 10 ^ e.toNat, 0⟩ else ⟨false, c, e⟩ : Numeral).normalize =
      ⟨false, c, e⟩ := by
  unfold Numeral.normalize
  rw [trim_positional h]
  simp only [roundToPrecision, if_pos h.lt, h.trim]
  split <;> rfl

theorem getLast_toDigits (n : Nat) :
    (Nat.toDigits 10 n).getLast? = some (Nat.digitChar (n % 10)) := by
  by_cases hn : n < 10
  · rw [Nat.toDigits_of_lt_base hn, Nat.mod_eq_of_lt hn]
    rfl
  · rw [Nat.toDigits_of_base_le (by decide) (by omega)]
    simp

/-- A normal fraction has no trailing zero to strip. -/
theorem stripFraction_positional {c : Nat} {e : Int} (h : IsNormal c e) :
    stripFraction (positional c e) = positional c e := by
  unfold stripFraction
  split
  · next hdot =>
    have he : ¬0 ≤ e := by
      intro he
      rw [positional, if_pos he] at hdot
      exact absurd (isDigit_toDigits hdot) (by decide)
    obtain ⟨hc, -⟩ : c % 10 ≠ 0 ∧ c < 10 ^ contextPrecision := by
      rcases h with ⟨-, rfl⟩ | h
      · exact absurd (le_refl 0) he
      · exact h
    -- the last character is the last digit of the coefficient
    have hlast : (positional c e).getLast? = some (Nat.digitChar (c % 10)) := by
      rw [positional, if_neg he]
      have hk : 10 ∣ 10 ^ (-e).toNat := dvd_pow_self 10 (by omega)
      have hpad : (paddedDigits (-e).toNat (c % 10 ^ (-e).toNat)).getLast? =
          some (Nat.digitChar (c % 10)) := by
        rw [paddedDigits, List.getLast?_append, getLast_toDigits, Nat.mod_mod_of_dvd _ hk]
        rfl
      rw [List.getLast?_append, List.getLast?_cons, hpad]
      rfl
    have hdigit : ∀ d < 10, d ≠ 0 → Nat.digitChar d ≠ '0' ∧ Nat.digitChar d ≠ '.' := by decide
    obtain ⟨hzero, hpoint⟩ := hdigit (c % 10) (Nat.mod_lt _ (by decide)) hc
    have hkeep : ∀ x : Char, Nat.digitChar (c % 10) ≠ x →
        (positional c e).rdropWhile (· == x) = positional c e := by
      intro x hx
      rw [List.rdropWhile_eq_self_iff]
      intro hne
      have hget := List.getLast?_eq_some_getLast hne
      rw [hlast, Option.some.injEq] at hget
      rw [← hget]
      simpa using hx
    rw [hkeep _ hzero, hkeep _ hpoint]
  · rfl

theorem positional_head (c : Nat) (e : Int) :
    ∃ d t, positional c e = d :: t ∧ d.isDigit = true := by
  unfold positional
  split
  · cases hds : Nat.toDigits 10 (c * 10 ^ e.toNat) with
    | nil => exact absurd hds Nat.toDigits_ne_nil
    | cons d t => exact ⟨d, t, rfl, isDigit_toDigits (by rw [hds]; simp)⟩
  · cases hds : Nat.toDigits 10 (c / 10 ^ (-e).toNat) with
    | nil => exact absurd hds Nat.toDigits_ne_nil
    | cons d t =>
      refine ⟨d, t ++ '.' :: paddedDigits (-e).toNat (c % 10 ^ (-e).toNat), ?_,
        isDigit_toDigits (by rw [hds]; simp)⟩
      dsimp only
      rw [hds]
      rfl

theorem lt_of_isPositional {x : Char} (h : isPositional x = true) : x.toNat < 58 := by
  simp only [isPositional, Bool.or_eq_true, beq_iff_eq] at h
  rcases h with h | rfl
  · have h9 : ('9' : Char).toNat = 57 := rfl
    simp only [Char.isDigit, Bool.and_eq_true, decide_eq_true_eq,
      UInt32.le_iff_toNat_le] at h
    simp only [← Char.toNat_val] at *
    omega
  · decide

/-- A positional character is ASCII, in lower case, no white space, no underscore and
not an exponent mark. -/
theorem isPositional_spec {x : Char} (h : isPositional x = true) :
    asciiDigit x = x ∧ x.toLower = x ∧ isSpace x = false ∧ x ≠ '_' ∧ x ≠ 'e' := by
  obtain ⟨n, hn, rfl⟩ : ∃ n, n < 58 ∧ x = Char.ofNat n :=
    ⟨x.toNat, lt_of_isPositional h, (Char.ofNat_toNat x).symm⟩
  revert h
  revert n
  decide

/-- A positional text reads back as the numeral it was written from. -/
theorem parseDecimal_positional (c : Nat) (e : Int) :
    parseDecimal (String.ofList (positional c e)) =
      some (.finite (if 0 ≤ e then ⟨false, c * 10 ^ e.toNat, 0⟩ else ⟨false, c, e⟩)) := by
  have hspec : ∀ x ∈ positional c e, _ := fun x hx => isPositional_spec (positional_chars hx)
  have hstrip : stripChars (positional c e) = positional c e :=
    stripChars_eq_self (fun x hx => (hspec x (List.mem_of_mem_head? hx)).2.2.1)
      fun x hx => (hspec x (List.mem_of_mem_getLast? hx)).2.2.1
  have hfilter : (positional c e).filter (· ≠ '_') = positional c e :=
    List.filter_eq_self.mpr fun x hx => by simpa using (hspec x hx).2.2.2.1
  have hmap : (positional c e).map asciiDigit = positional c e := by
    conv_rhs => rw [← List.map_id (positional c e)]
    exact List.map_congr_left fun x hx => (hspec x hx).1
  have hlower : (positional c e).map Char.toLower = positional c e := by
    conv_rhs => rw [← List.map_id (positional c e)]
    exact List.map_congr_left fun x hx => (hspec x hx).2.1
  obtain ⟨d, t, hdt, hd⟩ := positional_head c e
  have hsign : readSign (positional c e) = (false, positional c e) := by
    rw [hdt]
    unfold readSign
    split
    · next h => cases h; exact absurd hd (by decide)
    · next h => cases h; exact absurd hd (by decide)
    · rfl
  have hne : ∀ x : Char, x.isDigit = false → d ≠ x := by
    rintro x hx rfl
    rw [hd] at hx
    cases hx
  rw [parseDecimal, String.toList_ofList, hstrip, hfilter, hmap, readLiteral, hsign]
  simp only [hlower]
  rw [readUnsigned_positional, hdt]
  simp [hne 'i' rfl, hne 'n' rfl, hne 's' rfl]

/-! ## Values -/

/-- Dropping the trailing zeros keeps the value. -/
theorem trim_value (c : Nat) (e : Int) :
    ((trim c e).1 : Rat) * (10 : Rat) ^ (trim c e).2 = (c : Rat) * (10 : Rat) ^ e := by
  obtain ⟨hzero, ht⟩ | ⟨d, k, -, hk, ht⟩ := trim_cases c e
  · rw [ht, hzero]
    simp
  · rw [ht, hk, zpow_add₀ (by norm_num), zpow_natCast]
    push_cast
    ring

theorem roundToPrecision_of_lt {c : Nat} (e : Int) (hc : c < 10 ^ contextPrecision) :
    roundToPrecision c e = (c, e) := if_pos hc

/-- Normalizing a numeral of few digits keeps its value. -/
theorem normalize_value {n : Numeral} (hn : (trim n.coeff n.exp).1 < 10 ^ contextPrecision) :
    n.normalize.value = n.value := by
  unfold Numeral.normalize Numeral.value
  dsimp only
  rw [roundToPrecision_of_lt _ hn]
  dsimp only
  have htwice := trim_value (trim n.coeff n.exp).1 (trim n.coeff n.exp).2
  rw [mul_assoc, htwice, trim_value, ← mul_assoc]

theorem parseDecimal_strip (s : String) : parseDecimal (strip s) = parseDecimal s := by
  unfold parseDecimal strip
  rw [String.toList_ofList, stripChars_stripChars]

end Python
