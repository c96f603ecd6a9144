import ZoidbergChain.Python.Plain

/-!
# The text of a float

The text of a finite float is a sign in front of an unsigned numeral, and this numeral rounds
back to the float (`readUnsigned_magnitude`). Two floats of one text are equal therefore
(`PyFloat.text_inj`).
-/

namespace Python

/-! ## Rounding keeps what it returns -/

theorem roundHalfEven_intCast (n : Int) : roundHalfEven (n : Rat) = n := by
  unfold roundHalfEven
  simp

/-- A rounded value is an integer multiple of a power of two. -/
theorem exists_of_rounded {q : Rat} (hq : roundToBinary64? q = some q) :
    ∃ (m : Int) (z : Int), q = m * (2 : Rat) ^ z := by
  unfold roundToBinary64? at hq
  split at hq
  · exact ⟨0, 0, by simpa using ‹q = 0›⟩
  · dsimp only at hq
    split at hq
    · cases hq
    · exact ⟨_, _, (Option.some.inj hq).symm⟩

theorem binaryExponent_neg (q : Rat) : binaryExponent (-q) = binaryExponent q := by
  unfold binaryExponent
  simp

/-- The negative of a float is a float. -/
theorem rounded_neg {q : Rat} (hq : roundToBinary64? q = some q) :
    roundToBinary64? (-q) = some (-q) := by
  by_cases hzero : q = 0
  · subst hzero
    simpa using hq
  · unfold roundToBinary64? at hq ⊢
    rw [if_neg hzero] at hq
    rw [if_neg (neg_ne_zero.mpr hzero), binaryExponent_neg]
    dsimp only at hq ⊢
    generalize hunit : (2 : Rat) ^ (max (binaryExponent q) (-1022) - 52) = unit at hq ⊢
    have hpos : unit ≠ 0 := by
      rw [← hunit]
      exact zpow_ne_zero _ (by norm_num)
    split at hq
    · cases hq
    · next hsmall =>
      have hvalue := Option.some.inj hq
      have hdiv : q / unit = (roundHalfEven (q / unit) : Rat) := by
        rw [div_eq_iff hpos]
        exact hvalue.symm
      have hneg : -q / unit = ((-roundHalfEven (q / unit) : Int) : Rat) := by
        rw [neg_div, Int.cast_neg, ← hdiv]
      have hround : (roundHalfEven (-q / unit) : Rat) * unit = -q := by
        rw [hneg, roundHalfEven_intCast, Int.cast_neg, neg_mul, hvalue]
      rw [hvalue] at hsmall
      rw [hround, abs_neg, if_neg hsmall]

theorem rounded_abs {q : Rat} (hq : roundToBinary64? q = some q) :
    roundToBinary64? |q| = some |q| := by
  obtain h | h := abs_choice q
  · rw [h]
    exact hq
  · rw [h]
    exact rounded_neg hq

/-- The denominator of a float is a power of two. -/
theorem den_of_rounded {q : Rat} (hq : roundToBinary64? q = some q) :
    q.den = 2 ^ Nat.log 2 q.den := by
  obtain ⟨m, z, hmz⟩ := exists_of_rounded hq
  have hdvd : ∃ k, q.den ∣ 2 ^ k := by
    obtain ⟨n, rfl | rfl⟩ := Int.eq_nat_or_neg z
    · refine ⟨0, ?_⟩
      have hint : q = ((m * 2 ^ n : Int) : Rat) := by
        rw [hmz, zpow_natCast]
        push_cast
        ring
      rw [hint, Rat.den_intCast]
      exact one_dvd _
    · refine ⟨n, ?_⟩
      have hquot : q = ((m : Int) : Rat) / (((2 ^ n : Nat) : Int) : Rat) := by
        rw [hmz, zpow_neg, zpow_natCast]
        push_cast
        ring
      rw [hquot]
      exact_mod_cast Rat.den_dvd m ((2 ^ n : Nat) : Int)
  obtain ⟨k, hk⟩ := hdvd
  obtain ⟨j, -, hj⟩ := (Nat.dvd_prime_pow Nat.prime_two).mp hk
  rw [hj, Nat.log_pow (by norm_num)]

/-- The shortest decimal of a float reads back as its absolute value. -/
theorem readsBack_shortestDecimal {q : Rat} (hq : roundToBinary64? q = some q) :
    readsBack q (shortestDecimal q) = true := by
  unfold shortestDecimal
  dsimp only
  split
  · next d hd => exact List.find?_some hd
  · -- the exact expansion
    have hexact : ((q.num.natAbs * 5 ^ Nat.log 2 q.den : Nat) : Rat) *
        (10 : Rat) ^ (-(Nat.log 2 q.den : Int)) = |q| := by
      have hden : (q.den : Rat) = 2 ^ Nat.log 2 q.den := by
        exact_mod_cast den_of_rounded hq
      have habs : |q| = (q.num.natAbs : Rat) / q.den := by
        conv_lhs => rw [← Rat.num_div_den q]
        rw [abs_div, Nat.abs_cast, Nat.cast_natAbs, Int.cast_abs]
      rw [habs, hden, zpow_neg, zpow_natCast]
      have hten : (10 : Rat) ^ Nat.log 2 q.den = 2 ^ Nat.log 2 q.den * 5 ^ Nat.log 2 q.den := by
        rw [← mul_pow]
        norm_num
      rw [hten]
      push_cast
      field_simp
    unfold readsBack
    simp only [hexact, rounded_abs hq, decide_true]

/-! ## The numeral in the text -/

/-- The text of a nonzero float without its sign. -/
def magnitude (q : Rat) : List Char :=
  let d := shortestDecimal q
  let t := trim d.1 d.2
  let digits := Nat.toDigits 10 t.1
  let point : Int := t.2 + digits.length - 1
  if -4 ≤ point ∧ point < 16 then
    let cs := positional t.1 t.2
    if '.' ∈ cs then cs else cs ++ ['.', '0']
  else
    let mantissa := match digits with
      | [] => []
      | [c] => [c]
      | c :: cs => c :: '.' :: cs
    mantissa ++ 'e' :: (if point < 0 then '-' else '+') :: paddedDigits 2 point.natAbs

theorem text_of_ne_zero {x : Binary64} (hx : x.value ≠ 0) :
    (PyFloat.finite x).text.toList = (if x.value < 0 then ['-'] else []) ++ magnitude x.value := by
  have hsign : (if x.value < 0 then "-" else "").toList = if x.value < 0 then ['-'] else [] := by
    split <;> rfl
  unfold PyFloat.text magnitude
  dsimp only
  rw [if_neg hx]
  generalize trim (shortestDecimal x.value).1 (shortestDecimal x.value).2 = t
  generalize t.2 + ((Nat.toDigits 10 t.1).length : Int) - 1 = point
  split
  · rw [String.toList_append, String.toList_ofList, hsign]
  · have hexp : (if point < 0 then "-" else "+").toList = [if point < 0 then '-' else '+'] := by
      split <;> rfl
    simp only [String.toList_append, String.toList_ofList, hsign, hexp, List.append_assoc]
    rfl

theorem ofDigitChars_paddedDigits_zero (w n : Nat) :
    Nat.ofDigitChars 10 (paddedDigits w n) 0 = n := by
  simp [paddedDigits, Nat.ofDigitChars_append, Nat.ofDigitChars_replicate_zero,
    Nat.ofDigitChars_ten_toDigits]

/-- The exponent part that `repr` writes. -/
theorem readExponent_written (point : Int) :
    readExponent ('e' :: (if point < 0 then '-' else '+') :: paddedDigits 2 point.natAbs) =
      some point := by
  have hdigits : (paddedDigits 2 point.natAbs).all Char.isDigit = true :=
    List.all_eq_true.mpr fun c hc => isDigit_paddedDigits hc
  have hne : paddedDigits 2 point.natAbs ≠ [] := by
    unfold paddedDigits
    simp [Nat.toDigits_ne_nil]
  unfold readExponent
  by_cases hneg : point < 0
  · rw [if_pos hneg]
    simp only [true_or, if_true, readSign, hne, ne_eq, not_false_eq_true, hdigits, and_self,
      ofDigitChars_paddedDigits_zero]
    congr 1
    omega
  · rw [if_neg hneg]
    simp only [true_or, if_true, readSign, hne, ne_eq, not_false_eq_true, hdigits, and_self,
      ofDigitChars_paddedDigits_zero, Bool.false_eq_true, if_false]
    congr 1
    omega

/-- Digits, perhaps a point behind the first one, and an exponent part. -/
theorem readUnsigned_mantissa {c : Char} {cs rest : List Char} {e : Int}
    (hdigits : ∀ d ∈ c :: cs, d.isDigit = true) (hrest : readExponent rest = some e)
    (hhead : ∀ d ∈ rest.head?, d.isDigit = false ∧ d ≠ '.') :
    readUnsigned false ((match c :: cs with
        | [] => []
        | [c] => [c]
        | c :: cs => c :: '.' :: cs) ++ rest) =
      some ⟨false, Nat.ofDigitChars 10 (c :: cs) 0, e - cs.length⟩ := by
  have hc : c.isDigit = true := hdigits c List.mem_cons_self
  cases cs with
  | nil =>
    obtain ⟨htake, hdrop⟩ := takeWhile_isDigit [c] rest hdigits fun d hd => (hhead d hd).1
    unfold readUnsigned
    simp only [htake, hdrop]
    cases rest with
    | nil => simp [hrest]
    | cons d rest =>
      have hd : d ≠ '.' := (hhead d (by simp)).2
      split
      · next heq => exact absurd (List.cons.inj heq).1 hd
      · simp [hrest]
  | cons c' cs =>
    obtain ⟨htake, hdrop⟩ := takeWhile_isDigit [c] ('.' :: c' :: cs ++ rest)
      (fun d hd => hdigits d (by simp_all)) (by simp)
    obtain ⟨htake', hdrop'⟩ := takeWhile_isDigit (c' :: cs) rest
      (fun d hd => hdigits d (List.mem_cons_of_mem _ hd)) fun d hd => (hhead d hd).1
    unfold readUnsigned
    simp only [List.cons_append, List.nil_append] at htake hdrop htake' hdrop' ⊢
    simp [htake, hdrop, htake', hdrop', hrest]

/-- The magnitude reads as a numeral that rounds to the absolute value of the float. -/
theorem readUnsigned_magnitude {q : Rat} (hq : roundToBinary64? q = some q) :
    ∃ n, readUnsigned false (magnitude q) = some n ∧ roundToBinary64? n.value = some |q| := by
  have hback := readsBack_shortestDecimal hq
  unfold readsBack at hback
  have hback := of_decide_eq_true hback
  rw [← trim_value] at hback
  unfold magnitude
  dsimp only
  generalize trim (shortestDecimal q).1 (shortestDecimal q).2 = t at hback ⊢
  obtain ⟨c, e⟩ := t
  split
  · split
    · next hpoint =>
      -- a fraction is written out
      have he : ¬0 ≤ e := by
        intro he
        unfold positional at hpoint
        rw [if_pos he] at hpoint
        exact absurd (isDigit_toDigits hpoint) (by decide)
      refine ⟨_, readUnsigned_positional c e, ?_⟩
      rw [if_neg he]
      simpa [Numeral.value] using hback
    · next hpoint =>
      have he : 0 ≤ e := by
        by_contra he
        unfold positional at hpoint
        rw [if_neg he] at hpoint
        simp at hpoint
      obtain ⟨htake, hdrop⟩ := takeWhile_isDigit (Nat.toDigits 10 (c * 10 ^ e.toNat)) ['.', '0']
        (fun _ => isDigit_toDigits) (by simp)
      refine ⟨⟨false, c * 10 ^ e.toNat * 10, -1⟩, ?_, ?_⟩
      · unfold positional
        rw [if_pos he]
        simp [readUnsigned, htake, hdrop, readExponent, Nat.toDigits_ne_nil,
          Nat.ofDigitChars_append, Nat.ofDigitChars_ten_toDigits]
        simp [Nat.ofDigitChars, Nat.mul_comm]
      · obtain ⟨k, rfl⟩ := Int.eq_ofNat_of_zero_le he
        have hvalue : (⟨false, c * 10 ^ (k : Int).toNat * 10, -1⟩ : Numeral).value =
            c * (10 : Rat) ^ (k : Int) := by
          simp [Numeral.value]
        rw [hvalue]
        exact hback
  · obtain ⟨d, ds, hds⟩ := List.exists_cons_of_ne_nil (Nat.toDigits_ne_nil (n := c) (b := 10))
    have hread := readUnsigned_mantissa (fun x (hx : x ∈ d :: ds) => isDigit_toDigits (hds ▸ hx))
      (readExponent_written (e + ((Nat.toDigits 10 c).length : Int) - 1)) (by simp)
    refine ⟨_, by rw [hds] at hread ⊢; exact hread, ?_⟩
    rw [← hds, Nat.ofDigitChars_ten_toDigits, hds]
    have hexp : e + ((d :: ds).length : Int) - 1 - ds.length = e := by
      rw [List.length_cons]
      push_cast
      ring
    rw [hexp]
    simpa [Numeral.value] using hback

/-- A float begins with a sign or a digit, and only a negative one with the sign. -/
theorem magnitude_head (q : Rat) : ∃ d ds, magnitude q = d :: ds ∧ d.isDigit = true := by
  unfold magnitude
  dsimp only
  generalize trim (shortestDecimal q).1 (shortestDecimal q).2 = t
  split
  · obtain ⟨d, ds, hds, hd⟩ := positional_head t.1 t.2
    split
    · exact ⟨d, ds, hds, hd⟩
    · exact ⟨d, ds ++ ['.', '0'], by rw [hds]; rfl, hd⟩
  · obtain ⟨d, ds, hds⟩ := List.exists_cons_of_ne_nil (Nat.toDigits_ne_nil (n := t.1) (b := 10))
    have hd : d.isDigit = true := isDigit_toDigits (hds ▸ List.mem_cons_self)
    rw [hds]
    cases ds with
    | nil => exact ⟨d, _, rfl, hd⟩
    | cons d' ds => exact ⟨d, _, rfl, hd⟩

/-- A point or an exponent part shows that the text is one of a float. -/
theorem mem_magnitude (q : Rat) : '.' ∈ magnitude q ∨ 'e' ∈ magnitude q := by
  unfold magnitude
  dsimp only
  split
  · left
    split
    · next hpoint => exact hpoint
    · exact List.mem_append_right _ List.mem_cons_self
  · right
    exact List.mem_append_right _ List.mem_cons_self

/-- The text ends with a digit. -/
theorem magnitude_last (q : Rat) : ∃ ds d, magnitude q = ds ++ [d] ∧ d.isDigit = true := by
  have hlast : ∀ {ds : List Char} (front : List Char), ds ≠ [] → (∀ c ∈ ds, c.isDigit = true) →
      ∃ ds' d, front ++ ds = ds' ++ [d] ∧ d.isDigit = true := by
    intro ds front hne hds
    refine ⟨front ++ ds.dropLast, ds.getLast hne, ?_, hds _ (List.getLast_mem hne)⟩
    rw [List.append_assoc, List.dropLast_append_getLast]
  have hpadded : ∀ w n, paddedDigits w n ≠ [] := by
    intro w n
    unfold paddedDigits
    simp [Nat.toDigits_ne_nil]
  unfold magnitude
  dsimp only
  generalize trim (shortestDecimal q).1 (shortestDecimal q).2 = t
  split
  · split
    · next hpoint =>
      unfold positional at hpoint ⊢
      split
      · next he =>
        rw [if_pos he] at hpoint
        exact absurd (isDigit_toDigits hpoint) (by decide)
      · rw [List.append_cons]
        exact hlast _ (hpadded _ _) fun _ => isDigit_paddedDigits
    · exact ⟨positional t.1 t.2 ++ ['.'], '0', by simp, by decide⟩
  · rw [List.append_cons, List.append_cons]
    exact hlast _ (hpadded _ _) fun _ => isDigit_paddedDigits

/-- Two finite floats of one text are the same. -/
theorem PyFloat.text_inj {x y : Binary64}
    (hxy : (PyFloat.finite x).text = (PyFloat.finite y).text) : x = y := by
  -- what the text without the sign rounds to
  have hread : ∀ x : Binary64, ∃ body n, (PyFloat.finite x).text.toList =
      (if x.value < 0 then ['-'] else []) ++ body ∧ (∃ d ds, body = d :: ds ∧ d.isDigit = true) ∧
      readUnsigned false body = some n ∧ roundToBinary64? n.value = some |x.value| := by
    intro x
    by_cases hx : x.value = 0
    · refine ⟨['0', '.', '0'], ⟨false, 0, -1⟩, ?_, ⟨'0', ['.', '0'], rfl, by decide⟩, by decide, ?_⟩
      · unfold PyFloat.text
        dsimp only
        rw [if_pos hx, hx, if_neg (lt_irrefl _)]
        rfl
      · rw [hx]
        simp [Numeral.value, roundToBinary64?]
    · obtain ⟨n, hn, hback⟩ := readUnsigned_magnitude x.rounded
      exact ⟨_, n, text_of_ne_zero hx, magnitude_head _, hn, hback⟩
  obtain ⟨body, n, htext, ⟨d, ds, hds, hd⟩, hn, hback⟩ := hread x
  obtain ⟨body', n', htext', ⟨d', ds', hds', hd'⟩, hn', hback'⟩ := hread y
  rw [hxy, htext'] at htext
  have hminus : ∀ {c : Char} {cs cs' : List Char}, c.isDigit = true → c :: cs ≠ '-' :: cs' := by
    rintro c cs cs' hc heq
    rw [(List.cons.inj heq).1] at hc
    exact absurd hc (by decide)
  have hsame : body' = body ∧ (y.value < 0 ↔ x.value < 0) := by
    by_cases hx : x.value < 0 <;> by_cases hy : y.value < 0
    · rw [if_pos hx, if_pos hy] at htext
      exact ⟨List.append_cancel_left htext, iff_of_true hy hx⟩
    · rw [if_pos hx, if_neg hy, hds'] at htext
      exact absurd htext (hminus hd')
    · rw [if_neg hx, if_pos hy, hds] at htext
      exact absurd htext.symm (hminus hd)
    · rw [if_neg hx, if_neg hy] at htext
      exact ⟨htext, iff_of_false hy hx⟩
  obtain ⟨rfl, hsign⟩ := hsame
  obtain rfl := Option.some.inj (hn.symm.trans hn')
  have habs : |x.value| = |y.value| := Option.some.inj (hback.symm.trans hback')
  refine Binary64.ext ?_
  by_cases hx : x.value < 0
  · rw [abs_of_neg hx, abs_of_neg (hsign.mpr hx)] at habs
    exact neg_injective habs
  · have hy : ¬y.value < 0 := fun hy => hx (hsign.mp hy)
    rwa [abs_of_nonneg (not_lt.mp hx), abs_of_nonneg (not_lt.mp hy)] at habs

end Python
