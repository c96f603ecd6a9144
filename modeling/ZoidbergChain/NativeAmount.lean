import ZoidbergChain.NativeTransferStable
import ZoidbergChain.Python.DecimalContext
import ZoidbergChain.Python.JsonReader

/-!
# Native amounts are parsed exactly, up to 28 digits (native_transfer.py)

`parse_native_zoid_amount` with any number of decimal places, under the whole default decimal
context. The construction of a `Decimal` is exact, but `normalize` rounds to 28 significant digits.

- `NativeAmount.parseNativeZoidAmount`; `parseNativeZoidAmount_default` is the link to the parser
  of the transfers.
- `ParsedExactly`: what a parsed amount has to be. `parsedExactly_iff`: it is that exactly when the
  number has no digit beyond the context.
-/

namespace ZoidbergChain

open Python

namespace NativeAmount

/-! ## The parser -/

/-- `format(d, "f")` without trailing zeros, and without the sign of a zero. -/
def amountText (n : Numeral) : String :=
  let normalized := stripFraction n.fixedText
  if normalized = [] ∨ normalized = ['-', '0'] then "0" else String.ofList normalized

/-- `decimal.Overflow`, an `ArithmeticError`. -/
def decimalOverflow : PyError :=
  { exc := .overflowError, message := "[<class 'decimal.Overflow'>]" }

/-- `parse_native_zoid_amount`. -/
def parseNativeZoidAmount (h : Host) (value : Value) (allowZero : Bool)
    (maxDecimalPlaces : Int) : Py String :=
  match value with
  | .bool _ => .error (.value "Amount must be a decimal string or integer.")
  | _ => do
    let candidate := value.trimmed h.toRuntime
    require (candidate ≠ "") (.value "Amount is required.")
    require (h.lower candidate ∉ specialNames) (.value "Amount must be a finite decimal value.")
    require ('e' ∉ (h.lower candidate).toList)
      (.value "Scientific notation is not supported for ZOID amounts.")
    match parseDecimal candidate with
    | none => .error (.value "Amount must be a valid decimal value.")
    | some (.finite n) =>
      require (¬(n.neg = true ∧ n.coeff ≠ 0)) (.value "Amount cannot be negative.")
      require (allowZero = true ∨ n.coeff ≠ 0) (.value "Amount must be greater than zero.")
      let decimalPlaces := max (-n.exp) 0
      require (decimalPlaces ≤ maxDecimalPlaces) (.value
        s!"Amount exceeds the current {maxDecimalPlaces}-decimal precision limit.")
      let normalized ← orRaise n.normalize? decimalOverflow
      return amountText normalized
    | some _ => .error (.value "Amount must be a finite decimal value.")

section Parser

variable {h : Host} {allowZero : Bool} {places : Int} {v : Value} {t : String}

/-- What an accepted amount was read as. -/
structure Accepted (h : Host) (v : Value) (allowZero : Bool) (places : Int) (n m : Numeral) :
    Prop where
  read : parseDecimal (v.trimmed h.toRuntime) = some (.finite n)
  sign : n.coeff ≠ 0 → n.neg = false
  zero : allowZero = true ∨ n.coeff ≠ 0
  exponent : -n.exp ≤ places
  nonnegative : 0 ≤ places
  normalized : n.normalize? = some m

theorem parseNativeZoidAmount_eq_ok (ht : parseNativeZoidAmount h v allowZero places = .ok t) :
    ∃ n m, Accepted h v allowZero places n m ∧ t = amountText m := by
  unfold parseNativeZoidAmount at ht
  split at ht
  · cases ht
  · simp only [bind_eq_ok, require_eq_ok] at ht
    obtain ⟨-, -, -, -, -, -, ht⟩ := ht
    split at ht
    · cases ht
    · next n hread =>
      simp only [bind_eq_ok, require_eq_ok, pure_eq_ok, orRaise_eq_ok] at ht
      obtain ⟨-, hneg, -, hzero, -, hplaces, m, hm, rfl⟩ := ht
      exact ⟨n, m, ⟨hread, fun hn => by simpa using fun hsign => hneg ⟨hsign, hn⟩, hzero,
        le_trans (le_max_left _ _) hplaces, le_trans (le_max_right _ _) hplaces, hm⟩, rfl⟩
    · cases ht

/-- With six places this is the parser of the transfers. -/
theorem parseNativeZoidAmount_default (ht : parseNativeZoidAmount h v allowZero 6 = .ok t) :
    ZoidbergChain.parseNativeZoidAmount h v allowZero = .ok t := by
  have hsix : (6 : Int) ≤ -tinyExponent := by decide
  unfold parseNativeZoidAmount at ht
  unfold ZoidbergChain.parseNativeZoidAmount
  split at ht
  · cases ht
  · simp only [bind_eq_ok, require_eq_ok] at ht ⊢
    obtain ⟨_, hne, _, hspecial, _, hexponent, ht⟩ := ht
    refine ⟨(), hne, (), hspecial, (), hexponent, ?_⟩
    generalize parseDecimal (v.trimmed h.toRuntime) = parsed at ht ⊢
    cases parsed with
    | none => cases ht
    | some l =>
      cases l with
      | finite n =>
        simp only [bind_eq_ok, require_eq_ok, pure_eq_ok, orRaise_eq_ok] at ht ⊢
        obtain ⟨_, hneg, _, hzero, _, hplaces, m, hm, rfl⟩ := ht
        have hexp : -n.exp ≤ 6 := le_trans (le_max_left _ _) hplaces
        refine ⟨(), hneg, (), hzero, (), hexp, ?_⟩
        rw [Numeral.normalize?_eq_normalize (by omega) hm]
        rfl
      | inf => cases ht
      | nan => cases ht

end Parser

/-! ## The text of an amount -/

/-- A plain decimal: digits without redundant zeros, at most so many of them behind a point, no
sign and no exponent. -/
def IsPlainAmount (places : Int) (text : String) : Prop :=
  ∃ whole frac : List Char,
    text.toList = whole ++ (if frac = [] then [] else '.' :: frac) ∧
    (∀ c ∈ whole ++ frac, c.isDigit = true) ∧
    whole ≠ [] ∧ (whole.head? = some '0' → whole = ['0']) ∧
    frac.getLast? ≠ some '0' ∧ (frac.length : Int) ≤ places

/-- The whole part of a number has no redundant zero in front. -/
theorem toDigits_head_zero (n : Nat) (hn : (Nat.toDigits 10 n).head? = some '0') :
    Nat.toDigits 10 n = ['0'] := by
  by_cases hzero : n = 0
  · subst hzero
    rfl
  · obtain ⟨c, t, hct, hc, -⟩ := Json.toDigits_head (Nat.pos_of_ne_zero hzero)
    rw [hct, List.head?_cons, Option.some.injEq] at hn
    exact absurd hn hc

theorem isPlainAmount_positional {c : Nat} {e : Int} {places : Int} (h : IsNormal c e)
    (hplaces : -e ≤ places) (hnonneg : 0 ≤ places) :
    IsPlainAmount places (String.ofList (positional c e)) := by
  unfold IsPlainAmount
  rw [String.toList_ofList]
  by_cases he : 0 ≤ e
  · refine ⟨Nat.toDigits 10 (c * 10 ^ e.toNat), [], ?_, ?_, Nat.toDigits_ne_nil,
      toDigits_head_zero _, by simp, by simpa using hnonneg⟩
    · rw [positional, if_pos he]
      simp
    · intro x hx
      rw [List.append_nil] at hx
      exact isDigit_toDigits hx
  · have hlast : c % 10 ≠ 0 := by
      rcases h with ⟨-, rfl⟩ | ⟨hc, -⟩
      · exact absurd (le_refl 0) he
      · exact hc
    have hk : 0 < (-e).toNat := by omega
    have hpad : (paddedDigits (-e).toNat (c % 10 ^ (-e).toNat)).length = (-e).toNat :=
      length_paddedDigits hk (Nat.mod_lt _ (Nat.pow_pos (by decide)))
    have hne : paddedDigits (-e).toNat (c % 10 ^ (-e).toNat) ≠ [] := by
      intro hnil
      rw [hnil] at hpad
      simp at hpad
      omega
    refine ⟨Nat.toDigits 10 (c / 10 ^ (-e).toNat),
      paddedDigits (-e).toNat (c % 10 ^ (-e).toNat), ?_, ?_, Nat.toDigits_ne_nil,
      toDigits_head_zero _, ?_, by omega⟩
    · rw [positional, if_neg he, if_neg hne]
    · intro x hx
      rcases List.mem_append.mp hx with hx | hx
      · exact isDigit_toDigits hx
      · exact isDigit_paddedDigits hx
    · -- the last digit is the one of the coefficient
      have hdvd : 10 ∣ 10 ^ (-e).toNat := dvd_pow_self 10 (by omega)
      have hdigit : ∀ d < 10, d ≠ 0 → Nat.digitChar d ≠ '0' := by decide
      rw [paddedDigits, List.getLast?_append, getLast_toDigits, Nat.mod_mod_of_dvd _ hdvd]
      simpa using hdigit (c % 10) (Nat.mod_lt _ (by decide)) hlast

section Exact

variable {h : Host} {allowZero : Bool} {places : Int} {v : Value} {s t : String} {n m : Numeral}

theorem amountText_of_isNormal {c : Nat} {e : Int} (h : IsNormal c e) :
    amountText ⟨false, c, e⟩ = String.ofList (positional c e) := by
  have htext : Numeral.fixedText ⟨false, c, e⟩ = positional c e := rfl
  obtain ⟨d, t, hdt, hd⟩ := positional_head c e
  rw [amountText, htext, stripFraction_positional h, if_neg]
  rw [hdt]
  rintro (hnil | hminus)
  · cases hnil
  · obtain ⟨rfl, -⟩ := List.cons.inj hminus
    exact absurd hd (by decide)

/-- The text of an amount is the one of a positive numeral. -/
theorem Accepted.amountText_normalized (a : Accepted h v allowZero places n m) :
    amountText m = String.ofList (positional m.coeff m.exp) := by
  obtain ⟨hnormal, hsign, -⟩ := Numeral.normalize?_isNormal a.normalized
  by_cases hzero : n.coeff = 0
  · -- zero is written "0", with either sign
    have hm := a.normalized
    rw [Numeral.normalize?, if_pos hzero] at hm
    obtain rfl := Option.some.inj hm
    cases n.neg <;> decide
  · have hm : m = ⟨false, m.coeff, m.exp⟩ := by
      rw [← a.sign hzero, ← hsign]
    rw [hm]
    exact amountText_of_isNormal hnormal

/-- An accepted number in the context is written with its significant digits. -/
theorem Accepted.amountText_eq (a : Accepted h v allowZero places n m) (hn : n.InContext) :
    amountText m =
      String.ofList (positional (trim n.coeff n.exp).1 (trim n.coeff n.exp).2) := by
  rw [a.amountText_normalized]
  have hm := a.normalized
  by_cases hzero : n.coeff = 0
  · have htrim : trim n.coeff n.exp = (0, 0) := by rw [hzero]; rfl
    rw [Numeral.normalize?, if_pos hzero] at hm
    obtain rfl := Option.some.inj hm
    rw [htrim]
  · have hmax := Numeral.adjusted_le_of_normalize? hzero hm
    rw [Numeral.normalize?_of_inContext hzero hn hmax] at hm
    obtain rfl := Option.some.inj hm
    rfl

/-- The exponent of the significant digits is not below the one that was written. -/
theorem Accepted.trim_places (a : Accepted h v allowZero places n m) :
    -(trim n.coeff n.exp).2 ≤ places := by
  have hexp := a.exponent
  have hnonneg := a.nonnegative
  obtain ⟨-, ht⟩ | ⟨c, k, -, -, ht⟩ := trim_cases n.coeff n.exp
  · rw [ht]
    simpa using hnonneg
  · rw [ht]
    show -(n.exp + k) ≤ places
    omega

/-- The text of the significant digits is accepted as it stands. -/
theorem parseNativeZoidAmount_positional {c : Nat} {e : Int} (hnormal : IsNormal c e)
    (hzero : allowZero = true ∨ c ≠ 0) (hplaces : -e ≤ places) (hnonneg : 0 ≤ places)
    (hmax : e + digitCount c - 1 ≤ maxExponent) (htiny : tinyExponent ≤ e) :
    parseNativeZoidAmount h (.str (String.ofList (positional c e))) allowZero places =
      .ok (String.ofList (positional c e)) := by
  obtain ⟨hstrip, hlower, hne, hexponent, hspecial⟩ := positional_candidate (h := h)
    (s := String.ofList (positional c e)) rfl
  have hread := parseDecimal_positional c e
  have htrim := trim_positional hnormal
  generalize hn : (if 0 ≤ e then ⟨false, c * 10 ^ e.toNat, 0⟩ else ⟨false, c, e⟩ : Numeral) = n
    at hread htrim
  have hsign : n.neg = false := by rw [← hn]; split <;> rfl
  have hcontext : n.InContext := by
    rw [Numeral.InContext, htrim]
    exact ⟨hnormal.lt, htiny⟩
  have hcoeff : n.coeff = 0 ↔ c = 0 := by
    rw [← hn]
    split
    · simp
    · exact Iff.rfl
  have hexp : max (-n.exp) 0 ≤ places := by
    rw [← hn]
    split
    · exact max_le (by simpa using hnonneg) hnonneg
    · exact max_le hplaces hnonneg
  obtain ⟨m, hm⟩ : ∃ m, n.normalize? = some m := by
    by_cases hc : n.coeff = 0
    · exact ⟨_, by rw [Numeral.normalize?, if_pos hc]⟩
    · refine ⟨_, Numeral.normalize?_of_inContext hc hcontext ?_⟩
      rw [Numeral.adjusted_eq_trim hc, htrim]
      exact hmax
  have hallowed : allowZero = true ∨ n.coeff ≠ 0 := hzero.imp_right (mt hcoeff.mp)
  have haccepted : Accepted h (.str (String.ofList (positional c e))) allowZero places n m :=
    ⟨by rw [Value.trimmed_str, hstrip, hread], fun _ => hsign, hallowed,
      le_trans (le_max_left _ _) hexp, hnonneg, hm⟩
  have htext := haccepted.amountText_eq hcontext
  rw [htrim] at htext
  unfold parseNativeZoidAmount
  simp only [Value.trimmed_str, hstrip, hlower, require_pos hne, require_pos hspecial,
    require_pos hexponent, ok_bind, hread]
  rw [require_pos (by simp [hsign]), require_pos hallowed, require_pos hexp, hm]
  show Except.ok (amountText m) = _
  rw [htext]

/-- What a parsed amount has to be: the same number in a plain decimal, which is parsed to itself
and does not depend on how the number was spelled. -/
structure ParsedExactly (h : Host) (allowZero : Bool) (places : Int) (s t : String) : Prop where
  sameNumber : Decimal.ofString t = Decimal.ofString s
  plain : IsPlainAmount places t
  stable : parseNativeZoidAmount h (.str t) allowZero places = .ok t
  unique : ∀ s' t' allowZero' places',
    parseNativeZoidAmount h (.str s') allowZero' places' = .ok t' →
      Decimal.ofString s' = Decimal.ofString s → t' = t

/-- The number that a text stands for has no digit beyond the context. -/
def WithinContext (s : String) : Prop :=
  ∀ n, parseDecimal s = some (.finite n) → n.InContext

theorem Accepted.parseDecimal (a : Accepted h (.str s) allowZero places n m) :
    parseDecimal s = some (.finite n) := by
  have hread := a.read
  rwa [Value.trimmed_str, parseDecimal_strip] at hread

theorem Accepted.ofString (a : Accepted h (.str s) allowZero places n m) :
    Decimal.ofString s = .ok (.finite n.value) := by
  rw [Decimal.ofString, a.parseDecimal]

/-- A text that still stands for the same number had no digit beyond the context. -/
theorem Accepted.inContext_of_sameNumber (a : Accepted h (.str s) allowZero places n m)
    (hsame : Decimal.ofString (amountText m) = Decimal.ofString s) : n.InContext := by
  refine (Numeral.normalize?_value a.normalized).mp ?_
  rw [a.amountText_normalized, ofString_positional, a.ofString] at hsame
  have hvalue : ((m.coeff : Rat) * (10 : Rat) ^ m.exp) = n.value := by
    simpa using hsame
  obtain ⟨-, hsign, hcoeff⟩ := Numeral.normalize?_isNormal a.normalized
  rw [← hvalue]
  exact Numeral.value_of_sign fun hm => hsign.trans (a.sign (hcoeff hm))

/-- An accepted text is parsed exactly if and only if its number has at most 28 significant digits,
none of them behind the last place of the context. -/
theorem parsedExactly_iff (ht : parseNativeZoidAmount h (.str s) allowZero places = .ok t) :
    ParsedExactly h allowZero places s t ↔ WithinContext s := by
  obtain ⟨n, m, a, rfl⟩ := parseNativeZoidAmount_eq_ok ht
  constructor
  · intro hexact k hk
    rw [a.parseDecimal] at hk
    obtain rfl : n = k := by simpa using hk
    exact a.inContext_of_sameNumber hexact.sameNumber
  · intro hcontext
    have hn := hcontext n a.parseDecimal
    have htext := a.amountText_eq hn
    have hnormal := trim_isNormal hn
    refine ⟨?_, ?_, ?_, ?_⟩
    · rw [htext, ofString_positional, a.ofString, trim_value, Numeral.value_of_sign a.sign]
    · rw [htext]
      exact isPlainAmount_positional hnormal a.trim_places a.nonnegative
    · rw [htext]
      refine parseNativeZoidAmount_positional hnormal ?_ a.trim_places a.nonnegative ?_ hn.2
      · refine a.zero.imp_right fun hc => ?_
        obtain ⟨d, j, -, hd, -, ht⟩ := Numeral.split hc
        rw [ht]
        exact hd
      · by_cases hc : n.coeff = 0
        · have htrim : trim n.coeff n.exp = (0, 0) := by rw [hc]; rfl
          rw [htrim]
          decide
        · rw [← Numeral.adjusted_eq_trim hc]
          exact Numeral.adjusted_le_of_normalize? hc a.normalized
    · intro s' t' allowZero' places' ht' hsame
      obtain ⟨n', m', a', rfl⟩ := parseNativeZoidAmount_eq_ok ht'
      rw [a.ofString, a'.ofString] at hsame
      have hvalue : n'.value = n.value := by simpa using hsame
      have htrim := trim_eq_of_value a'.sign a.sign hvalue
      have hn' : n'.InContext := by
        rw [Numeral.InContext, htrim]
        exact hn
      rw [htext, a'.amountText_eq hn', htrim]

end Exact

/-! ## Twenty-nine digits -/

theorem parsedExactly_iff_sample :
    ParsedExactly (Host.sample none none) false 6 " 01_0.50 " "10.5" ↔
      WithinContext " 01_0.50 " :=
  parsedExactly_iff (eq_ok_of_toOption (by decide +kernel))

/-- The last digit of a number of 29 digits is lost. -/
theorem not_parsedExactly :
    parseNativeZoidAmount (Host.sample none none) (.str "10000000000000000000000000001") false 6 =
        .ok "10000000000000000000000000000" ∧
      ¬ParsedExactly (Host.sample none none) false 6 "10000000000000000000000000001"
        "10000000000000000000000000000" := by
  have hparsed : parseNativeZoidAmount (Host.sample none none)
      (.str "10000000000000000000000000001") false 6 = .ok "10000000000000000000000000000" :=
    eq_ok_of_toOption (by decide +kernel)
  refine ⟨hparsed, fun hexact => ?_⟩
  obtain ⟨n, m, a, htext⟩ := parseNativeZoidAmount_eq_ok hparsed
  have hin := a.inContext_of_sameNumber (htext ▸ hexact.sameNumber)
  have hread : (parseDecimal "10000000000000000000000000001").all (fun l =>
      match l with
      | .finite n => !decide n.InContext
      | .inf _ => true
      | .nan _ => true) = true := by
    decide +kernel
  rw [a.parseDecimal] at hread
  simp [hin] at hread

end NativeAmount

end ZoidbergChain
