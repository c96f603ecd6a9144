import ZoidbergChain.Python.Text

/-!
# Numerals and binary floating point

The literals that `int`, `float` and `Decimal` read, binary64 rounding, and the
text of a `float`.

- `Numeral` is a finite decimal literal as `Decimal.as_tuple` has it;
  `Numeral.fixedText` is `format(d, "f")` and `Numeral.normalize` is
  `d.normalize()` under the default 28-digit context.
- `trim_mul_pow`: removing the trailing zeros of a coefficient recovers its
  shortest form.
- `Binary64` carries the proof that its value is one that rounding keeps, so no
  other rational can pass for a float.
-/

namespace Python

/-! ## Numerals -/

/-- A finite decimal literal: `(-1)^neg * coeff * 10^exp`. -/
structure Numeral where
  neg : Bool
  coeff : Nat
  exp : Int
  deriving DecidableEq

/-- The result of reading a decimal literal. -/
inductive Literal where
  | finite (n : Numeral)
  | inf (neg : Bool)
  | nan (signaling : Bool)
  deriving DecidableEq

/-- The exact value of a numeral. -/
def Numeral.value (n : Numeral) : Rat :=
  (if n.neg then -1 else 1) * n.coeff * (10 : Rat) ^ n.exp

/-- An optional sign in front of a numeral. -/
def readSign : List Char → Bool × List Char
  | '-' :: cs => (true, cs)
  | '+' :: cs => (false, cs)
  | cs => (false, cs)

/-- An exponent part, if there is one. -/
def readExponent : List Char → Option Int
  | [] => some 0
  | c :: cs =>
    if c = 'e' ∨ c = 'E' then
      let (neg, ds) := readSign cs
      if ds ≠ [] ∧ ds.all Char.isDigit then
        let n : Int := Nat.ofDigitChars 10 ds 0
        some (if neg then -n else n)
      else none
    else none

/-- An unsigned numeral: digits, an optional fraction, an optional exponent, with a
digit before or after the point. -/
def readUnsigned (neg : Bool) (cs : List Char) : Option Numeral :=
  let whole := cs.takeWhile Char.isDigit
  let rest := cs.dropWhile Char.isDigit
  let (frac, rest) := match rest with
    | '.' :: more => (more.takeWhile Char.isDigit, more.dropWhile Char.isDigit)
    | _ => ([], rest)
  if whole = [] ∧ frac = [] then none
  else (readExponent rest).map fun e =>
    { neg, coeff := Nat.ofDigitChars 10 (whole ++ frac) 0, exp := e - frac.length }

/-- A signed literal, the special values included. -/
def readLiteral (cs : List Char) : Option Literal :=
  let (neg, body) := readSign cs
  let lowered := body.map Char.toLower
  if lowered = "inf".toList ∨ lowered = "infinity".toList then some (.inf neg)
  else if lowered.take 3 = "nan".toList ∧ (body.drop 3).all Char.isDigit then some (.nan false)
  else if lowered.take 4 = "snan".toList ∧ (body.drop 4).all Char.isDigit then some (.nan true)
  else (readUnsigned neg body).map .finite

/-- The argument of `Decimal(s)`: white space and underscores are dropped, and every
decimal digit is read. -/
def parseDecimal (s : String) : Option Literal :=
  readLiteral (((stripChars s.toList).filter (· ≠ '_')).map asciiDigit)

/-- Digits separated by single underscores, without them. -/
def readGroupedDigits : List Char → Option (List Char)
  | [] => none
  | [c] => if c.isDigit then some [c] else none
  | c :: '_' :: cs => if c.isDigit then (readGroupedDigits cs).map (c :: ·) else none
  | c :: cs => if c.isDigit then (readGroupedDigits cs).map (c :: ·) else none

/-- The argument of `int(s)`. -/
def parseInt (s : String) : Option Int :=
  let (neg, body) := readSign ((stripChars s.toList).map asciiDigit)
  (readGroupedDigits body).map fun ds =>
    let n : Int := Nat.ofDigitChars 10 ds 0
    if neg then -n else n

/-! ## Trailing zeros and the text of a numeral -/

/-- Move the trailing zeros of a coefficient into the exponent; `fuel` bounds their
number. -/
def trimAux : Nat → Nat → Int → Nat × Int
  | 0, n, e => (n, e)
  | fuel + 1, n, e => if n % 10 = 0 then trimAux fuel (n / 10) (e + 1) else (n, e)

/-- The shortest coefficient with its exponent; zero is `(0, 0)`. -/
def trim (n : Nat) (e : Int) : Nat × Int :=
  if n = 0 then (0, 0) else trimAux (Nat.log 2 n) n e

theorem trimAux_mul_pow {c : Nat} (hc : c % 10 ≠ 0) (k fuel : Nat) (hf : k ≤ fuel) (e : Int) :
    trimAux fuel (c * 10 ^ k) e = (c, e + k) := by
  induction k generalizing fuel e with
  | zero =>
    cases fuel with
    | zero => simp [trimAux]
    | succ fuel => simp [trimAux, hc]
  | succ k ih =>
    obtain ⟨fuel, rfl⟩ : ∃ f, fuel = f + 1 := ⟨fuel - 1, by omega⟩
    have hmod : c * 10 ^ (k + 1) % 10 = 0 := by
      rw [pow_succ, ← Nat.mul_assoc, Nat.mul_mod_left]
    have hdiv : c * 10 ^ (k + 1) / 10 = c * 10 ^ k := by
      rw [pow_succ, ← Nat.mul_assoc, Nat.mul_div_left _ (by decide)]
    rw [trimAux, if_pos hmod, hdiv, ih fuel (by omega)]
    simp only [Prod.mk.injEq, true_and]
    push_cast
    ring

/-- Removing the trailing zeros of `c * 10^k`, where `c` has none, gives back `c`. -/
theorem trim_mul_pow {c : Nat} (hc : c % 10 ≠ 0) (k : Nat) (e : Int) :
    trim (c * 10 ^ k) e = (c, e + k) := by
  have hc0 : c ≠ 0 := by rintro rfl; simp at hc
  have hne : c * 10 ^ k ≠ 0 := Nat.mul_ne_zero hc0 (by positivity)
  rw [trim, if_neg hne]
  refine trimAux_mul_pow hc k _ ?_ e
  calc k = Nat.log 2 (2 ^ k) := (Nat.log_pow (by decide) k).symm
    _ ≤ Nat.log 2 (c * 10 ^ k) := Nat.log_mono_right <| by
        calc 2 ^ k ≤ 10 ^ k := Nat.pow_le_pow_left (by decide) k
          _ ≤ c * 10 ^ k := Nat.le_mul_of_pos_left _ (by omega)

theorem trim_self {c : Nat} (hc : c % 10 ≠ 0) (e : Int) : trim c e = (c, e) := by
  simpa using trim_mul_pow hc 0 e

/-- Every positive number is a number without trailing zeros times a power of ten. -/
theorem exists_mul_pow (n : Nat) (hn : n ≠ 0) : ∃ c k, c % 10 ≠ 0 ∧ n = c * 10 ^ k := by
  induction n using Nat.strong_induction_on with
  | _ n ih =>
    by_cases h : n % 10 = 0
    · obtain ⟨c, k, hc, hk⟩ := ih (n / 10) (by omega) (by omega)
      refine ⟨c, k + 1, hc, ?_⟩
      rw [pow_succ, ← Nat.mul_assoc, ← hk]
      omega
    · exact ⟨n, 0, h, by simp⟩

/-- The digits of `n`, padded with zeros to `width`. -/
def paddedDigits (width n : Nat) : List Char :=
  let ds := Nat.toDigits 10 n
  List.replicate (width - ds.length) '0' ++ ds

/-- The characters of the coefficient and exponent in positional notation. -/
def positional (coeff : Nat) (exp : Int) : List Char :=
  if 0 ≤ exp then Nat.toDigits 10 (coeff * 10 ^ exp.toNat)
  else
    let k := (-exp).toNat
    Nat.toDigits 10 (coeff / 10 ^ k) ++ '.' :: paddedDigits k (coeff % 10 ^ k)

/-- `format(d, "f")` of a finite decimal. -/
def Numeral.fixedText (n : Numeral) : List Char :=
  (if n.neg then ['-'] else []) ++ positional n.coeff n.exp

/-- The decimal precision of the default context. -/
def contextPrecision : Nat := 28

/-- Round a coefficient to the context precision, ties to even. -/
def roundToPrecision (coeff : Nat) (exp : Int) : Nat × Int :=
  if coeff < 10 ^ contextPrecision then (coeff, exp)
  else
    let k := (Nat.toDigits 10 coeff).length - contextPrecision
    let q := coeff / 10 ^ k
    let r := 2 * (coeff % 10 ^ k)
    let up := 10 ^ k < r ∨ (r = 10 ^ k ∧ q % 2 = 1)
    (if up then q + 1 else q, exp + k)

/-- `d.normalize()`: round to the context precision and drop the trailing zeros. -/
def Numeral.normalize (n : Numeral) : Numeral :=
  let t := trim n.coeff n.exp
  let r := roundToPrecision t.1 t.2
  let u := trim r.1 r.2
  { neg := n.neg, coeff := u.1, exp := u.2 }

/-- `if "." in s: s = s.rstrip("0").rstrip(".")`. -/
def stripFraction (cs : List Char) : List Char :=
  if '.' ∈ cs then (cs.rdropWhile (· == '0')).rdropWhile (· == '.') else cs

/-! ## Binary64 -/

/-- The exponent `e` with `2^e ≤ |q| < 2^(e+1)`, for a nonzero `q`. -/
def binaryExponent (q : Rat) : Int :=
  let e : Int := (Nat.log 2 q.num.natAbs : Int) - (Nat.log 2 q.den : Int)
  if (2 : Rat) ^ e ≤ |q| then e else e - 1

/-- Round to the nearest integer, ties to even. -/
def roundHalfEven (q : Rat) : Int :=
  let n := q.floor
  let r := q - n
  if r < 1 / 2 then n
  else if 1 / 2 < r then n + 1
  else if n % 2 = 0 then n else n + 1

/-- The binary64 value nearest to a rational, unless it is too large for one. -/
def roundToBinary64? (q : Rat) : Option Rat :=
  if q = 0 then some 0
  else
    let unit := (2 : Rat) ^ (max (binaryExponent q) (-1022) - 52)
    let v := roundHalfEven (q / unit) * unit
    if (2 : Rat) ^ (1024 : Int) ≤ |v| then none else some v

/-- A finite binary64 number, by its exact value. -/
structure Binary64 where
  value : Rat
  rounded : roundToBinary64? value = some value

@[ext] theorem Binary64.ext {x y : Binary64} (h : x.value = y.value) : x = y := by
  cases x; cases y; cases h; rfl

instance : DecidableEq Binary64 := fun x y =>
  decidable_of_iff (x.value = y.value) ⟨Binary64.ext, fun h => h ▸ rfl⟩

/-- A Python `float`. -/
inductive PyFloat where
  | finite (x : Binary64)
  | inf (neg : Bool)
  | nan
  deriving DecidableEq

/-- The float nearest to a rational. Rounding keeps what it returns, so the inner
test always succeeds. -/
def PyFloat.ofRat (q : Rat) : PyFloat :=
  match roundToBinary64? q with
  | none => .inf (q < 0)
  | some v => if h : roundToBinary64? v = some v then .finite ⟨v, h⟩ else .nan

/-- The exponent `e` with `10^e ≤ |q| < 10^(e+1)`, for a nonzero `q`. -/
def decimalExponent (q : Rat) : Int :=
  let e : Int := (Nat.log 10 q.num.natAbs : Int) - (Nat.log 10 q.den : Int)
  if (10 : Rat) ^ e ≤ |q| then e else e - 1

/-- The decimal with `p` digits nearest to `|q|`, as a coefficient and an exponent. -/
def nearestDecimal (q : Rat) (p : Nat) : Nat × Int :=
  let e := decimalExponent q - (p - 1 : Int)
  ((roundHalfEven (|q| / (10 : Rat) ^ e)).toNat, e)

/-- The decimal reads back as the float of absolute value `|q|`. -/
def readsBack (q : Rat) (d : Nat × Int) : Bool :=
  roundToBinary64? (d.1 * (10 : Rat) ^ d.2) = some |q|

/-- The shortest decimal that reads back as the float `q`. Seventeen digits are
always enough; the exact expansion of the binary fraction stands behind them. -/
def shortestDecimal (q : Rat) : Nat × Int :=
  let tries := (List.range 17).map fun i => nearestDecimal q (i + 1)
  match tries.find? (readsBack q) with
  | some d => d
  | none =>
    let k := Nat.log 2 q.den
    (q.num.natAbs * 5 ^ k, -k)

/-- `str(f)`: the shortest text that reads back as `f`, positional for decimal
exponents from -4 to 15. -/
def PyFloat.text : PyFloat → String
  | .nan => "nan"
  | .inf neg => if neg then "-inf" else "inf"
  | .finite x =>
    if x.value = 0 then "0.0"
    else
      let sign := if x.value < 0 then "-" else ""
      let d := shortestDecimal x.value
      let t := trim d.1 d.2
      let digits := Nat.toDigits 10 t.1
      let point : Int := t.2 + digits.length - 1
      if -4 ≤ point ∧ point < 16 then
        let cs := positional t.1 t.2
        sign ++ String.ofList (if '.' ∈ cs then cs else cs ++ ['.', '0'])
      else
        let mantissa := match digits with
          | [] => []
          | [c] => [c]
          | c :: cs => c :: '.' :: cs
        sign ++ String.ofList mantissa ++ "e" ++ (if point < 0 then "-" else "+") ++
          String.ofList (paddedDigits 2 point.natAbs)

end Python
