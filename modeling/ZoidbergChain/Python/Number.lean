import ZoidbergChain.Python.Value

/-!
# Decimals and numeric conversions

`decimal.Decimal` and the conversions `Decimal(str(v))`, `int(v)` and `float(v)`.

Decimal arithmetic is exact here: the 28-digit context precision is applied only
by `Numeral.normalize`. Comparing or adding the special values raises what Python
raises.
-/

namespace Python

/-! ## `Decimal` -/

/-- A `decimal.Decimal`. -/
inductive Decimal where
  | finite (q : Rat)
  | inf (neg : Bool)
  | nan (signaling : Bool)
  deriving DecidableEq

namespace Decimal

/-- `decimal.InvalidOperation`, an `ArithmeticError`. -/
def invalidOperation : PyError := { exc := .invalidOperation, message := "InvalidOperation" }

/-- `Decimal(s)`. -/
def ofString (s : String) : Py Decimal :=
  match parseDecimal s with
  | some (.finite n) => .ok (.finite n.value)
  | some (.inf neg) => .ok (.inf neg)
  | some (.nan signaling) => .ok (.nan signaling)
  | none => .error invalidOperation

/-- `-d`. -/
def neg : Decimal → Decimal
  | .finite q => .finite (-q)
  | .inf s => .inf (!s)
  | .nan s => .nan s

/-- `a + b`: a signaling NaN and the difference of two infinities are invalid. -/
def add : Decimal → Decimal → Py Decimal
  | .nan true, _ => .error invalidOperation
  | _, .nan true => .error invalidOperation
  | .nan false, _ => .ok (.nan false)
  | _, .nan false => .ok (.nan false)
  | .inf a, .inf b => if a = b then .ok (.inf a) else .error invalidOperation
  | .inf a, .finite _ => .ok (.inf a)
  | .finite _, .inf b => .ok (.inf b)
  | .finite a, .finite b => .ok (.finite (a + b))

/-- `a - b`. -/
def sub (a b : Decimal) : Py Decimal := add a b.neg

/-- `a < b`: an ordering comparison with a NaN is invalid. -/
def lt : Decimal → Decimal → Py Bool
  | .nan _, _ => .error invalidOperation
  | _, .nan _ => .error invalidOperation
  | .inf a, .inf b => .ok (a && !b)
  | .inf a, .finite _ => .ok a
  | .finite _, .inf b => .ok (!b)
  | .finite a, .finite b => .ok (decide (a < b))

/-- `a == b`: a NaN differs from everything, and a signaling one is invalid. -/
def eq : Decimal → Decimal → Py Bool
  | .nan true, _ => .error invalidOperation
  | _, .nan true => .error invalidOperation
  | .nan false, _ => .ok false
  | _, .nan false => .ok false
  | a, b => .ok (decide (a = b))

@[simp] theorem add_finite (a b : Rat) : add (.finite a) (.finite b) = .ok (.finite (a + b)) := rfl

@[simp] theorem sub_finite (a b : Rat) : sub (.finite a) (.finite b) = .ok (.finite (a - b)) := by
  simp [sub, neg, add, sub_eq_add_neg]

@[simp] theorem lt_finite (a b : Rat) : lt (.finite a) (.finite b) = .ok (decide (a < b)) := rfl

@[simp] theorem eq_finite (a b : Rat) : eq (.finite a) (.finite b) = .ok (decide (a = b)) := by
  simp [eq]

/-- Taking zero from the result of an operation changes nothing. -/
theorem sub_zero_of_sub {a b c : Decimal} (h : sub a b = .ok c) : sub c (.finite 0) = .ok c := by
  cases c with
  | finite q => simp
  | inf s => rfl
  | nan s =>
    cases s with
    | false => rfl
    | true =>
      -- no operation returns a signaling NaN
      exfalso
      simp only [sub, add] at h
      split at h
      all_goals first
        | (split at h <;> cases h)
        | cases h

end Decimal

/-! ## Conversions -/

/-- `Decimal(str(v))`. -/
def Value.decimal (rt : Runtime) (v : Value) : Py Decimal := Decimal.ofString (v.text rt)

/-- `int(v)`: a `float` is truncated. -/
def Value.toInt : Value → Py Int
  | .bool b => .ok (if b then 1 else 0)
  | .int n => .ok n
  | .float (.finite x) => .ok (if 0 ≤ x.value then x.value.floor else x.value.ceil)
  | .float (.inf _) =>
    .error { exc := .overflowError, message := "cannot convert float infinity to integer" }
  | .float .nan => .error (.value "cannot convert float NaN to integer")
  | .str s =>
    match parseInt s with
    | some n => .ok n
    | none => .error (.value "invalid literal for int() with base 10")
  | .bytes b =>
    match parseInt (String.ofList (b.map fun x => Char.ofNat x.toNat)) with
    | some n => .ok n
    | none => .error (.value "invalid literal for int() with base 10")
  | _ => .error (.type "int() argument must be a string, a bytes-like object or a real number")

/-- `float(v)`. -/
def Value.toFloat : Value → Py PyFloat
  | .bool b => .ok (.ofRat (if b then 1 else 0))
  | .int n =>
    match PyFloat.ofRat n with
    | .finite x => .ok (.finite x)
    | _ => .error { exc := .overflowError, message := "int too large to convert to float" }
  | .float f => .ok f
  | .str s => readFloat s.toList
  | .bytes b => readFloat (b.map fun x => Char.ofNat x.toNat)
  | _ => .error (.type "float() argument must be a string or a real number")
where
  /-- The literal of a `float`: underscores only between digits, no signaling NaN. -/
  readFloat (cs : List Char) : Py PyFloat :=
    let cs := (stripChars cs).map asciiDigit
    match if cs.contains '_' then dropUnderscores false cs else some cs with
    | none => .error (.value "could not convert string to float")
    | some cs =>
      match readLiteral cs with
      | some (.finite n) => .ok (.ofRat n.value)
      | some (.inf neg) => .ok (.inf neg)
      | some (.nan false) =>
        if (readSign cs).2.length = 3 then .ok .nan
        else .error (.value "could not convert string to float")
      | _ => .error (.value "could not convert string to float")
  /-- Drop the underscores, each of which stands between two digits. -/
  dropUnderscores (afterDigit : Bool) : List Char → Option (List Char)
    | [] => some []
    | '_' :: c :: cs =>
      if afterDigit ∧ c.isDigit then (dropUnderscores true cs).map (c :: ·) else none
    | ['_'] => none
    | c :: cs => (dropUnderscores c.isDigit cs).map (c :: ·)

end Python
