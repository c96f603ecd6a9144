import ZoidbergChain.Python.Number

/-!
# Tables with hashable keys

A Python `dict` that is used as a table from arbitrary hashable keys to values of
one type: a finite map. Its insertion order is never observed, so that two tables
with the same entries are equal.
-/

namespace Python

/-- A table. -/
abbrev Mapping (α : Type) := Finmap fun _ : HashKey => α

namespace Mapping

variable {α : Type}

/-- `d.get(key, default)`. -/
def getD (m : Mapping α) (key : HashKey) (default : α) : α := (m.lookup key).getD default

@[simp] theorem getD_empty (key : HashKey) (default : α) :
    getD (∅ : Mapping α) key default = default := by
  simp [getD]

theorem getD_insert (m : Mapping α) (key key' : HashKey) (a default : α) :
    getD (m.insert key a) key' default = if key' = key then a else m.getD key' default := by
  unfold getD
  by_cases h : key' = key
  · subst h
    simp
  · simp [h, Finmap.lookup_insert_of_ne m h]

@[simp] theorem getD_insert_self (m : Mapping α) (key : HashKey) (a default : α) :
    getD (m.insert key a) key default = a := by simp [getD_insert]

theorem getD_insert_of_ne {m : Mapping α} {key key' : HashKey} {a default : α}
    (h : key' ≠ key) : getD (m.insert key a) key' default = m.getD key' default := by
  simp [getD_insert, h]

end Mapping

/-! ## Decimals as text -/

/-- The number of decimal places of a rational whose denominator divides a power of
ten. -/
def decimalPlaces (q : Rat) : Nat :=
  ((List.range (Nat.log 2 q.den + 1)).find? fun k => 10 ^ k % q.den = 0).getD 0

/-- `normalize_decimal_value`: the positional text without trailing zeros. -/
def normalizeDecimalValue : Decimal → String
  | .nan _ => "NaN"
  | .inf neg => if neg then "-Infinity" else "Infinity"
  | .finite q =>
    let k := decimalPlaces q
    let n : Numeral := ⟨decide (q < 0), (|q| * 10 ^ k).num.natAbs, -k⟩
    let cs := stripFraction n.normalize.fixedText
    if cs = [] ∨ cs = ['-', '0'] then "0" else String.ofList cs

end Python
