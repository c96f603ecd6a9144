import ZoidbergChain.CanonicalV3.RoundTrip

/-!
# Fields of a canonical record

The rest of canonical_v3/primitives.py: the scalar domains, the context, and the checks that
compare a field by its canonical bytes. `fixed` and `fields_equal` are from evidence.py.
-/

namespace Python

namespace Value

/-- `value[key]`, for an object that is known to have the key. -/
def field (v : Value) (key : String) : Value :=
  match v with
  | .dict d => Dict.get d key
  | _ => .null

/-- `type(value) is dict`. -/
def isObject (v : Value) : Bool :=
  match v with
  | .dict _ => true
  | _ => false

/-- `key in value`, for an object. -/
def has (v : Value) (key : String) : Bool :=
  match v with
  | .dict d => (Dict.get? d key).isSome
  | _ => false

/-- The text of a field that is known to be a string. -/
def textAt (v : Value) (key : String) : String :=
  match v.field key with
  | .str s => s
  | _ => ""

/-- The number of a field that is known to be an integer. -/
def intAt (v : Value) (key : String) : Int :=
  match v.field key with
  | .int n => n
  | _ => 0

/-- The items of a value that is known to be a list. -/
def items (v : Value) : List Value :=
  match v with
  | .list xs => xs
  | _ => []

end Value

end Python

namespace ZoidbergChain

open Python

namespace CanonicalV3

/-! ## Scalar domains -/

/-- `text(value, scalars, octets)`. -/
def nonemptyText (v : Value) (scalars octets : Nat) : Py String :=
  match v with
  | .str s => do
    require (s ≠ "") (v3Error "string_length")
    text s scalars octets
    .ok s
  | _ => .error (v3Error "string_length")

/-- The characters are digits, so many of them at least and at most. -/
def areDigits (low high : Nat) (cs : List Char) : Bool :=
  decide (low ≤ cs.length ∧ cs.length ≤ high) && cs.all Char.isDigit

/-- `int(digits)`. -/
def digitsNumber (cs : List Char) : Nat := Nat.ofDigitChars 10 cs 0

/-- `[1-9][0-9]{0,15}`. -/
def isNonce (s : String) : Bool := areDigits 1 16 s.toList && s.toList.head? != some '0'

/-- `int(nonce)`. -/
def nonceNumber (s : String) : Nat := digitsNumber s.toList

/-- `nonce`. -/
def nonce (v : Value) : Py Unit := do
  let s ← pattern v isNonce
  require ((nonceNumber s : Int) ≤ maxUint) (v3Error "nonce_range")

/-- `[A-Za-z0-9_-]`. -/
def isOpaqueChar (c : Char) : Bool := c.isAlphanum || c == '_' || c == '-'

/-- `opaque`: `[A-Za-z0-9_-]{1,256}`. -/
def opaqueText (v : Value) : Py String :=
  pattern v fun s => decide (1 ≤ s.length ∧ s.length ≤ 256) && s.toList.all isOpaqueChar

/-- `(\.[0-9]{0,5}[1-9])?`: a fraction without trailing zeros. -/
def isFraction : List Char → Bool
  | [] => true
  | '.' :: cs => areDigits 1 6 cs && cs.getLast? != some '0'
  | _ => false

/-- `(0|[1-9][0-9]*)(\.[0-9]{0,5}[1-9])?`. -/
def isDecimal (s : String) : Bool :=
  let whole := s.toList.takeWhile Char.isDigit
  decide (whole ≠ []) && (decide (whole = ['0']) || whole.head? != some '0') &&
    isFraction (s.toList.dropWhile Char.isDigit)

/-- The millionths that a decimal text stands for. -/
def unitsOf (s : String) : Nat :=
  let whole := s.toList.takeWhile Char.isDigit
  let fraction := (s.toList.dropWhile Char.isDigit).drop 1
  digitsNumber whole * 1000000 + digitsNumber ((fraction ++ "000000".toList).take 6)

/-- `decimal_units`. -/
def decimalUnits (v : Value) (positive : Bool) (maximum : Option Nat) : Py Nat := do
  let s ← nonemptyText v 32 32
  let _ ← pattern v isDecimal
  let units := unitsOf s
  require ((positive = true → 0 < units) ∧ ∀ m ∈ maximum, units ≤ m) (v3Error "decimal_range")
  .ok units

/-- `seconds`. -/
def seconds (v : Value) : Py Nat :=
  decimalUnits v false (some (9007199254740991 * 1000000 + 999999))

/-! ## Times -/

/-- `[0-9]{4}-[0-9]{2}-[0-9]{2}T[0-9]{2}:[0-9]{2}:[0-9]{2}(\.[0-9]{0,5}[1-9])?\+00:00`: the
numbers and the fraction of such a text. -/
def timeParts (s : String) : Option (List Nat) :=
  let cs := s.toList
  let digits (start n : Nat) := (cs.drop start).take n
  let fraction := (cs.drop 19).take (cs.length - 25)
  let numbers := [digits 0 4, digits 5 2, digits 8 2, digits 11 2, digits 14 2, digits 17 2]
  if 25 ≤ cs.length ∧ areDigits 4 4 (digits 0 4) ∧ (numbers.drop 1).all (areDigits 2 2) ∧
      digits 4 1 = ['-'] ∧ digits 7 1 = ['-'] ∧ digits 10 1 = ['T'] ∧ digits 13 1 = [':'] ∧
      digits 16 1 = [':'] ∧ isFraction fraction = true ∧
      cs.drop (cs.length - 6) = "+00:00".toList then
    some (numbers.map digitsNumber ++
      [digitsNumber ((fraction.drop 1 ++ "000000".toList).take 6)])
  else none

/-- The days of a month. -/
def daysIn (year month : Nat) : Nat :=
  if month = 2 then if year % 4 = 0 ∧ (year % 100 ≠ 0 ∨ year % 400 = 0) then 29 else 28
  else if month = 4 ∨ month = 6 ∨ month = 9 ∨ month = 11 then 30 else 31

/-- `datetime.fromisoformat` accepts the parts. -/
def isCalendarTime : List Nat → Bool
  | [year, month, day, hour, minute, second, _] =>
    decide (1 ≤ year ∧ 1 ≤ month ∧ month ≤ 12 ∧ 1 ≤ day ∧ day ≤ daysIn year month ∧
      hour ≤ 23 ∧ minute ≤ 59 ∧ second ≤ 59)
  | _ => false

/-- `time_utc`: the parts of the time, from the year to the microsecond. -/
def timeUtc (v : Value) : Py (List Nat) := do
  let s ← nonemptyText v 32 32
  let _ ← pattern v fun s => (timeParts s).isSome
  let parts := (timeParts s).getD []
  require (isCalendarTime parts = true) (v3Error "calendar_time")
  .ok parts

/-- `expiry`. -/
def expiry (issued expires : Value) : Py Unit := do
  let expiration ← timeUtc expires
  let start ← timeUtc issued
  require (start < expiration) (v3Error "expiry_order")

/-! ## Contexts -/

/-- `[a-z0-9][a-z0-9-]{2,63}`. -/
def isNetworkId (s : String) : Bool :=
  let lower (c : Char) := c.isLower || c.isDigit
  decide (3 ≤ s.length ∧ s.length ≤ 64) && (s.toList.take 1).all lower &&
    s.toList.all fun c => lower c || c == '-'

/-- `[A-Za-z0-9][A-Za-z0-9_.-]{2,63}`. -/
def isApplication (s : String) : Bool :=
  decide (3 ≤ s.length ∧ s.length ≤ 64) && (s.toList.take 1).all Char.isAlphanum &&
    s.toList.all fun c => isOpaqueChar c || c == '.'

/-- `Context`, with the checks of `__post_init__`. -/
structure Context where
  networkId : String
  application : String
  genesisHash : String
  mediaPolicyDigest : String
  reviewPolicyDigest : String
  networkId_valid : isNetworkId networkId = true
  application_valid : isApplication application = true
  hashes_valid : ∀ h ∈ [genesisHash, mediaPolicyDigest, reviewPolicyDigest],
    isHexAfter "" 64 h = true

/-- `Context.media_policy_id`. -/
def Context.mediaPolicyId (ctx : Context) : String := ctx.networkId ++ "/media-admission/2"

/-- The cryptography that the repository takes from its libraries. -/
structure Crypto where
  /-- `hashlib.sha256(raw).hexdigest()`. -/
  sha256Hex : ByteArray → String
  sha256Hex_isHex64 : ∀ raw, IsHex64 (sha256Hex raw)
  /-- `Account.recover_message(encode_defunct(primitive=message), signature=sig)`, or nothing
  when it raises. -/
  recoverMessage : ByteArray → String → Option String
  /-- `EllipticCurvePublicKey.from_encoded_point` accepts the bytes. -/
  isPublicKey : List UInt8 → Bool

/-- `envelope`, for one of its purposes. -/
def envelope (payload : Value) (purpose : String) (ctx : Context) : Value :=
  .dict [("domain", .str ("zoidbergchain/" ++ purpose ++ "/v2")),
    ("network_id", .str ctx.networkId), ("object_type", .str purpose), ("payload", payload),
    ("protocol", .str "zoidbergchain"), ("protocol_version", .int 2)]

/-! ## Commitments -/

/-- `digest`. -/
def digest (crypto : Crypto) (v : Value) : Py String := do
  let raw ← canonical v
  .ok (crypto.sha256Hex raw)

/-- `{k: v for k, v in value.items() if k != key}`. -/
def withoutKey (v : Value) (key : String) : Value :=
  match v with
  | .dict d => .dict (d.filter fun e => e.1 ≠ key)
  | _ => v

/-- `without_digest`. -/
def withoutDigest (crypto : Crypto) (v : Value) (key : String) : Py Unit := do
  let stated ← h64 (v.field key)
  let actual ← digest crypto (withoutKey v key)
  require (stated = actual) (v3Error "digest_mismatch")

/-- `bounded`. -/
def bounded (v : Value) (limit : Nat) : Py Unit := do
  let raw ← canonical v
  require (raw.size ≤ limit) (v3Error "component_size")

/-- `fixed`: equality of canonical bytes, so that `true` is not the integer one. -/
def fixed (v expected : Value) : Py Unit := do
  let raw ← canonical v
  let wanted ← canonical expected
  require (raw = wanted) (v3Error "fixed_value")

/-- `fields_equal`. -/
def fieldsEqual (v : Value) (expected : Dict) : Py Unit :=
  expected.forM fun e => fixed (v.field e.1) e.2

/-- `verify_signature`. -/
def verifySignature (crypto : Crypto) (message : ByteArray) (sig expected : Value) : Py Unit := do
  let sig ← signature sig
  let expected ← wallet expected
  let recovered ← orRaise (crypto.recoverMessage message sig) (v3Error "signature_recovery")
  require (recovered.toLower = expected) (v3Error "signature_signer")

/-! ## Ratios -/

/-- `rational`. -/
def rational (positive decisive : Int) : Py Value := do
  let _ ← uint (.int positive) 0 16
  let _ ← uint (.int decisive) 0 16
  require (positive ≤ decisive) (v3Error "ratio_counts")
  require (0 < decisive) (v3Error "undefined_ratio")
  let divisor : Int := Int.gcd positive decisive
  .ok (.dict [("numerator", .int (positive / divisor)),
    ("denominator", .int (decisive / divisor))])

/-- `validate_rational`. -/
def validateRational (v : Value) : Py Unit := do
  let _ ← closed v ["numerator", "denominator"] []
  let n ← uint (v.field "numerator") 0 15
  let d ← uint (v.field "denominator") 1 16
  require (n ≤ d ∧ Int.gcd n d = 1) (v3Error "noncanonical_ratio")

/-! ## Size bounds -/

/-- The width of an object by its fields: `2 + len(widths) - 1 + sum(len(k) + 3 + v
for k, v in widths.items())`. -/
def objectWidth (widths : List (String × Nat)) : Nat :=
  2 + (widths.length - 1) + (widths.map fun e => e.1.length + 3 + e.2).sum

end CanonicalV3

end ZoidbergChain
