import ZoidbergChain.Python.Number

/-!
# The host of a node

What the node takes from outside the repository: SHA-256, Ethereum message
recovery, ISO 8601 parsing, JSON parsing. Each is a function with the few laws
that are documented about it; nothing is assumed about which signature recovers
which signer.
-/

namespace ZoidbergChain

open Python

/-- 64 lower-case hexadecimal digits. -/
def IsHex64 (s : String) : Prop := s.toList.length = 64 ∧ s.toList.all isLowerHex = true

instance (s : String) : Decidable (IsHex64 s) := inferInstanceAs (Decidable (_ ∧ _))

/-- `is_valid_content_hash`. -/
def isValidContentHash : Value → Bool
  | .str s => decide (IsHex64 (strip s))
  | _ => false

/-- The outcome of `datetime.fromisoformat(s)`, converted to UTC when it has an
offset: `astimezone` raises `OverflowError` at the ends of the calendar. -/
inductive IsoTimestamp where
  | malformed
  | naive
  | outOfRange
  | utc (isoformat : String)
  deriving DecidableEq

/-- The functions of the host. -/
structure Host extends Runtime where
  /-- `hashlib.sha256(data).hexdigest()`. -/
  sha256Hex : ByteArray → String
  sha256Hex_isHex64 : ∀ data, IsHex64 (sha256Hex data)
  /-- `Account.recover_message(encode_defunct(text=message), signature=signature)`:
  the recovered address, or nothing when it raises. -/
  recoverMessage : String → String → Option String
  /-- `datetime.fromisoformat`. -/
  fromIsoformat : String → IsoTimestamp
  /-- A UTC `isoformat()` is an ISO timestamp of itself, written with a numeric
  offset and without white space. -/
  fromIsoformat_utc : ∀ s t, fromIsoformat s = .utc t →
    fromIsoformat t = .utc t ∧ t ≠ "" ∧ strip t = t ∧ 'Z' ∉ t.toList
  /-- `datetime.fromtimestamp(seconds, tz=timezone.utc).isoformat()`. -/
  fromTimestamp : PyFloat → Py String
  /-- `json.loads`, or nothing when it raises a `ValueError`. -/
  jsonLoads : String → Option Value

/-- The UTF-8 encoding of a text. -/
def encodeUtf8 (s : String) : ByteArray := s.toUTF8

theorem encodeUtf8_inj {s t : String} : encodeUtf8 s = encodeUtf8 t ↔ s = t := by
  exact String.toByteArray_inj

/-- A host that is small enough to be evaluated: one digest, one recovered signer, one
event time and one JSON document. -/
def Host.sample (signer : Option String) (document : Option Value) : Host where
  toRuntime := asciiRuntime
  sha256Hex _ := "aaaaaaaaaaaaaaaaaaaaaaaaaaaaaaaaaaaaaaaaaaaaaaaaaaaaaaaaaaaaaaaa"
  sha256Hex_isHex64 _ := by decide
  recoverMessage _ _ := signer
  fromIsoformat s := if s = "2026-08-02T00:00:00+00:00" then .utc s else .malformed
  fromIsoformat_utc s t h := by
    split at h
    · next hs =>
      obtain rfl := IsoTimestamp.utc.inj h
      subst hs
      decide
    · cases h
  fromTimestamp _ := .ok "2026-08-02T00:00:00+00:00"
  jsonLoads _ := document

end ZoidbergChain
