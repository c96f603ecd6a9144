import ZoidbergChain.CanonicalV3.Fields
import ZoidbergChain.Python.Base64

/-!
# Media descriptors

canonical_v3/media.py: the descriptor of stored media, its production and its reconstruction.
The compressor and the decoding worker are parameters.
-/

namespace ZoidbergChain

open Python

namespace CanonicalV3

/-! ## Descriptors -/

/-- `MAX_IMAGE`, which is `MAX_ENCODED` too. -/
def maxImage : Nat := 2097152

/-- `MAX_TEXT`. -/
def maxText : Nat := 262144

/-- `MIMES`. -/
def mimes : List String := ["text/plain", "image/jpeg", "image/png", "image/gif", "image/webp"]

/-- The largest original of a type. -/
def maxOriginal (mime : String) : Nat := if mime = "text/plain" then maxText else maxImage

def descriptorFields : List String :=
  ["codec_id", "codec_version", "encoding_version", "mime_type", "original_sha256",
    "original_size", "payload", "stored_size"]

/-- `type(value) is str and value in choices`. -/
def oneOf (v : Value) (choices : List String) (code : String) : Py String :=
  match v with
  | .str s => if s ∈ choices then .ok s else .error (v3Error code)
  | _ => .error (v3Error code)

/-- `type(value) is str and len(value) == n`. -/
def textOfLength (v : Value) (n : Nat) (code : String) : Py String :=
  match v with
  | .str s => if s.length = n then .ok s else .error (v3Error code)
  | _ => .error (v3Error code)

/-- `validate_descriptor`: the stored bytes. -/
def validateDescriptor (v : Value) : Py (List UInt8) := do
  let _ ← closed v descriptorFields []
  let codec ← oneOf (v.field "codec_id") ["identity", "zstd"] "codec_profile"
  let _ ← uint (v.field "codec_version") 1 1
  let _ ← uint (v.field "encoding_version") 1 1
  let mime ← oneOf (v.field "mime_type") mimes "mime_type"
  let original ← uint (v.field "original_size") 1 (maxOriginal mime)
  let stored ← uint (v.field "stored_size") 1 maxImage
  let _ ← h64 (v.field "original_sha256")
  let payload ← textOfLength (v.field "payload") (4 * ((stored.toNat + 2) / 3)) "base64_length"
  let encoded ← orRaise (Base64.decode payload.toList) (v3Error "base64_syntax")
  require (encoded.length = stored.toNat ∧ Base64.encode encoded = payload.toList)
    (v3Error "base64_noncanonical")
  require (codec = "identity" → stored = original) (v3Error "identity_size")
  .ok encoded

/-- `descriptor`. -/
def descriptor (crypto : Crypto) (original encoded : List UInt8) (mime codec : String) :
    Py Value := do
  let v : Value := .dict [("codec_id", .str codec), ("codec_version", .int 1),
    ("encoding_version", .int 1), ("mime_type", .str mime),
    ("original_sha256", .str (crypto.sha256Hex original.toByteArray)),
    ("original_size", .int original.length),
    ("payload", .str (String.ofList (Base64.encode encoded))),
    ("stored_size", .int encoded.length)]
  let _ ← validateDescriptor v
  .ok v

/-! ## Canonical text -/

/-- `value.replace('\r\n', '\n').replace('\r', '\n')`. -/
def normalLines : List Char → List Char
  | '\r' :: '\n' :: cs => '\n' :: normalLines cs
  | '\r' :: cs => '\n' :: normalLines cs
  | c :: cs => c :: normalLines cs
  | [] => []

/-- A control character that a text may not have. -/
def isControl (c : Char) : Bool :=
  (decide (c.toNat < 32) && c != '\t' && c != '\n' && c != '\r') ||
    decide (127 ≤ c.toNat ∧ c.toNat ≤ 159)

/-- `canonical_text`: the characters of `EDGE_SPACE` are those of `str.isspace`. -/
def canonicalOriginal (original : List UInt8) : Py Unit := do
  let s ← orRaise (String.fromUTF8? original.toByteArray) (v3Error "text_utf8")
  require (s ≠ "" ∧ stripChars (normalLines s.toList) = s.toList) (v3Error "text_noncanonical")
  require ((s.toList.any isControl) = false) (v3Error "text_control")

/-! ## Production and reconstruction -/

/-- `Status`. -/
inductive Status where
  | valid
  | invalid
  | indeterminate
  deriving DecidableEq

/-- `Outcome`, without its metrics. -/
structure Outcome where
  status : Status
  original : Option (List UInt8) := none
  stage : Option String := none
  code : Option String := none
  reason : Option String := none
  deriving DecidableEq

/-- The workers of one call: the compressor of `zstandard`, which may be missing, and the
isolated decoder. -/
structure Workers where
  compress : List UInt8 → Option (List UInt8)
  decode : ByteArray → Outcome

/-- `reconstruct`. -/
def reconstruct (crypto : Crypto) (workers : Workers) (v : Value) : Outcome :=
  match (do let _ ← validateDescriptor v; canonical v : Py ByteArray) with
  | .error e => { status := .invalid, stage := some "v3_descriptor", code := e.code }
  | .ok raw =>
    let result := workers.decode raw
    if result.status ≠ .valid then result
    else match result.original with
      | none => { status := .indeterminate, reason := some "coordinator_output_mismatch" }
      | some original =>
        if (original.length : Int) ≠ v.intAt "original_size" ∨
            crypto.sha256Hex original.toByteArray ≠ v.textAt "original_sha256" then
          { status := .indeterminate, reason := some "coordinator_output_mismatch" }
        else if v.textAt "mime_type" = "text/plain" then
          match canonicalOriginal original with
          | .error e => { status := .invalid, stage := some "v3_text", code := e.code }
          | .ok () => result
        else result

/-- The descriptor that `produce` picks before the worker has seen it: the compressed one when
its text is shorter. -/
def select (crypto : Crypto) (workers : Workers) (original : List UInt8) (mime : String) :
    Py (Value × Value) := do
  let identity ← descriptor crypto original original mime "identity"
  match workers.compress original with
  | none => .ok (identity, identity)
  | some encoded =>
    if 1 ≤ encoded.length ∧ encoded.length ≤ maxImage then do
      let compressed ← descriptor crypto original encoded mime "zstd"
      let short ← canonical compressed
      let long ← canonical identity
      .ok (identity, if short.size < long.size then compressed else identity)
    else .ok (identity, identity)

/-- `produce`: the descriptor, if the worker accepts it, and the last outcome. -/
def produce (crypto : Crypto) (workers : Workers) (original : List UInt8) (mime : String) :
    Py (Option Value × Outcome) := do
  require (mime ∈ mimes) (v3Error "media_input")
  require (1 ≤ original.length ∧ original.length ≤ maxOriginal mime) (v3Error "original_size")
  (if mime = "text/plain" then canonicalOriginal original else .ok ())
  let (identity, selected) ← select crypto workers original mime
  let result := reconstruct crypto workers selected
  if result.status = .invalid ∧ selected.textAt "codec_id" = "zstd" then
    let again := reconstruct crypto workers identity
    .ok (if again.status = .valid then some identity else none, again)
  else .ok (if result.status = .valid then some selected else none, result)

end CanonicalV3

end ZoidbergChain
