import ZoidbergChain.CanonicalV3.Media
import ZoidbergChain.Codec.Bits

/-!
# The decoding worker (strict_decoder.py, isolated_decoder.py)

The isolated worker reads a descriptor on its own: the bytes, the fields, the stored frame and
the digest of what comes out. The sequence verifier and the native decoder are parameters, and
so are the operational failures of the process.
-/

namespace ZoidbergChain

open Python

namespace CanonicalV3

namespace Worker

/-- `MAX_SIZE`. -/
def maxSize : Nat := 2 * 1024 * 1024

/-- `MAX_WINDOW`. -/
def maxWindow : Nat := 262144

/-- `MAX_BLOCKS`. -/
def maxBlocks : Nat := 64

/-- `KEYS`. -/
def keys : List String :=
  ["encoding_version", "codec_id", "codec_version", "original_size", "stored_size", "mime_type",
    "original_sha256", "payload"]

/-- `MIMES` of the worker. -/
def workerMimes : List String :=
  ["text/plain", "image/jpeg", "image/png", "image/gif", "image/webp"]

/-- `reject`: a `CodecReject`, with its code and its stage. -/
def reject (code : String) (stage : String := "descriptor") : PyError where
  exc := .valueError
  message := stage ++ ":" ++ code
  code := some code
  details := [("stage", .str stage)]

/-! ## Reading a descriptor -/

/-- One byte of the loop that refuses nested containers. -/
def flatStep (s : Scan) (b : UInt8) : Py Scan :=
  if s.quoted then
    if s.escaped then .ok { s with escaped := false }
    else if b = 92 then .ok { s with escaped := true }
    else if b = 34 then .ok { s with quoted := false }
    else .ok s
  else if b = 34 then .ok { s with quoted := true }
  else if b = 123 ∨ b = 91 then
    if s.depth + 1 > 1 ∨ b = 91 then .error (reject "json_shape")
    else .ok { s with depth := s.depth + 1 }
  else if b = 125 ∨ b = 93 then .ok { s with depth := s.depth - 1 }
  else .ok s

/-- `pairs`. -/
def pairs (es : List (String × Value)) : Py Dict :=
  if (es.map Prod.fst).Nodup then .ok es else .error (reject "duplicate_key")

/-- `int(token)`, which refuses more than 4300 digits. -/
def integerToken (token : List Char) : Py Int :=
  let digits := if token.head? = some '-' then token.tail else token
  let n : Int := (Nat.ofDigitChars 10 digits 0 : Nat)
  if digits.length ≤ 4300 then .ok (if token.head? = some '-' then -n else n)
  else .error (reject "json_syntax")

/-- The hooks of `parse_descriptor`. No field of a descriptor is a float: where Python reads
one and refuses it by its type, it is refused at once here. -/
def hooks : Json.Hooks where
  integer := integerToken
  forbidden := reject "integer_type"
  pairs := pairs
  malformed := reject "json_syntax"
  surrogate := reject "json_syntax"

/-- `parse_descriptor`. -/
def parseDescriptor (raw : ByteArray) : Py Value := do
  require (raw.size ≤ 4 * ((maxSize + 2) / 3) + 2048) (reject "json_size")
  let _ ← raw.data.toList.foldlM flatStep {}
  let decoded ← orRaise (String.fromUTF8? raw) (reject "json_syntax")
  let v ← Json.loads hooks decoded
  let canonical ← Json.dumps false v
  require (encodeUtf8 canonical = raw) (reject "noncanonical_json")
  .ok v

/-! ## The fields -/

/-- `type(descriptor[name]) is int`. -/
def intField (v : Value) (name : String) : Py Int :=
  match v.field name with
  | .int n => .ok n
  | _ => .error (reject "integer_type")

/-- A text of a list of choices, none longer than a bound. -/
def choiceField (v : Value) (name : String) (length : Nat) (choices : List String)
    (code : String) : Py String :=
  match v.field name with
  | .str s => if s.length ≤ length ∧ s ∈ choices then .ok s else .error (reject code)
  | _ => .error (reject code)

/-- The keys of the descriptor are `KEYS`. -/
def HasKeys : Value → Prop
  | .dict d => (∀ key ∈ Dict.keys d, key ∈ keys) ∧ ∀ key ∈ keys, key ∈ Dict.keys d
  | _ => False

instance : DecidablePred HasKeys := fun v => by
  cases v <;> unfold HasKeys <;> infer_instance

/-- `_payload`: the stored bytes. -/
def payload (v : Value) : Py (List UInt8) := do
  require (HasKeys v) (reject "keys")
  let encodingVersion ← intField v "encoding_version"
  let codecVersion ← intField v "codec_version"
  let originalSize ← intField v "original_size"
  let storedSize ← intField v "stored_size"
  require (encodingVersion = 1) (reject "encoding_version")
  let _ ← choiceField v "codec_id" 8 ["identity", "zstd"] "codec_profile"
  require (codecVersion = 1) (reject "codec_profile")
  require (1 ≤ originalSize ∧ originalSize ≤ maxSize) (reject "original_size_limit")
  require (1 ≤ storedSize ∧ storedSize ≤ maxSize) (reject "stored_size_limit")
  let _ ← choiceField v "mime_type" 10 workerMimes "mime_type"
  let _ ← match v.field "original_sha256" with
    | .str digest => require (isHexAfter "" 64 digest = true) (reject "hash_format")
    | _ => .error (reject "hash_format")
  let text ← match v.field "payload" with
    | .str text => do
      require (text.length = 4 * ((storedSize.toNat + 2) / 3)) (reject "base64_length")
      pure text
    | _ => .error (reject "base64_length")
  let encoded ← orRaise (Base64.decode text.toList) (reject "base64_syntax")
  require (encoded.length = storedSize.toNat) (reject "stored_size_mismatch")
  require (Base64.encode encoded = text.toList) (reject "base64_noncanonical")
  return encoded

/-! ## Frames -/

/-- `FrameInfo`. -/
structure FrameInfo where
  contentSize : Nat
  window : Nat
  headerSize : Nat
  blockCount : Nat
  blockTypes : List Nat
  deriving DecidableEq

/-- `take`: so many bytes, and the rest. -/
def take (count : Nat) (rest : List UInt8) : Py (List UInt8 × List UInt8) :=
  if count > rest.length then .error (reject "truncated" "frame")
  else .ok (rest.take count, rest.drop count)

/-- The walk over the blocks behind the header: their kinds, and the bytes behind the last
one. `left` is how many blocks a frame may still have. -/
def walkBlocks (window : Nat) : Nat → List UInt8 → Py (List Nat × List UInt8)
  | 0, _ => .error (reject "block_count" "frame")
  | left + 1, rest => do
    let (head, rest) ← take 3 rest
    let block := Codec.ofBytesLittle head
    let kind := block / 2 % 4
    let count := block / 8
    require (kind ≠ 3) (reject "block_type" "frame")
    require (count ≤ min window 131072) (reject "block_size" "frame")
    let (_, rest) ← take (if kind = 1 then 1 else count) rest
    if block % 2 = 1 then return ([kind], rest)
    let (kinds, rest) ← walkBlocks window left rest
    return (kind :: kinds, rest)

/-- The number of bytes of the content size that the frame descriptor announces. -/
def contentSizeWidth (descriptor : Nat) : Nat :=
  match descriptor / 64 with
  | 0 => if descriptor / 32 % 2 = 1 then 1 else 0
  | 1 => 2
  | 2 => 4
  | _ => 8

/-- The window that the byte behind the frame descriptor names. -/
def windowOf (value : Nat) : Nat :=
  let base := 2 ^ (10 + value / 8)
  base + base / 8 * (value % 8)

/-- `inspect_frame`. -/
def inspectFrame (encoded : List UInt8) (originalSize : Int) : Py FrameInfo := do
  require (1 ≤ encoded.length ∧ encoded.length ≤ maxSize) (reject "stored_size_limit" "frame")
  require (1 ≤ originalSize ∧ originalSize ≤ maxSize) (reject "original_size_limit" "frame")
  let (magic, rest) ← take 4 encoded
  let magic := Codec.ofBytesLittle magic
  require (¬(0x184D2A50 ≤ magic ∧ magic ≤ 0x184D2A5F)) (reject "skippable" "frame")
  require (magic = 0xFD2FB528) (reject "magic" "frame")
  let (descriptor, rest) ← take 1 rest
  let descriptor := Codec.ofBytesLittle descriptor
  require (descriptor / 8 % 4 = 0) (reject "reserved_flags" "frame")
  require (descriptor % 4 = 0) (reject "dictionary" "frame")
  require (descriptor / 4 % 2 = 1) (reject "checksum_required" "frame")
  let single := descriptor / 32 % 2 = 1
  let (named, rest) ← take (if single then 0 else 1) rest
  let width := contentSizeWidth descriptor
  require (width ≠ 0) (reject "content_size_required" "frame")
  let (size, rest) ← take width rest
  let size := Codec.ofBytesLittle size + if width = 2 then 256 else 0
  require ((size : Int) = originalSize) (reject "content_size_mismatch" "frame")
  let window := if single then size else windowOf (Codec.ofBytesLittle named)
  require (window ≤ maxWindow) (reject "window_limit" "frame")
  let headerSize := encoded.length - rest.length
  let (kinds, rest) ← walkBlocks window maxBlocks rest
  let (_, rest) ← take 4 rest
  require (rest = []) (reject "trailing_data" "frame")
  return ⟨size, window, headerSize, kinds.length, kinds⟩

/-! ## Decoding -/

/-- The parts of the worker that are not read here. -/
structure Machine where
  /-- `verify_sequences`. -/
  verifySequences : List UInt8 → FrameInfo → Py Unit
  /-- `_decode_native`. -/
  decodeNative : List UInt8 → FrameInfo → Py (List UInt8)
  /-- The reason of a failure before the descriptor is read: the decoder is closed, busy or
  cancelled. -/
  busy : ByteArray → Option String
  /-- The reason of a failure of the process: its start, its limits, its exit. -/
  failure : ByteArray → Option String

/-- `except VerificationReject as exc: reject(str(exc), "decode")`. -/
def asReject (x : Py Unit) : Py Unit :=
  exceptValueError x fun e => .error (reject e.message "decode")

/-- `decode`: the original. -/
def decode (crypto : Crypto) (machine : Machine) (v : Value) : Py (List UInt8) := do
  let encoded ← payload v
  let size := v.intAt "original_size"
  let original ←
    if v.textAt "codec_id" = "identity" then do
      require ((encoded.length : Int) = size) (reject "identity_size" "frame")
      pure encoded
    else do
      let info ← inspectFrame encoded size
      asReject (machine.verifySequences encoded info)
      machine.decodeNative encoded info
  require (crypto.sha256Hex original.toByteArray = v.textAt "original_sha256")
    (reject "original_hash" "integrity")
  return original

/-- `[a-z][a-z0-9_]{0,63}`. -/
def isCode (code : String) : Bool :=
  match code.toList with
  | [] => false
  | c :: cs => c.isLower && cs.length ≤ 63 && cs.all fun d => d.isLower || d.isDigit || d == '_'

/-- The stage of a `CodecReject`. -/
def stageOf (e : PyError) : String :=
  match e.details.get "stage" with
  | .str s => s
  | _ => ""

/-- The answer of a process about a descriptor, as `_response` takes it: a refusal without a
stage or a code of the protocol is a failure, and so is an output other than the descriptor
announces. -/
def response (crypto : Crypto) (v : Value) : Py (List UInt8) → Outcome
  | .ok original =>
    if 1 ≤ original.length ∧ original.length ≤ maxSize ∧
        (original.length : Int) = v.intAt "original_size" ∧
        crypto.sha256Hex original.toByteArray = v.textAt "original_sha256" then
      { status := .valid, original := some original }
    else { status := .indeterminate, reason := some "malformed_response" }
  | .error e =>
    if e.exc = .valueError then
      if stageOf e ∈ ["descriptor", "frame", "decode", "integrity"] ∧
          isCode (e.code.getD "") = true then
        { status := .invalid, stage := some (stageOf e), code := e.code }
      else { status := .indeterminate, reason := some "malformed_response" }
    else if e.exc = .unavailable then
      { status := .indeterminate, reason := some "worker_decoder_unavailable" }
    else { status := .indeterminate, reason := some "worker_worker_internal" }

/-- `IsolatedDecoder.validate`: the process parses the descriptor again and decodes it. -/
def validate (crypto : Crypto) (machine : Machine) (raw : ByteArray) : Outcome :=
  match machine.busy raw with
  | some reason => { status := .indeterminate, reason := some reason }
  | none =>
    match parseDescriptor raw with
    | .error e => { status := .invalid, stage := some (stageOf e), code := e.code }
    | .ok v =>
      match machine.failure raw with
      | some reason => { status := .indeterminate, reason := some reason }
      | none => response crypto v (decode crypto machine v)

end Worker

end CanonicalV3

end ZoidbergChain
