import ZoidbergChain.Host
import ZoidbergChain.Python.Json

/-!
# Protocol v1 canonical serialization (protocol_v1.py)

Network identifiers, canonical JSON and the domain envelope that every hashed
object is put in.

- `canonicalJsonData` is `_normalize_canonical_value`: it rejects floats, sorts the
  keys, and keeps `bytes`, which stand for the canonical bytes object
  `{"$type", "$encoding", "$value"}`; a plain dictionary of that shape is rejected.
- `canonicalDomainBytes` wraps a payload in the envelope of its domain and network.
-/

namespace ZoidbergChain

open Python

def protocolName : String := "zoidbergchain"
def protocolVersion : Int := 1

/-- `OBJECT_TYPES`. -/
inductive ObjectType where
  | block
  | originalityCertificate
  | submission
  | submitterAttestation
  | vote
  | nativeTransfer
  | finalityAttestation
  | peerMessage
  | genesis
  deriving DecidableEq

def ObjectType.name : ObjectType → String
  | .block => "block"
  | .originalityCertificate => "originality-certificate"
  | .submission => "submission"
  | .submitterAttestation => "submitter-attestation"
  | .vote => "vote"
  | .nativeTransfer => "native-transfer"
  | .finalityAttestation => "finality-attestation"
  | .peerMessage => "peer-message"
  | .genesis => "genesis"

/-- `OBJECT_DOMAINS[object_type]`. -/
def protocolDomain (objectType : ObjectType) : String :=
  protocolName ++ "/" ++ objectType.name ++ "/v1"

/-- An optional text as a value. -/
def optionText : Option String → Value
  | some s => .str s
  | none => .null

/-! ## Network identifiers -/

/-- A character of `[a-z0-9]`. -/
def isLowerAlnum (c : Char) : Bool := c.isDigit || c.isLower

/-- `_NETWORK_ID_PATTERN.fullmatch`: `[a-z0-9][a-z0-9-]{2,63}`. -/
def isValidNetworkId (s : String) : Bool :=
  match s.toList with
  | [] => false
  | c :: cs => isLowerAlnum c && decide (2 ≤ cs.length ∧ cs.length ≤ 63) &&
      cs.all fun c => isLowerAlnum c || c == '-'

/-- `normalize_network_id`. -/
def normalizeNetworkId (h : Host) (value : Value) : Py String :=
  match value with
  | .str s =>
    let normalized := h.lower (strip s)
    if isValidNetworkId (strip normalized) then .ok normalized
    else .error (.value s!"Invalid network_id: {h.repr value}.")
  | _ => .error (.value "network_id must be a string.")

/-- `resolve_network_id(network_name=...)`: the two known names. -/
def resolveNetworkId (networkName : String) : Py String :=
  let normalizedName := strip networkName
  if normalizedName = "" then
    .error (.value "network_name is required when network_id is not provided.")
  else if normalizedName = "zoidberg-testnet" ∨ normalizedName = "zoidberg-public-testnet-v1" then
    .ok "zoidberg-public-testnet-v1"
  else .error (.value s!"Unknown network_name for Protocol v1 network identity: {networkName}.")

/-! ## Canonical JSON -/

/-- The keys of the canonical bytes object. -/
def bytesTagKeys : List String := ["$encoding", "$type", "$value"]

/-- `set(d.keys()) == _CANONICAL_BYTES_TAG_KEYS`. -/
def isBytesTagged (es : List (String × Value)) : Bool :=
  es.all (fun e => bytesTagKeys.contains e.1) && bytesTagKeys.all fun k => es.any (·.1 == k)

mutual

/-- `_normalize_canonical_value`. -/
def canonicalJsonData : Value → Py Value
  | .null => .ok .null
  | .bool b => .ok (.bool b)
  | .int n => .ok (.int n)
  | .str s => .ok (.str s)
  | .bytes b => .ok (.bytes b)
  | .float .nan => .error (.value "Canonical serialization does not support NaN.")
  | .float (.inf _) => .error (.value "Canonical serialization does not support Infinity.")
  | .float (.finite _) =>
    .error (.value "Canonical serialization does not support float values.")
  | .list xs => do return .list (← canonicalJsonItems xs)
  | .dict es => do
    require (isBytesTagged es = false) (.value
      ("Canonical serialization reserves the exact " ++
        "\x7b'$type', '$encoding', '$value'\x7d object shape for bytes."))
    return .dict (Json.sortEntries (← canonicalJsonEntries es))

def canonicalJsonItems : List Value → Py (List Value)
  | [] => .ok []
  | x :: xs => do return (← canonicalJsonData x) :: (← canonicalJsonItems xs)

def canonicalJsonEntries : List (String × Value) → Py (List (String × Value))
  | [] => .ok []
  | (k, v) :: es => do return (k, ← canonicalJsonData v) :: (← canonicalJsonEntries es)

end

/-- `raw.hex()`. -/
def hexText (b : List UInt8) : String :=
  String.ofList (b.flatMap fun x => [Nat.digitChar (x.toNat / 16), Nat.digitChar (x.toNat % 16)])

/-- `encode_canonical_bytes`, with its keys in canonical order. -/
def encodeCanonicalBytes (b : List UInt8) : Dict :=
  [("$encoding", .str "hex"), ("$type", .str "bytes"), ("$value", .str (hexText b))]

/-- The value of a lower-case hexadecimal digit. -/
def hexDigitValue (c : Char) : Nat := if c.isDigit then c.toNat - 48 else c.toNat - 87

/-- `bytes.fromhex` of lower-case digits. -/
def readHex : List Char → Option (List UInt8)
  | [] => some []
  | [_] => none
  | a :: b :: cs =>
    if isLowerHex a ∧ isLowerHex b then
      (readHex cs).map (UInt8.ofNat (16 * hexDigitValue a + hexDigitValue b) :: ·)
    else none

/-- A lower-case digit is the one of its value. -/
theorem digitChar_hexDigitValue {c : Char} (h : isLowerHex c = true) :
    hexDigitValue c < 16 ∧ Nat.digitChar (hexDigitValue c) = c := by
  have hall : ∀ n < 103, isLowerHex (Char.ofNat n) = true →
      hexDigitValue (Char.ofNat n) < 16 ∧
        Nat.digitChar (hexDigitValue (Char.ofNat n)) = Char.ofNat n := by decide
  have hlt : c.toNat < 103 := by
    simp only [isLowerHex, Char.isDigit, Bool.or_eq_true, Bool.and_eq_true, decide_eq_true_eq,
      Char.le_def, UInt32.le_iff_toNat_le] at h
    obtain ⟨-, h⟩ | ⟨-, h⟩ := h
    · exact lt_of_le_of_lt h (by decide)
    · exact lt_of_le_of_lt h (by decide)
  have hc := hall c.toNat hlt
  rw [Char.ofNat_toNat] at hc
  exact hc h

/-- The bytes that lower-case digits write have these digits. -/
theorem hexText_of_readHex {cs : List Char} {b : List UInt8} (h : readHex cs = some b) :
    hexText b = String.ofList cs := by
  induction cs using readHex.induct generalizing b with
  | case1 =>
    cases h
    rfl
  | case2 => cases h
  | case3 c d cs hhex ih =>
    rw [readHex, if_pos hhex] at h
    obtain ⟨bs, hbs, rfl⟩ := Option.map_eq_some_iff.mp h
    obtain ⟨hc, hcd⟩ := digitChar_hexDigitValue hhex.1
    obtain ⟨hd, hdd⟩ := digitChar_hexDigitValue hhex.2
    have hbyte : (UInt8.ofNat (16 * hexDigitValue c + hexDigitValue d)).toNat =
        16 * hexDigitValue c + hexDigitValue d := by
      rw [UInt8.toNat_ofNat']
      omega
    have hrest := String.ofList_injective (ih hbs)
    rw [hexText, List.flatMap_cons, hrest, hbyte]
    have hhigh : (16 * hexDigitValue c + hexDigitValue d) / 16 = hexDigitValue c := by omega
    have hlow : (16 * hexDigitValue c + hexDigitValue d) % 16 = hexDigitValue d := by omega
    rw [hhigh, hlow, hcd, hdd]
    rfl
  | case4 c d cs hhex =>
    rw [readHex, if_neg hhex] at h
    cases h

/-- The digits of bytes write these bytes. -/
theorem readHex_hexText (b : List UInt8) : readHex (hexText b).toList = some b := by
  have hdigit : ∀ d < 16, isLowerHex (Nat.digitChar d) = true ∧
      hexDigitValue (Nat.digitChar d) = d := by decide
  rw [hexText, String.toList_ofList]
  induction b with
  | nil => rfl
  | cons x b ih =>
    have hx := x.toNat_lt
    obtain ⟨hhigh, hhighv⟩ := hdigit (x.toNat / 16) (by omega)
    obtain ⟨hlow, hlowv⟩ := hdigit (x.toNat % 16) (by omega)
    rw [List.flatMap_cons, List.cons_append, List.cons_append, List.nil_append, readHex,
      if_pos ⟨hhigh, hlow⟩, ih, hhighv, hlowv]
    have hsum : 16 * (x.toNat / 16) + x.toNat % 16 = x.toNat := by omega
    rw [hsum, UInt8.ofNat_toNat]
    rfl

theorem length_hexText (b : List UInt8) : (hexText b).toList.length = 2 * b.length := by
  rw [hexText, String.toList_ofList]
  induction b with
  | nil => rfl
  | cons x b ih =>
    rw [List.flatMap_cons, List.length_append, ih]
    simp only [List.length_cons, List.length_nil]
    omega

/-- Lower-case digits, two for a byte, write bytes. -/
theorem readHex_of_isLowerHex {cs : List Char} {n : Nat} (hlength : cs.length = 2 * n)
    (hhex : ∀ c ∈ cs, isLowerHex c = true) : ∃ b, readHex cs = some b ∧ b.length = n := by
  induction n generalizing cs with
  | zero =>
    obtain rfl := List.length_eq_zero_iff.mp hlength
    exact ⟨[], rfl, rfl⟩
  | succ n ih =>
    match cs with
    | [] => simp at hlength
    | [_] => simp at hlength; omega
    | c :: d :: cs =>
      obtain ⟨b, hb, hn⟩ := @ih cs (by simp at hlength; omega)
        fun x hx => hhex x (by simp [hx])
      refine ⟨UInt8.ofNat (16 * hexDigitValue c + hexDigitValue d) :: b, ?_, by simp [hn]⟩
      rw [readHex, if_pos ⟨hhex c (by simp), hhex d (by simp)⟩, hb]
      rfl

/-- `decode_canonical_bytes`. -/
def decodeCanonicalBytes : Value → Py (List UInt8)
  | .dict es => do
    require (isBytesTagged es = true) (.value
      "Canonical bytes object must contain exactly $type, $encoding, and $value.")
    require (Dict.get es "$type" = .str "bytes")
      (.value "Canonical bytes object must declare $type='bytes'.")
    require (Dict.get es "$encoding" = .str "hex")
      (.value "Canonical bytes object must declare $encoding='hex'.")
    match Dict.get es "$value" with
    | .str data =>
      match readHex data.toList with
      | some raw => .ok raw
      | none => .error (.value "Canonical bytes $value must be lowercase hexadecimal.")
    | _ => .error (.value "Canonical bytes object must include a string $value.")
  | _ => .error (.value "Canonical bytes value must be an object.")

mutual

/-- Write the canonical bytes objects out. -/
def expandBytes : Value → Value
  | .bytes b => .dict (encodeCanonicalBytes b)
  | .list xs => .list (expandItems xs)
  | .dict es => .dict (expandEntries es)
  | .null => .null
  | .bool b => .bool b
  | .int n => .int n
  | .float f => .float f
  | .str s => .str s

def expandItems : List Value → List Value
  | [] => []
  | x :: xs => expandBytes x :: expandItems xs

def expandEntries : List (String × Value) → List (String × Value)
  | [] => []
  | (k, v) :: es => (k, expandBytes v) :: expandEntries es

end

/-- `canonical_json_text`. The data is in canonical order, so that `sort_keys`
changes nothing. -/
def canonicalJsonText (v : Value) : Py String := do
  return String.ofList (Json.render false (expandBytes (← canonicalJsonData v)))

/-- `canonical_json_bytes`. -/
def canonicalJsonBytes (v : Value) : Py ByteArray := do
  return encodeUtf8 (← canonicalJsonText v)

/-- `canonical_hash`. -/
def canonicalHash (h : Host) (value : Value) : Py String := do
  return h.sha256Hex (← canonicalJsonBytes value)

/-- `build_domain_envelope` of a payload under the default protocol name and
version. -/
def buildDomainEnvelope (h : Host) (payload : Value) (objectType : ObjectType)
    (networkId : Value) : Py Dict := do
  let normalizedNetworkId ← normalizeNetworkId h networkId
  let payload ← canonicalJsonData payload
  return [("domain", .str (protocolDomain objectType)),
    ("network_id", .str normalizedNetworkId),
    ("object_type", .str objectType.name),
    ("payload", payload),
    ("protocol", .str protocolName),
    ("protocol_version", .int protocolVersion)]

/-- `canonical_domain_bytes`. -/
def canonicalDomainBytes (h : Host) (payload : Value) (objectType : ObjectType)
    (networkId : Value) : Py ByteArray := do
  canonicalJsonBytes (.dict (← buildDomainEnvelope h payload objectType networkId))

/-- `canonical_domain_hash`. -/
def canonicalDomainHash (h : Host) (payload : Value) (objectType : ObjectType)
    (networkId : Value) : Py String := do
  return h.sha256Hex (← canonicalDomainBytes h payload objectType networkId)

end ZoidbergChain
