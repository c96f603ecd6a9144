import ZoidbergChain.Protocol
import ZoidbergChain.CanonicalV3.KeyOrder
import ZoidbergChain.NativeTransferStable

/-!
# Protocol v1 peer messages (protocol_v1_peer_message.py)

The headers of a signed peer request, its payload, and the envelope that its message id and its
signature are taken of.

- `normalizePeerPayload` writes floats as decimal texts.
- `buildPeerEnvelope`, `calculatePeerMessageId`, `signPeerMessage`.
- `timestamp_of_envelope`: the text of an envelope determines its timestamp.

The subclasses of `ProtocolV1PeerMessageError` are told apart by their messages.
-/

namespace ZoidbergChain

open Python

namespace PeerMessage

/-! ## Message types -/

/-- `PROTOCOL_V1_PEER_MESSAGE_TYPES`. -/
inductive MessageType where
  | peerRegistration
  | submission
  | vote
  | reviewerOffense
  | certificate
  | block
  | nativeTransaction
  | transactionFetch
  | mempoolSummary
  | contentMetadata
  | contentDownload
  | chainSummary
  | chainBlocks
  deriving DecidableEq

def MessageType.name : MessageType → String
  | .peerRegistration => "peer-registration"
  | .submission => "submission"
  | .vote => "vote"
  | .reviewerOffense => "reviewer-offense"
  | .certificate => "certificate"
  | .block => "block"
  | .nativeTransaction => "native-transaction"
  | .transactionFetch => "transaction-fetch"
  | .mempoolSummary => "mempool-summary"
  | .contentMetadata => "content-metadata"
  | .contentDownload => "content-download"
  | .chainSummary => "chain-summary"
  | .chainBlocks => "chain-blocks"

def MessageType.all : List MessageType :=
  [.peerRegistration, .submission, .vote, .reviewerOffense, .certificate, .block,
    .nativeTransaction, .transactionFetch, .mempoolSummary, .contentMetadata, .contentDownload,
    .chainSummary, .chainBlocks]

/-- A path with 64 lower-case hexadecimal digits between two texts. -/
def isHashPath (front back path : String) : Bool :=
  let cs := path.toList
  front.toList.isPrefixOf cs && back.toList.isSuffixOf cs &&
    decide (cs.length = front.length + 64 + back.length) &&
    ((cs.drop front.length).take 64).all isLowerHex

/-- `_PEER_ROUTE_BINDINGS`, in their order. -/
def peerRouteBindings : List (String × (String → Bool) × MessageType) :=
  [("POST", (· == "/peers/register"), .peerRegistration),
    ("POST", (· == "/peers/submissions/receive"), .submission),
    ("POST", (· == "/peers/votes/receive"), .vote),
    ("POST", (· == "/peers/reviewer-offenses/receive"), .reviewerOffense),
    ("POST", (· == "/peers/certificates/receive"), .certificate),
    ("POST", (· == "/peers/blocks/receive"), .block),
    ("POST", (· == "/peers/transactions/receive"), .nativeTransaction),
    ("GET", isHashPath "/peers/transactions/" "", .transactionFetch),
    ("GET", (· == "/peers/mempool/summary"), .mempoolSummary),
    ("GET", isHashPath "/peers/content/" "/metadata", .contentMetadata),
    ("GET", isHashPath "/peers/content/" "", .contentDownload),
    ("GET", (· == "/peers/chain/summary"), .chainSummary),
    ("GET", (· == "/peers/chain/blocks"), .chainBlocks)]

/-- `infer_protocol_v1_peer_message_type`; `upper` is `str.upper`. -/
def inferPeerMessageType (rt : Runtime) (upper : String → String) (method path : Value) :
    Py MessageType :=
  let normalizedMethod := upper (method.trimmed rt)
  let normalizedPath := path.trimmed rt
  match peerRouteBindings.find? fun binding =>
    binding.1 == normalizedMethod && binding.2.1 normalizedPath with
  | some binding => .ok binding.2.2
  | none => .error (.value
      s!"Unsupported Protocol v1 peer route: {normalizedMethod} {normalizedPath}")

/-! ## Fields -/

/-- `normalize_protocol_v1_peer_message_type`. -/
def normalizePeerMessageType (rt : Runtime) (value : Value) : Py MessageType :=
  match value with
  | .str s => do
    require (strip s ≠ "") (.value "Peer message type is required.")
    orRaise (MessageType.all.find? (·.name = rt.lower (strip s)))
      (.value s!"Unsupported peer message type: {rt.repr value}.")
  | _ => .error (.value "Peer message type is required.")

/-- `is_valid_node_id` of a stripped text. -/
def isValidNodeId (s : String) : Bool :=
  match s.toList with
  | [] => false
  | c :: cs => c.isAlphanum && decide (cs.length ≤ 63) &&
      cs.all fun c => c.isAlphanum || c == '_' || c == '-'

/-- `normalize_protocol_v1_peer_sender_node_id`. -/
def normalizePeerSenderNodeId : Value → Py String
  | .str s => do
    require (strip s ≠ "" ∧ isValidNodeId (strip s) = true)
      (.value "Peer sender node_id is invalid.")
    return strip s
  | _ => .error (.value "Peer sender node_id is invalid.")

/-- `PROTOCOL_V1_PEER_NONCE_PATTERN.fullmatch`. -/
def isValidPeerNonce (s : String) : Bool :=
  match s.toList with
  | [] => false
  | c :: cs => c.isAlphanum && decide (cs.length ≤ 127) &&
      cs.all fun c => c.isAlphanum || c == '.' || c == '_' || c == ':' || c == '-'

/-- `normalize_protocol_v1_peer_nonce`. -/
def normalizePeerNonce : Value → Py String
  | .str s => do
    require (strip s ≠ "") (.value "Peer nonce is required.")
    require (isValidPeerNonce (strip s) = true)
      (.value "Peer nonce must use only letters, digits, '.', '_', ':', or '-'.")
    return strip s
  | _ => .error (.value "Peer nonce is required.")

/-- `normalize_protocol_v1_peer_message_id`. -/
def normalizePeerMessageId (value : Value) : Py String :=
  match value with
  | .str s => do
    require (IsHex64 (strip s)) (.value
      "Peer message_id must be a 64-character lowercase hexadecimal string.")
    return strip s
  | _ => .error (.value "Peer message_id must be a 64-character lowercase hexadecimal string.")

/-- `int(str(value).strip())`, which is no `bool`. -/
def integerField (rt : Runtime) (value : Value) (isBool malformed : PyError) : Py Int :=
  match value with
  | .bool _ => .error isBool
  | value => orRaise (parseInt (strip (value.text rt))) malformed

/-- `normalize_protocol_v1_peer_timestamp`. -/
def normalizePeerTimestamp (rt : Runtime) (value : Value) : Py Int := do
  let normalized ← integerField rt value (.value "Peer timestamp must be an integer Unix second.")
    (.value "Invalid peer timestamp.")
  require (0 ≤ normalized) (.value "Peer timestamp must be non-negative.")
  return normalized

/-- `normalize_protocol_v1_peer_message_version`. -/
def normalizePeerMessageVersion (rt : Runtime) (value : Value) : Py Int := do
  let normalized ← integerField rt value
    (.value "Protocol v1 peer message version is invalid.")
    (.value "Protocol v1 peer message version is invalid.")
  require (normalized = protocolVersion)
    (.value s!"Unsupported peer message version: {normalized}.")
  return normalized

/-- `normalize_protocol_v1_protocol_version`. -/
def normalizeProtocolVersion (rt : Runtime) (value : Value) : Py Int := do
  let normalized ← integerField rt value (.value "Unsupported peer protocol version.")
    (.value "Unsupported peer protocol version.")
  require (normalized = protocolVersion)
    (.value s!"Unsupported peer protocol version: {normalized}.")
  return normalized

/-- `_normalize_non_negative_int`. -/
def normalizeNonNegativeInt (rt : Runtime) (value : Value) (fieldName : String) : Py Int := do
  let error := PyError.value s!"{fieldName} must be a non-negative integer."
  let normalized ← integerField rt value error error
  require (0 ≤ normalized) error
  return normalized

/-! ## Payloads -/

/-- `_normalize_decimal_string` of a finite float. -/
def decimalText (f : PyFloat) : Py String :=
  match parseDecimal f.text with
  | some (.finite n) =>
    let normalized := String.ofList (stripFraction n.fixedText)
    .ok (if normalized = "" ∨ normalized = "-0" then "0" else normalized)
  | some _ => .error (.value "Peer payload does not support NaN or Infinity.")
  | none => .error (.value "Peer payload contains an invalid float value.")

/-- `is_canonical_bytes_object`. -/
def isCanonicalBytesObject (d : Dict) : Bool :=
  isBytesTagged d && decide (d.get "$type" = .str "bytes") &&
    decide (d.get "$encoding" = .str "hex") &&
    match d.get "$value" with
    | .str _ => true
    | _ => false

mutual

/-- `normalize_protocol_v1_peer_payload`. -/
def normalizePeerPayload : Value → Py Value
  | .float f =>
    match f with
    | .finite _ => do return .str (← decimalText f)
    | _ => .error (.value "Peer payload does not support NaN or Infinity.")
  | .list xs => do return .list (← normalizePeerItems xs)
  | .dict es =>
    if isCanonicalBytesObject es = true then do
      return .bytes (← decodeCanonicalBytes (.dict es))
    else do
      return .dict (← normalizePeerEntries es)
  | value => .ok value

def normalizePeerItems : List Value → Py (List Value)
  | [] => .ok []
  | x :: xs => do return (← normalizePeerPayload x) :: (← normalizePeerItems xs)

def normalizePeerEntries : List (String × Value) → Py (List (String × Value))
  | [] => .ok []
  | (k, v) :: es => do return (k, ← normalizePeerPayload v) :: (← normalizePeerEntries es)

end

/-- `canonical_json_data(normalize_protocol_v1_peer_payload(payload))`. -/
def canonicalPeerPayload (payload : Value) : Py Value := do
  canonicalJsonData (← normalizePeerPayload payload)

/-! ## Envelopes -/

/-- The fields of a message beside its payload. -/
structure MessageFields where
  networkId : String
  messageType : MessageType
  senderNodeId : String
  timestamp : Int
  nonce : String
  peerMessageVersion : Int
  protocolVersion : Int

section Envelope

variable (h : Host)

/-- `build_protocol_v1_peer_envelope`. -/
def buildPeerEnvelope (payload : Value) (fields : MessageFields) : Py Value := do
  let messageType ← normalizePeerMessageType h.toRuntime (.str fields.messageType.name)
  let networkId ← normalizeNetworkId h (.str fields.networkId)
  let nonce ← normalizePeerNonce (.str fields.nonce)
  let payload ← canonicalPeerPayload payload
  let peerMessageVersion ←
    normalizePeerMessageVersion h.toRuntime (.int fields.peerMessageVersion)
  let protocolVersion ← normalizeProtocolVersion h.toRuntime (.int fields.protocolVersion)
  let senderNodeId ← normalizePeerSenderNodeId (.str fields.senderNodeId)
  let timestamp ← normalizePeerTimestamp h.toRuntime (.int fields.timestamp)
  canonicalJsonData (.dict [
    ("domain", .str (protocolDomain .peerMessage)),
    ("message_type", .str messageType.name),
    ("network_id", .str networkId),
    ("nonce", .str nonce),
    ("object_type", .str ObjectType.peerMessage.name),
    ("payload", payload),
    ("peer_message_version", .int peerMessageVersion),
    ("protocol", .str protocolName),
    ("protocol_version", .int protocolVersion),
    ("sender_node_id", .str senderNodeId),
    ("timestamp", .int timestamp)])

/-- `protocol_v1_peer_envelope_bytes`. -/
def peerEnvelopeBytes (payload : Value) (fields : MessageFields) : Py ByteArray := do
  canonicalJsonBytes (← buildPeerEnvelope h payload fields)

/-- `calculate_protocol_v1_peer_message_id`. -/
def calculatePeerMessageId (payload : Value) (fields : MessageFields) : Py String := do
  return h.sha256Hex (← peerEnvelopeBytes h payload fields)

/-- `sign_protocol_v1_peer_message`; `hmacHex` is the HMAC with SHA-256. -/
def signPeerMessage (hmacHex : ByteArray → ByteArray → String) (payload : Value)
    (fields : MessageFields) (secret : String) : Py String := do
  require (secret ≠ "")
    (.value "Peer shared secret is required for Protocol v1 peer signing.")
  return hmacHex (encodeUtf8 secret) (← peerEnvelopeBytes h payload fields)

end Envelope

/-! ## The text of an envelope -/

mutual

/-- Canonical data has a text. -/
theorem plain_expandBytes : ∀ {v w : Value}, canonicalJsonData v = .ok w →
    Json.Plain (expandBytes w)
  | .null, _, h | .bool _, _, h | .int _, _, h | .str _, _, h => by
    cases h
    trivial
  | .bytes _, _, h => by
    cases h
    exact ⟨trivial, trivial, trivial, trivial⟩
  | .float .nan, _, h | .float (.inf _), _, h | .float (.finite _), _, h => by cases h
  | .list xs, _, h => by
    rw [canonicalJsonData] at h
    obtain ⟨ys, hys, ⟨⟩⟩ := bind_eq_ok.mp h
    exact plainItems_expandItems hys
  | .dict es, _, h => by
    rw [canonicalJsonData] at h
    obtain ⟨-, -, h⟩ := bind_eq_ok.mp h
    obtain ⟨fs, hfs, ⟨⟩⟩ := bind_eq_ok.mp h
    have hall := plain_expandEntries hfs
    refine plainEntries_expandEntries fun e he => hall e ?_
    exact (CanonicalV3.perm_sortEntries fs).mem_iff.mp he

theorem plainItems_expandItems : ∀ {xs ys : List Value}, canonicalJsonItems xs = .ok ys →
    Json.PlainItems (expandItems ys)
  | [], _, h => by
    cases h
    trivial
  | x :: xs, _, h => by
    rw [canonicalJsonItems] at h
    obtain ⟨y, hy, h⟩ := bind_eq_ok.mp h
    obtain ⟨ys, hys, ⟨⟩⟩ := bind_eq_ok.mp h
    exact ⟨plain_expandBytes hy, plainItems_expandItems hys⟩

theorem plain_expandEntries : ∀ {es fs : List (String × Value)},
    canonicalJsonEntries es = .ok fs → ∀ e ∈ fs, Json.Plain (expandBytes e.2)
  | [], _, h => by
    cases h
    simp
  | (k, v) :: es, _, h => by
    rw [canonicalJsonEntries] at h
    obtain ⟨w, hw, h⟩ := bind_eq_ok.mp h
    obtain ⟨fs, hfs, ⟨⟩⟩ := bind_eq_ok.mp h
    exact List.forall_mem_cons.mpr ⟨plain_expandBytes hw, plain_expandEntries hfs⟩

theorem plainEntries_expandEntries : ∀ {fs : List (String × Value)},
    (∀ e ∈ fs, Json.Plain (expandBytes e.2)) → Json.PlainEntries (expandEntries fs)
  | [], _ => trivial
  | (_, _) :: _, h =>
    ⟨h _ (List.mem_cons_self ..), plainEntries_expandEntries fun e he =>
      h e (List.mem_cons_of_mem _ he)⟩

end

/-- Equal canonical bytes are of equal data. -/
theorem canonicalJsonBytes_inj {v w : Value} {raw : ByteArray}
    (hv : canonicalJsonBytes v = .ok raw) (hw : canonicalJsonBytes w = .ok raw) :
    ∃ a b, canonicalJsonData v = .ok a ∧ canonicalJsonData w = .ok b ∧
      expandBytes a = expandBytes b := by
  obtain ⟨text, hv, hraw⟩ := bind_eq_ok.mp hv
  obtain ⟨a, ha, ⟨⟩⟩ := bind_eq_ok.mp hv
  obtain ⟨text', hw, hraw'⟩ := bind_eq_ok.mp hw
  obtain ⟨b, hb, ⟨⟩⟩ := bind_eq_ok.mp hw
  have hsame := (pure_eq_ok.mp hraw).trans (pure_eq_ok.mp hraw').symm
  have hrender := String.ofList_injective (encodeUtf8_inj.mp hsame)
  have hstops : Json.Stops [] := by simp [Json.Stops]
  refine ⟨a, b, ha, hb, (Json.render_inj _ _ [] [] (plain_expandBytes ha) (plain_expandBytes hb)
    hstops hstops ?_).1⟩
  rw [hrender]

theorem get?_expandEntries (es : Dict) (key : String) :
    Dict.get? (expandEntries es) key = (Dict.get? es key).map expandBytes := by
  induction es with
  | nil => rfl
  | cons e es ih =>
    obtain ⟨k, v⟩ := e
    rw [expandEntries, Dict.get?_cons, Dict.get?_cons, ih]
    split <;> rfl

theorem get?_canonicalJsonEntries {es fs : Dict} (h : canonicalJsonEntries es = .ok fs)
    {key : String} {v : Value} (hget : es.get? key = some v) :
    ∃ w, canonicalJsonData v = .ok w ∧ fs.get? key = some w := by
  induction es generalizing fs with
  | nil => cases hget
  | cons e es ih =>
    obtain ⟨k, u⟩ := e
    rw [canonicalJsonEntries] at h
    obtain ⟨w, hw, h⟩ := bind_eq_ok.mp h
    obtain ⟨gs, hgs, ⟨⟩⟩ := bind_eq_ok.mp h
    rw [Dict.get?_cons] at hget ⊢
    split_ifs with hk
    · rw [if_pos hk] at hget
      cases hget
      exact ⟨w, hw, rfl⟩
    · rw [if_neg hk] at hget
      exact ih hgs hget

/-- Canonical data of an object has the data of its entries. -/
theorem get?_canonicalJsonData {es : Dict} {v : Value} (h : canonicalJsonData (.dict es) = .ok v) :
    ∃ fs : Dict, v = .dict fs ∧ ∀ key u, es.get? key = some u →
      ∃ w, canonicalJsonData u = .ok w ∧ fs.get? key = some w := by
  rw [canonicalJsonData] at h
  obtain ⟨-, -, h⟩ := bind_eq_ok.mp h
  obtain ⟨fs, hfs, ⟨⟩⟩ := bind_eq_ok.mp h
  refine ⟨_, rfl, fun key u hget => ?_⟩
  rw [CanonicalV3.get?_sortEntries]
  exact get?_canonicalJsonEntries hfs hget

/-- Objects of one canonical text have the same data under the keys that both have. -/
theorem expanded_eq_of_data {es es' : Dict} {a b : Value}
    (ha : canonicalJsonData (.dict es) = .ok a)
    (hb : canonicalJsonData (.dict es') = .ok b) (hexpand : expandBytes a = expandBytes b)
    (key : String) {u u' : Value} (hget : es.get? key = some u) (hget' : es'.get? key = some u') :
    ∃ w w', canonicalJsonData u = .ok w ∧ canonicalJsonData u' = .ok w' ∧
      expandBytes w = expandBytes w' := by
  obtain ⟨fs, rfl, hfs⟩ := get?_canonicalJsonData ha
  obtain ⟨fs', rfl, hfs'⟩ := get?_canonicalJsonData hb
  obtain ⟨w, hw, hfs⟩ := hfs key u hget
  obtain ⟨w', hw', hfs'⟩ := hfs' key u' hget'
  have hdict : expandEntries fs = expandEntries fs' := by
    simpa [expandBytes] using hexpand
  have heq := congrArg (Dict.get? · key) hdict
  rw [get?_expandEntries, get?_expandEntries, hfs, hfs'] at heq
  exact ⟨w, w', hw, hw', by simpa using heq⟩

section Envelope

variable {h : Host} {payload payload' : Value} {fields fields' : MessageFields}

theorem parseInt_text {n : Int} (hn : 0 ≤ n) :
    parseInt (strip ((Value.int n).text h.toRuntime)) = some n := by
  obtain ⟨hstrip, -, hparse⟩ := parseInt_toString hn
  show parseInt (strip (toString n)) = some n
  rw [hstrip, hparse]

/-- A negative integer is read back as one. -/
theorem parseInt_text_neg {n : Int} (hn : n < 0) :
    parseInt (strip ((Value.int n).text h.toRuntime)) = some n := by
  obtain ⟨m, rfl⟩ : ∃ m : Nat, n = Int.negSucc m := ⟨(-n - 1).toNat, by omega⟩
  have htext : (toString (Int.negSucc m)).toList = '-' :: Nat.toDigits 10 (m + 1) := by
    show ("-" ++ Nat.repr (m + 1)).toList = _
    rw [String.toList_append]
    simp [Nat.repr]
  have hspec : ∀ x ∈ '-' :: Nat.toDigits 10 (m + 1), asciiDigit x = x ∧ isSpace x = false := by
    refine List.forall_mem_cons.mpr ⟨by decide, fun x hx => ?_⟩
    have hx := isPositional_spec (x := x) (by simp [isPositional, isDigit_toDigits hx])
    exact ⟨hx.1, hx.2.2.1⟩
  have hstrip : strip (toString (Int.negSucc m)) = toString (Int.negSucc m) := by
    refine strip_of_forall fun c hc => ?_
    rw [htext] at hc
    exact (hspec c hc).2
  have hchars : (stripChars (toString (Int.negSucc m)).toList).map asciiDigit =
      '-' :: Nat.toDigits 10 (m + 1) := by
    have hself := congrArg String.toList hstrip
    rw [strip, String.toList_ofList] at hself
    rw [hself, htext]
    conv_rhs => rw [← List.map_id ('-' :: Nat.toDigits 10 (m + 1))]
    exact List.map_congr_left fun x hx => (hspec x hx).1
  show parseInt (strip (toString (Int.negSucc m))) = some (Int.negSucc m)
  rw [hstrip, parseInt, hchars]
  show (readGroupedDigits (Nat.toDigits 10 (m + 1))).map _ = _
  rw [readGroupedDigits_of_digits Nat.toDigits_ne_nil fun c hc => isDigit_toDigits hc]
  simp [Nat.ofDigitChars_ten_toDigits, Int.negSucc_eq]

/-- Only an integer that is not negative is a timestamp, and the one it is. -/
theorem normalizePeerTimestamp_int_eq_ok {n m : Int} :
    normalizePeerTimestamp h.toRuntime (.int n) = .ok m ↔ 0 ≤ n ∧ n = m := by
  have hparse : parseInt (strip ((Value.int n).text h.toRuntime)) = some n := by
    by_cases hn : 0 ≤ n
    · exact parseInt_text hn
    · exact parseInt_text_neg (by omega)
  unfold normalizePeerTimestamp integerField
  simp only [hparse, orRaise, ok_bind, bind_eq_ok, require_eq_ok, pure_eq_ok]
  constructor
  · rintro ⟨_, hn, rfl⟩
    exact ⟨hn, rfl⟩
  · rintro ⟨hn, rfl⟩
    exact ⟨(), hn, rfl⟩

theorem normalizePeerTimestamp_int {n : Int} (hn : 0 ≤ n) :
    normalizePeerTimestamp h.toRuntime (.int n) = .ok n :=
  normalizePeerTimestamp_int_eq_ok.mpr ⟨hn, rfl⟩

/-- The envelope carries its timestamp. -/
theorem timestamp_of_envelope {envelope : Value}
    (henvelope : buildPeerEnvelope h payload fields = .ok envelope) (hn : 0 ≤ fields.timestamp) :
    ∃ es : Dict, envelope = .dict es ∧ es.get? "timestamp" = some (.int fields.timestamp) := by
  simp only [buildPeerEnvelope, normalizePeerTimestamp_int hn, bind_eq_ok, ok_bind] at henvelope
  obtain ⟨_, -, _, -, _, -, _, -, _, -, _, -, _, -, hdata⟩ := henvelope
  obtain ⟨es, rfl, hes⟩ := get?_canonicalJsonData hdata
  obtain ⟨w, hw, hget⟩ := hes "timestamp" (.int fields.timestamp) rfl
  obtain rfl := Except.ok.inj hw
  exact ⟨es, rfl, hget⟩

/-- Messages with one text have one timestamp. -/
theorem timestamp_eq_of_bytes {raw : ByteArray} (hn : 0 ≤ fields.timestamp)
    (hn' : 0 ≤ fields'.timestamp) (hraw : peerEnvelopeBytes h payload fields = .ok raw)
    (hraw' : peerEnvelopeBytes h payload' fields' = .ok raw) :
    fields.timestamp = fields'.timestamp := by
  obtain ⟨envelope, henvelope, hbytes⟩ := bind_eq_ok.mp hraw
  obtain ⟨envelope', henvelope', hbytes'⟩ := bind_eq_ok.mp hraw'
  obtain ⟨es, rfl, hget⟩ := timestamp_of_envelope henvelope hn
  obtain ⟨es', rfl, hget'⟩ := timestamp_of_envelope henvelope' hn'
  obtain ⟨a, b, ha, hb, hexpand⟩ := canonicalJsonBytes_inj hbytes hbytes'
  obtain ⟨w, w', hw, hw', hexpand⟩ := expanded_eq_of_data ha hb hexpand _ hget hget'
  obtain rfl := Except.ok.inj hw
  obtain rfl := Except.ok.inj hw'
  simpa [expandBytes] using hexpand

end Envelope

end PeerMessage

end ZoidbergChain
