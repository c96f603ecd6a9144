import ZoidbergChain.Protocol
import ZoidbergChain.Wallet

/-!
# Native ZOID transfers (native_transfer.py, protocol_v1_native_transfer.py)

The field parsers, the two canonical field sets (legacy and Protocol v1), the
transaction identifier and `validate_transaction_shape`.

A payload is a dictionary; `NativeTransaction` is the validated record, whose
fields are the texts the parsers return. The identifier hashes the identity
payload only: it covers neither the signature nor the signed message.
-/

namespace ZoidbergChain

open Python

/-! ## Field parsers -/

/-- `parse_native_zoid_amount` (native_transfer.py:170–210), with at most six
decimal places. -/
def parseNativeZoidAmount (h : Host) (value : Value) (allowZero : Bool) : Py String :=
  match value with
  | .bool _ => .error (.value "Amount must be a decimal string or integer.")
  | _ => do
    let candidate := value.trimmed h.toRuntime
    require (candidate ≠ "") (.value "Amount is required.")
    require (h.lower candidate ∉ ["nan", "+nan", "-nan", "inf", "+inf", "-inf", "infinity",
      "+infinity", "-infinity"]) (.value "Amount must be a finite decimal value.")
    require ('e' ∉ (h.lower candidate).toList)
      (.value "Scientific notation is not supported for ZOID amounts.")
    match parseDecimal candidate with
    | none => .error (.value "Amount must be a valid decimal value.")
    | some (.finite n) =>
      require (¬(n.neg = true ∧ n.coeff ≠ 0)) (.value "Amount cannot be negative.")
      require (allowZero = true ∨ n.coeff ≠ 0) (.value "Amount must be greater than zero.")
      require (-n.exp ≤ 6)
        (.value "Amount exceeds the current 6-decimal precision limit.")
      let normalized := stripFraction n.normalize.fixedText
      return if normalized = [] ∨ normalized = ['-', '0'] then "0" else String.ofList normalized
    | some _ => .error (.value "Amount must be a finite decimal value.")

/-- `parse_transfer_timestamp` (native_transfer.py:213–230). -/
def parseTransferTimestamp (h : Host) (value : Value) : Py String := do
  let candidate := value.trimmed h.toRuntime
  require (candidate ≠ "") (.value "timestamp is required.")
  let normalizedCandidate := String.ofList <| candidate.toList.flatMap fun c =>
    if c = 'Z' then "+00:00".toList else [c]
  match h.fromIsoformat normalizedCandidate with
  | .malformed => .error (.value "timestamp must be a valid ISO 8601 value.")
  | .naive => .error (.value "timestamp must include a timezone offset.")
  | .outOfRange => .error { exc := .overflowError, message := "date value out of range" }
  | .utc t => .ok t

/-- `normalize_tx_id`. -/
def normalizeTxId (h : Host) (value : Value) : Option String :=
  let candidate := h.lower (value.trimmed h.toRuntime)
  if IsHex64 candidate then some candidate else none

/-- `parse_transfer_nonce` (native_transfer.py:242–257): the text of a positive
integer. -/
def parseTransferNonce (h : Host) (value : Value) : Py String :=
  match value with
  | .bool _ => .error (.value "nonce is required and must be a string or integer.")
  | .int n => do
    require (1 ≤ n) (.value "nonce must be at least 1.")
    return toString n
  | _ => do
    let candidate := value.trimmed h.toRuntime
    require (candidate ≠ "") (.value "nonce is required.")
    require (isDigitString candidate = true) (.value "nonce must be a positive integer string.")
    let n ← (Value.str candidate).toInt
    require (1 ≤ n) (.value "nonce must be at least 1.")
    return candidate

/-- `NATIVE_TRANSACTION_STATUSES`. -/
def nativeTransactionStatuses : List String :=
  ["signed_pending", "validated_pending", "mempool", "included", "settled", "finalized",
    "rejected", "failed", "expired"]

/-- `_normalize_transaction_status`. -/
def normalizeTransactionStatus (h : Host) (status : Value) : Py String := do
  let candidate := h.lower ((status.orElse (.str "signed_pending")).trimmed h.toRuntime)
  require (candidate ∈ nativeTransactionStatuses)
    (.value ("Transaction status must be one of: " ++
      String.intercalate ", " nativeTransactionStatuses ++ "."))
  return candidate

/-- `_normalize_transfer_memo`, also `normalize_protocol_v1_transfer_memo`. -/
def normalizeTransferMemo (h : Host) (memo : Value) : Py (Option String) :=
  match memo with
  | .null => .ok none
  | _ => do
    let candidate := strip (memo.text h.toRuntime)
    if candidate = "" then return none
    require (candidate.toList.length ≤ 280) (.value "memo exceeds the 280-character limit.")
    return some candidate

/-- `hash_transfer_signing_message`. -/
def hashTransferSigningMessage (h : Host) (message : String) : String :=
  h.sha256Hex (encodeUtf8 message)

/-- `NETWORK_NAME_PATTERN`: `[A-Za-z0-9][A-Za-z0-9_.-]{2,63}`, on a stripped name. -/
def isValidNetworkName (s : String) : Bool :=
  match s.toList with
  | [] => false
  | c :: cs => c.isAlphanum && decide (2 ≤ cs.length ∧ cs.length ≤ 63) &&
      cs.all fun c => c.isAlphanum || c == '_' || c == '.' || c == '-'

/-- `resolve_protocol_v1_network_id(network_name=...)`: an unknown name is its own
identifier. -/
def resolveProtocolV1NetworkId (h : Host) (networkName : String) : Py String :=
  exceptValueError (resolveNetworkId networkName) fun e =>
    if strip networkName ≠ "" then normalizeNetworkId h (.str (strip networkName)) else .error e

/-- `looks_like_protocol_v1_native_transfer_message`. -/
def looksLikeProtocolV1NativeTransferMessage (h : Host) (message : String) : Bool :=
  decide (strip message ≠ "") &&
  match h.jsonLoads message with
  | some (.dict payload) =>
    let field := Dict.get payload
    Value.pyEq (field "protocol") (.str protocolName) &&
    Value.pyEq (field "protocol_version") (.int protocolVersion) &&
    Value.pyEq (field "object_type") (.str ObjectType.nativeTransfer.name) &&
    Value.pyEq (field "domain") (.str (protocolDomain .nativeTransfer)) &&
    (match field "network_id" with | .str _ => true | _ => false) &&
    (match field "payload" with | .dict _ => true | _ => false)
  | _ => false

/-! ## Identity payload and signing message -/

/-- `build_protocol_v1_native_transfer_payload`. -/
def buildProtocolV1NativeTransferPayload (h : Host) (fromAddress toAddress amount fee nonce
    timestamp memo : Value) : Py Value :=
  match NativeTransfer.normalizeWalletAddress h.toRuntime fromAddress with
  | none => .error (.value "from_address must be a valid Ethereum-style 0x address.")
  | some normalizedFrom =>
    match NativeTransfer.normalizeWalletAddress h.toRuntime toAddress with
    | none => .error (.value "to_address must be a valid Ethereum-style 0x address.")
    | some normalizedTo => do
      require (normalizedFrom ≠ normalizedTo)
        (.value "from_address and to_address must be different.")
      let amount ← parseNativeZoidAmount h amount false
      let fee ← parseNativeZoidAmount h fee true
      let nonce ← parseTransferNonce h nonce
      let timestamp ← parseTransferTimestamp h timestamp
      let memo ← normalizeTransferMemo h memo
      canonicalJsonData (.dict [
        ("transaction_version", .int protocolVersion),
        ("from_address", .str normalizedFrom),
        ("to_address", .str normalizedTo),
        ("amount", .str amount),
        ("fee", .str fee),
        ("nonce", .str nonce),
        ("timestamp", .str timestamp),
        ("memo", optionText memo)])

/-- `build_protocol_v1_transaction_identity_payload`: a missing fee is zero. -/
def buildProtocolV1TransactionIdentityPayload (h : Host) (fields : Dict) : Py Value :=
  buildProtocolV1NativeTransferPayload h (fields.get "from_address") (fields.get "to_address")
    (fields.get "amount") (fields.getD "fee" (.str "0")) (fields.get "nonce")
    (fields.get "timestamp") (fields.get "memo")

/-- `calculate_protocol_v1_transaction_id`. -/
def calculateProtocolV1TransactionId (h : Host) (fields : Dict) (networkId : Value) :
    Py String := do
  let payload ← buildProtocolV1TransactionIdentityPayload h fields
  let normalized ← normalizeNetworkId h networkId
  canonicalDomainHash h payload .nativeTransfer (.str normalized)

/-- `build_protocol_v1_native_transfer_message`: the canonical text that is signed. -/
def buildProtocolV1NativeTransferMessage (h : Host) (fromAddress toAddress amount fee nonce
    timestamp memo networkId : Value) : Py String := do
  let payload ← buildProtocolV1NativeTransferPayload h fromAddress toAddress amount fee nonce
    timestamp memo
  let normalized ← normalizeNetworkId h networkId
  let envelope ← buildDomainEnvelope h payload .nativeTransfer (.str normalized)
  canonicalJsonText (.dict envelope)

/-! ## Canonical fields -/

/-- The result of `_canonical_transaction_fields_legacy` and
`_canonical_transaction_fields_v1`; a legacy record has no version fields. -/
structure CanonicalFields where
  transactionType : String
  network : String
  transactionVersion : Option Int
  protocolVersion : Option Int
  networkId : Option String
  fromAddress : String
  toAddress : String
  amount : String
  fee : String
  nonce : String
  memo : Option String
  timestamp : String
  signature : String
  signatureScheme : String
  signedMessage : String
  signedMessageHash : String
  deriving DecidableEq

/-- The checks both field sets share in front of the parsers. -/
structure SignedParts where
  network : String
  fromAddress : String
  toAddress : String
  transactionType : String
  signature : String
  signatureScheme : String
  signedMessage : String

/-- `network` of a payload. -/
def readNetwork (h : Host) (payload : Dict) : Py String := do
  let network := (payload.get "network").trimmed h.toRuntime
  require (network ≠ "") (.value "network is required.")
  require (isValidNetworkName network = true) (.value "network is invalid.")
  return network

/-- Addresses, type, signature and message of a payload, in the order in which both
field sets check them. -/
def readSignedParts (h : Host) (payload : Dict) (network : String) : Py SignedParts :=
  match NativeTransfer.normalizeWalletAddress h.toRuntime (payload.get "from_address") with
  | none => .error (.value "from_address must be a valid Ethereum-style 0x address.")
  | some fromAddress =>
    match NativeTransfer.normalizeWalletAddress h.toRuntime (payload.get "to_address") with
    | none => .error (.value "to_address must be a valid Ethereum-style 0x address.")
    | some toAddress => do
      require (fromAddress ≠ toAddress)
        (.value "from_address and to_address must be different.")
      let transactionType := h.lower ((payload.get "transaction_type").trimmed h.toRuntime)
      require (transactionType = "native_transfer")
        (.value "transaction_type must be exactly native_transfer.")
      let signature := (payload.get "signature").trimmed h.toRuntime
      require (signature ≠ "") (.value "signature is required.")
      let signatureScheme := (payload.get "signature_scheme").trimmed h.toRuntime
      require (signatureScheme = "personal_sign")
        (.value "signature_scheme must be personal_sign.")
      let signedMessage := (payload.get "signed_message").trimmed h.toRuntime
      require (signedMessage ≠ "") (.value "signed_message is required.")
      return ⟨network, fromAddress, toAddress, transactionType, signature, signatureScheme,
        signedMessage⟩

/-- `signed_message_hash` of a payload. -/
def readSignedMessageHash (h : Host) (payload : Dict) (signedMessage : String) : Py String := do
  let signedMessageHash := h.lower ((payload.get "signed_message_hash").trimmed h.toRuntime)
  require (signedMessageHash ≠ "") (.value "signed_message_hash is required.")
  require ((normalizeTxId h (.str signedMessageHash)).isSome = true)
    (.value "signed_message_hash must be lowercase SHA-256 hex.")
  require (signedMessageHash = hashTransferSigningMessage h signedMessage)
    (.value "signed_message_hash does not match signed_message.")
  return signedMessageHash

/-- The parsed fields, in the order of the result dictionaries. -/
def readParsedFields (h : Host) (payload : Dict) (parts : SignedParts)
    (version : Option (Int × Int × String)) (signedMessageHash : String) :
    Py CanonicalFields := do
  let amount ← parseNativeZoidAmount h (payload.get "amount") false
  let fee ← parseNativeZoidAmount h (payload.getD "fee" (.str "0")) true
  let nonce ← parseTransferNonce h (payload.get "nonce")
  let memo ← normalizeTransferMemo h (payload.get "memo")
  let timestamp ← parseTransferTimestamp h (payload.get "timestamp")
  return {
    transactionType := parts.transactionType
    network := parts.network
    transactionVersion := version.map (·.1)
    protocolVersion := version.map (·.2.1)
    networkId := version.map (·.2.2)
    fromAddress := parts.fromAddress
    toAddress := parts.toAddress
    amount, fee, nonce, memo, timestamp
    signature := parts.signature
    signatureScheme := parts.signatureScheme
    signedMessage := parts.signedMessage
    signedMessageHash }

/-- `_canonical_transaction_fields_legacy`. -/
def canonicalTransactionFieldsLegacy (h : Host) (payload : Dict) : Py CanonicalFields := do
  let network ← readNetwork h payload
  let parts ← readSignedParts h payload network
  let signedMessageHash ← readSignedMessageHash h payload parts.signedMessage
  require (looksLikeProtocolV1NativeTransferMessage h parts.signedMessage = false)
    (.value "transaction_version is required for Protocol v1 native transfer messages.")
  readParsedFields h payload parts none signedMessageHash

/-- A version field: an `int` that is not a `bool`, and the supported one. -/
def readVersion (value : Value) (supported : Int) (field : String) : Py Int :=
  match value with
  | .int n => do
    require (n = supported) (.value (field ++ " is unsupported."))
    return n
  | _ => .error (.value (field ++ " must be a positive integer."))

/-- `network_id` of a payload: without one the resolver has no name to fall back to. -/
def readNetworkId (h : Host) (payload : Dict) : Py String :=
  match payload.get "network_id" with
  | .null => .error (.value "network_name is required when network_id is not provided.")
  | value => normalizeNetworkId h value

/-- `_canonical_transaction_fields_v1`. -/
def canonicalTransactionFieldsV1 (h : Host) (payload : Dict) : Py CanonicalFields := do
  let network ← readNetwork h payload
  let transactionVersion ← readVersion (payload.get "transaction_version") protocolVersion
    "transaction_version"
  let version ← readVersion (payload.get "protocol_version") protocolVersion "protocol_version"
  let networkId ← readNetworkId h payload
  let parts ← readSignedParts h payload network
  require (looksLikeProtocolV1NativeTransferMessage h parts.signedMessage = true)
    (.value "signed_message must be a Protocol v1 native transfer payload.")
  let signedMessageHash ← readSignedMessageHash h payload parts.signedMessage
  readParsedFields h payload parts (some (transactionVersion, version, networkId))
    signedMessageHash

/-- The dictionary of the canonical fields. -/
def CanonicalFields.toDict (f : CanonicalFields) : Dict :=
  [("transaction_type", .str f.transactionType), ("network", .str f.network),
    ("from_address", .str f.fromAddress), ("to_address", .str f.toAddress),
    ("amount", .str f.amount), ("fee", .str f.fee), ("nonce", .str f.nonce),
    ("memo", optionText f.memo), ("timestamp", .str f.timestamp),
    ("signature", .str f.signature), ("signature_scheme", .str f.signatureScheme),
    ("signed_message", .str f.signedMessage),
    ("signed_message_hash", .str f.signedMessageHash)]

/-- `compute_transaction_id` of canonical fields. -/
def computeTransactionId (h : Host) (f : CanonicalFields) : Py String :=
  match f.transactionVersion, f.networkId with
  | none, _ => do
    let fields ← canonicalTransactionFieldsLegacy h f.toDict
    return h.sha256Hex (encodeUtf8 (← Json.dumps true (.dict fields.toDict)))
  | some version, networkId => do
    require (version = protocolVersion)
      (.value s!"Unsupported transaction_version: {version}")
    match networkId with
    | none => .error (.value "network_id is required for Protocol v1 native transaction IDs.")
    | some id => calculateProtocolV1TransactionId h f.toDict (.str id)

/-! ## The validated record -/

/-- `NativeTransaction` (native_transfer.py:139–166). -/
structure NativeTransaction where
  txId : String
  fields : CanonicalFields
  status : String
  createdAt : String
  updatedAt : String
  admittedAt : Option String
  includedBlockHash : Option String
  includedBlockHeight : Option Int
  settledAt : Option String
  rejectionReason : Option String
  deriving DecidableEq

def optionInt : Option Int → Value
  | some n => .int n
  | none => .null

/-- `NativeTransaction.to_dict`: the version fields of a legacy record are left out. -/
def NativeTransaction.toDict (t : NativeTransaction) : Dict :=
  let f := t.fields
  [("tx_id", .str t.txId), ("transaction_type", .str f.transactionType),
    ("network", .str f.network), ("from_address", .str f.fromAddress),
    ("to_address", .str f.toAddress), ("amount", .str f.amount), ("fee", .str f.fee),
    ("nonce", .str f.nonce), ("timestamp", .str f.timestamp),
    ("signature", .str f.signature), ("signature_scheme", .str f.signatureScheme),
    ("signed_message", .str f.signedMessage),
    ("signed_message_hash", .str f.signedMessageHash), ("status", .str t.status),
    ("created_at", .str t.createdAt), ("updated_at", .str t.updatedAt),
    ("admitted_at", optionText t.admittedAt), ("memo", optionText f.memo),
    ("included_block_hash", optionText t.includedBlockHash),
    ("included_block_height", optionInt t.includedBlockHeight),
    ("settled_at", optionText t.settledAt),
    ("rejection_reason", optionText t.rejectionReason)] ++
  (match f.transactionVersion with | some v => [("transaction_version", .int v)] | none => []) ++
  (match f.protocolVersion with | some v => [("protocol_version", .int v)] | none => []) ++
  (match f.networkId with | some id => [("network_id", .str id)] | none => [])

/-- `value not in (None, "")`. -/
def Value.isPresent (v : Value) : Bool := !(v.isNone || Value.pyEq v (.str ""))

/-- `parse_transfer_timestamp` of an optional field. -/
def parseOptionalTimestamp (h : Host) (value : Value) : Py (Option String) :=
  if Value.isPresent value then do return some (← parseTransferTimestamp h value) else .ok none

/-- `int(included_block_height)`, for which `TypeError` and `ValueError` are caught. -/
def includedBlockHeightInt (value : Value) : Py Int :=
  match value.toInt with
  | .ok n => .ok n
  | .error e =>
    if e.exc = .typeError ∨ e.isValueError then
      .error (.value "included_block_height must be an integer when provided.")
    else .error e

/-- `included_block_height` of a payload. -/
def readIncludedBlockHeight (value : Value) : Py (Option Int) :=
  if Value.isPresent value then do
    let height ← includedBlockHeightInt value
    require (0 ≤ height) (.value "included_block_height cannot be negative.")
    return some height
  else .ok none

/-- A text field that is `None` when blank. -/
def textOrNone (h : Host) (value : Value) : Option String :=
  let s := value.trimmed h.toRuntime
  if s = "" then none else some s

/-- The canonical fields of a payload, by the presence of `transaction_version`. -/
def readCanonicalFields (h : Host) (payload : Dict) : Py CanonicalFields :=
  if (payload.get "transaction_version").isNone then do
    require (payload.get "protocol_version" = .null ∧ payload.get "network_id" = .null)
      (.value "transaction_version is required when Protocol v1 transaction fields are present.")
    canonicalTransactionFieldsLegacy h payload
  else canonicalTransactionFieldsV1 h payload

/-- The canonical fields belong to the active network. -/
def requireActiveNetwork (h : Host) (networkName : String) (f : CanonicalFields) : Py Unit := do
  require (f.network = networkName)
    (.value "network does not match the active ZoidbergChain network.")
  if f.transactionVersion = some protocolVersion then
    let expected ← resolveProtocolV1NetworkId h networkName
    require (f.networkId = some expected)
      (.value "network_id does not match the active ZoidbergChain network.")

/-- The identifier of a payload: its own one must be the computed one. -/
def readTxId (h : Host) (payload : Dict) (f : CanonicalFields) : Py String := do
  let txId := h.lower ((payload.get "tx_id").trimmed h.toRuntime)
  if txId ≠ "" then
    match normalizeTxId h (.str txId) with
    | none => .error (.value "tx_id must be lowercase SHA-256 hex.")
    | some normalized => do
      let expected ← computeTransactionId h f
      require (normalized = expected)
        (.value "tx_id does not match the canonical transaction payload.")
      return normalized
  else computeTransactionId h f

/-- `validate_transaction_shape` of a dictionary (native_transfer.py:506–590). -/
def validateTransactionShape (h : Host) (networkName : String) (payload : Dict) :
    Py NativeTransaction := do
  let fields ← readCanonicalFields h payload
  requireActiveNetwork h networkName fields
  let status ← normalizeTransactionStatus h (payload.get "status")
  let txId ← readTxId h payload fields
  let createdAt ← parseTransferTimestamp h (payload.get "created_at")
  let updatedAt ← parseTransferTimestamp h (payload.get "updated_at")
  let admittedAt ← parseOptionalTimestamp h (payload.get "admitted_at")
  let includedBlockHeight ← readIncludedBlockHeight (payload.get "included_block_height")
  let settledAt ← parseOptionalTimestamp h (payload.get "settled_at")
  return {
    txId, fields, status, createdAt, updatedAt, admittedAt
    includedBlockHash := textOrNone h (payload.get "included_block_hash")
    includedBlockHeight, settledAt
    rejectionReason := textOrNone h (payload.get "rejection_reason") }

end ZoidbergChain
