import ZoidbergChain.BlockValidation

/-!
# Candidate chains of a peer (peer_sync.py)

`validateCandidateChain` turns the block payloads of a peer into blocks and validates
them as a whole chain from the genesis on. `normalizeBlockPayload` and
`normalizeTransactionPayload` check the shape of what arrives.

- `validateCandidateChain_eq_ok`: a returned chain consists of normalized payloads, passes
  the block checks in order and is an accepted chain.
-/

namespace ZoidbergChain

open Python

/-- `MalformedBlockError(message, code=..., details=...)`. -/
def malformedBlock (message : String) (code : Option String := none) (details : Dict := []) :
    PyError :=
  { exc := .peerSyncError, message, code, details }

/-- `ChainSyncError(message)`. -/
def chainSyncError (message : String) : PyError := { exc := .peerSyncError, message }

/-- The node as peer synchronization uses it. -/
structure PeerCollaborators extends Collaborators where
  /-- `Block.calculate_hash`. -/
  calculateHash : Block → Py String
  /-- `Transaction.is_valid`: the signature of a transaction. -/
  transactionIsValid : Transaction → Bool
  /-- `Blockchain.validate_transaction`: the signature and the local balance. -/
  validateTransaction : Transaction → Bool
  requireAdmissionActivationForNewBlock : Py Unit

/-! ## Payloads -/

/-- `is_valid_user_wallet_identity`. -/
def isValidUserWalletIdentity (s : String) : Bool :=
  isValidWalletPublicKey (strip s) || (addressOfChars (· == 'x') (strip s).toList).isSome

/-- `_reject_forbidden_fields`. -/
def rejectForbiddenFields (payload : Dict) (allowed : List String) (objectName : String) :
    Py Unit :=
  require (∀ key ∈ payload.keys, key ∈ allowed)
    (malformedBlock (objectName ++ " contains forbidden or unexpected fields."))

/-- The keys are there; `objectName` names the missing one in the error. -/
def requireFields (payload : Dict) (fields : List String) (objectName : String) : Py Unit :=
  match fields.find? fun field => (payload.get? field).isNone with
  | some field => .error (malformedBlock (objectName ++ field ++ " is required."))
  | none => .ok ()

/-- A non-blank text, stripped. -/
def requiredText (value : Value) (message : String) : Py String :=
  match value with
  | .str s => if strip s = "" then .error (malformedBlock message) else .ok (strip s)
  | _ => .error (malformedBlock message)

/-- `float(value)`, for which `TypeError` and `ValueError` are caught. -/
def floatField (value : Value) (message : String) : Py PyFloat :=
  match value.toFloat with
  | .ok f => .ok f
  | .error e =>
    if e.isValueError ∨ e.exc = .typeError then .error (malformedBlock message) else .error e

/-- A finite number that is not negative. -/
def requireFiniteNonNegative (value : PyFloat) (message : String) : Py Unit :=
  match value with
  | .finite x => require (0 ≤ x.value) (malformedBlock message)
  | _ => .error (malformedBlock message)

/-- The fields of a transaction payload. -/
def transactionPayloadFields : List String :=
  ["sender", "recipient", "amount", "tip", "payload_size_kb", "signature", "created_at"]

/-- The creation time of a transaction payload, which may be missing. -/
def checkCreatedAt (value : Value) : Py Unit :=
  if value.isNone then .ok ()
  else do
    let createdAt ← floatField value
      "Block transaction amount, tip, and payload size must be numeric."
    requireFiniteNonNegative createdAt "Block transaction created_at must be a valid timestamp."

/-- An object payload. -/
def asPayload (message : String) : Value → Py Dict
  | .dict payload => .ok payload
  | _ => .error (malformedBlock message)

/-- `_normalize_transaction_payload` (peer_sync.py:2550–2612). -/
def normalizeTransactionPayload (transactionPayload : Value) : Py Transaction := do
  let payload ← asPayload "Block transaction payload must be an object." transactionPayload
  rejectForbiddenFields payload transactionPayloadFields "Block transaction payload"
  requireFields payload ["sender", "recipient", "amount"] "Block transaction "
  let sender ← requiredText (payload.get "sender") "Block transaction sender is required."
  let recipient ← requiredText (payload.get "recipient")
    "Block transaction recipient is required."
  require (sender = "GENESIS" ∨ sender = "REWARD_POOL" ∨ isValidUserWalletIdentity sender = true)
    (malformedBlock "Block transaction sender is required.")
  require (isValidUserWalletIdentity recipient = true)
    (malformedBlock "Block transaction recipient is required.")
  let numeric := "Block transaction amount, tip, and payload size must be numeric."
  let amount ← floatField (payload.get "amount") numeric
  let tip ← floatField (payload.getD "tip" (.int 0)) numeric
  let payloadSizeKb ← floatField (payload.getD "payload_size_kb" (.int 0)) numeric
  requireFiniteNonNegative amount "Block transaction amount must be non-negative."
  requireFiniteNonNegative tip "Block transaction tip must be non-negative."
  requireFiniteNonNegative payloadSizeKb "Block transaction payload size must be non-negative."
  checkCreatedAt (payload.get "created_at")
  return {
    sender := .str sender
    recipient := .str recipient
    amount := payload.get "amount"
    tip := payload.getD "tip" (.int 0)
    payloadSizeKb := payload.getD "payload_size_kb" (.int 0)
    signature := payload.get "signature"
    -- a creation time of `None` is dropped and defaults to 0
    createdAt := if (payload.get "created_at").isNone then .int 0 else payload.get "created_at" }

/-- The fields of a block payload. -/
def blockPayloadFields : List String :=
  ["block_version", "genesis_version", "protocol_version", "network_id", "media_hash",
    "media_bytes", "index", "previous_hash", "timestamp", "transactions", "miner", "meme", "hash",
    "submission_id", "certificate_id", "content_hash", "content_id", "content_type", "mime_type",
    "creator_wallet", "vote_hash", "approval_percentage", "decisive_vote_total",
    "minimum_votes_required", "approved_at", "originality_score", "admission_certificate",
    "reward_type", "reward_recipient", "reward_amount", "reward_source", "minted_at",
    "voter_rewards", "native_transactions", "transaction_ids", "transaction_count",
    "transactions_hash", "total_supply", "initial_reward_pool"]

/-- A version field of a block payload: missing or a positive integer. -/
def checkVersionField (payload : Dict) (field : String) : Py Unit :=
  match payload.get field with
  | .null => .ok ()
  | .int n => require (0 < n)
      (malformedBlock ("Block " ++ field ++ " must be a positive integer when provided."))
  | _ => .error
      (malformedBlock ("Block " ++ field ++ " must be a positive integer when provided."))

/-- The height of a block payload. -/
def payloadIndex (value : Value) : Py Int :=
  match value with
  | .int n => if 0 ≤ n then .ok n
      else .error (malformedBlock "Block index must be a non-negative integer.")
  | _ => .error (malformedBlock "Block index must be a non-negative integer.")

/-- The network identifier of a block payload: missing or a non-blank text. -/
def checkNetworkField : Value → Py Unit
  | .null => .ok ()
  | .str s => require (strip s ≠ "")
      (malformedBlock "Block network_id must be a non-empty string when provided.")
  | _ => .error (malformedBlock "Block network_id must be a non-empty string when provided.")

/-- The transactions of a block payload. -/
def asTransactionList : Value → Py (List Value)
  | .list xs => .ok xs
  | _ => .error (malformedBlock "Block transactions must be a list.")

/-- `_normalize_block_payload` (peer_sync.py:2422–2547). -/
def normalizeBlockPayload (c : PeerCollaborators) (blockPayload : Value) : Py Block := do
  let payload ← asPayload "Block payload must be an object." blockPayload
  rejectForbiddenFields payload blockPayloadFields "Block payload"
  requireFields payload
    ["index", "previous_hash", "timestamp", "transactions", "miner", "meme", "hash"] "Block "
  let index ← payloadIndex (payload.get "index")
  let previousHash ← requiredText (payload.get "previous_hash") "Block previous_hash is required."
  let miner ← requiredText (payload.get "miner") "Block miner is required."
  require (miner = "GENESIS" ∨ miner = "REWARD_POOL" ∨ isValidUserWalletIdentity miner = true)
    (malformedBlock "Block miner is required.")
  let blockHash ← requiredText (payload.get "hash") "Block hash is required."
  let timestamp ← floatField (payload.get "timestamp") "Block timestamp must be a valid timestamp."
  requireFiniteNonNegative timestamp "Block timestamp must be a valid timestamp."
  let transactionsPayload ← asTransactionList (payload.get "transactions")
  let transactions ← transactionsPayload.mapM normalizeTransactionPayload
  checkVersionField payload "block_version"
  checkVersionField payload "genesis_version"
  checkVersionField payload "protocol_version"
  checkNetworkField (payload.get "network_id")
  exceptValueError
    (Block.ofFields c.host c.calculateHash (transactions.map .object)
      ((((payload.set "index" (.int index)).set "previous_hash" (.str previousHash)).set
        "miner" (.str miner)).set "hash" (.str blockHash)))
    fun e => .error (malformedBlock e.message)

/-! ## Candidate chains -/

/-- `_validate_block_hash`. -/
def validateBlockHash (c : PeerCollaborators) (block : Block) : Py Unit := do
  let calculatedHash ← exceptValueError (c.calculateHash block) fun e =>
    .error (malformedBlock e.message)
  require (Value.pyEq block.hash (.str calculatedHash) = true)
    (malformedBlock "Block hash does not match block contents.")
  let expectedHash ← exceptValueError (c.calculateHashFromDict block.toDict) fun e =>
    .error (malformedBlock e.message)
  require (Value.pyEq block.hash (.str expectedHash) = true)
    (malformedBlock "Block hash does not match existing block validation.")

/-- A system sender, whose transactions carry no signature. -/
def isSystemSender (sender : Value) : Bool :=
  Value.pyEq sender (.str "GENESIS") || Value.pyEq sender (.str "REWARD_POOL")

/-- The checks of `_validate_block_transactions` on an ordinary transaction. -/
def checkBlockTransaction (c : PeerCollaborators) : BlockTransaction → Py Unit
  | .object tx => do
    require (c.transactionIsValid tx = true)
      (malformedBlock "Block contains an invalid transaction.")
    require (isSystemSender tx.sender = true ∨ c.validateTransaction tx = true)
      (malformedBlock "Block contains an invalid transaction.")
  | .dict _ => .error (.attribute "'dict' object has no attribute 'is_valid'")

/-- `_validate_block_transactions` (peer_sync.py:2664–2680). -/
def validateBlockTransactions (c : PeerCollaborators) (block : Block) (priorChain : List Block) :
    Py Unit := do
  block.transactions.forM (checkBlockTransaction c)
  exceptValueError
    (validateNativeTransactions c.toCollaborators block.toDict (priorChain.map Block.toDict))
    fun e => .error (malformedBlock e.message e.code e.details)

/-- The loop of `_validate_candidate_chain` over the blocks behind `workingChain`. -/
def validateCandidateBlocks (c : PeerCollaborators) (workingChain : List Block) :
    List Block → Py Unit
  | [] => .ok ()
  | block :: rest => do
    validateBlockHash c block
    validateBlockTransactions c block workingChain
    validateCandidateBlocks c (workingChain ++ [block]) rest

/-- The block names an originality certificate that the node does not have. -/
def checkKnownCertificate (c : PeerCollaborators) (block : Block) : Py Unit :=
  let certificateId := block.certificateMetadata.get "certificate_id"
  if certificateId.truthy ∧ ¬Value.pyEq block.blockVersion (.int 2) then do
    let certificate ← c.getOriginalityCertificate certificateId
    require (certificate.isSome = true) (chainSyncError
      ("Missing originality certificate: " ++ certificateId.text c.host.toRuntime))
  else .ok ()

/-- `str(block.get("hash") or "")`. -/
def hashText (h : Host) (block : Dict) : String :=
  let hash := block.get "hash"
  if hash.truthy then hash.text h.toRuntime else ""

/-- A chain other than the local one needs the activation in force. -/
def activatedFor (c : PeerCollaborators) (chain : List Dict) : Py Bool :=
  if chain.map (hashText c.host) = c.chain.map (hashText c.host) then .ok true
  else
    exceptValueError (do c.requireAdmissionActivationForNewBlock; return true) fun _ => .ok false

/-- `is_chain_valid` (blockchain.py:5173–5191). -/
def isChainValid (c : PeerCollaborators) (chain : List Dict) : Py Bool := do
  if ← activatedFor c chain then validateChain c.toCollaborators chain else return false

/-- The first block of a candidate is the expected genesis. -/
def checkCandidateGenesis (c : PeerCollaborators) (first : Block) (expectedGenesisHash : Value) :
    Py Unit := do
  require (Value.pyEq first.index (.int 0) = true)
    (chainSyncError "Candidate chain must begin with genesis block.")
  exceptValueError (c.validateGenesis first.toDict) fun e => .error (chainSyncError e.message)
  require (Value.pyEq first.hash expectedGenesisHash = true)
    (chainSyncError "Candidate chain genesis hash does not match local genesis.")

/-- The last block of a candidate is the tip that the peer announced. -/
def checkCandidateTip (last : Block) (expectedHeight expectedLatestHash : Value) : Py Unit := do
  require (Value.pyEq last.index expectedHeight = true)
    (chainSyncError "Candidate chain height does not match peer summary.")
  require (Value.pyEq last.hash expectedLatestHash = true)
    (chainSyncError "Candidate chain did not reach peer latest block hash.")

/-- `_validate_candidate_chain` (peer_sync.py:2321–2360). -/
def validateCandidateChain (c : PeerCollaborators) (blocksPayload : List Value)
    (expectedLatestHash expectedGenesisHash expectedHeight : Value) : Py (List Block) := do
  let candidateChain ← blocksPayload.mapM (normalizeBlockPayload c)
  match candidateChain.head?, candidateChain.getLast? with
  | some first, some last => do
    checkCandidateGenesis c first expectedGenesisHash
    checkCandidateTip last expectedHeight expectedLatestHash
    candidateChain.forM (checkKnownCertificate c)
    validateCandidateBlocks c [] candidateChain
    require ((← isChainValid c (candidateChain.map Block.toDict)) = true)
      (chainSyncError "Candidate chain failed validation.")
    return candidateChain
  | _, _ => .error (chainSyncError "Peer returned no blocks for candidate chain.")

/-! ## What a returned chain has passed -/

variable {c : PeerCollaborators}

theorem isChainValid_eq_ok {chain : List Dict} (hok : isChainValid c chain = .ok true) :
    validateChain c.toCollaborators chain = .ok true := by
  simp only [isChainValid, bind_eq_ok] at hok
  obtain ⟨activated, -, hok⟩ := hok
  cases activated with
  | false => cases hok
  | true => exact hok

/-- A chain that a peer delivered and `validateCandidateChain` returned. -/
structure AcceptedCandidate (c : PeerCollaborators) (blocks : List Block) : Prop where
  normalized : ∃ payloads : List Value, payloads.mapM (normalizeBlockPayload c) = .ok blocks
  checked : validateCandidateBlocks c [] blocks = .ok ()
  accepted : validateChain c.toCollaborators (blocks.map Block.toDict) = .ok true

theorem validateCandidateChain_eq_ok {blocksPayload : List Value}
    {latestHash genesisHash height : Value} {blocks : List Block}
    (hok : validateCandidateChain c blocksPayload latestHash genesisHash height = .ok blocks) :
    AcceptedCandidate c blocks := by
  simp only [validateCandidateChain, bind_eq_ok] at hok
  obtain ⟨candidate, hnormalized, hok⟩ := hok
  split at hok
  · simp only [bind_eq_ok, require_eq_ok, pure_eq_ok] at hok
    obtain ⟨-, -, -, -, -, -, ⟨⟩, hblocks, valid, hvalid, -, rfl, rfl⟩ := hok
    exact ⟨⟨_, hnormalized⟩, hblocks, isChainValid_eq_ok hvalid⟩
  · cases hok

/-! ## A sample peer -/

/-- The sample node as a peer: it holds every signature to be valid. -/
def SampleNode.peer (h : Host) (activationHeight : Option ActivationHeight) :
    PeerCollaborators where
  toCollaborators := collaborators h activationHeight
  calculateHash block :=
    match block.hash with
    | .str s => .ok s
    | _ => .error (.value "hash")
  transactionIsValid _ := true
  validateTransaction _ := true
  requireAdmissionActivationForNewBlock := .ok ()

end ZoidbergChain
