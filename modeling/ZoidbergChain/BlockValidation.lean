import ZoidbergChain.Block
import ZoidbergChain.NativeLedger

/-!
# Block and chain validation (block_validation_service.py)

`validateBlock` checks one block dictionary against a prior chain: its version and
height, the embedded media, the certificate and reward metadata, and the native
transactions. `validateChain` links the blocks of a chain by their hashes and
validates each of them against the blocks in front of it.

The node's stores and the hash, media and signature checks come in as
`Collaborators`; the rest is the code.

- `validateChain_eq_ok`: what acceptance says about every block.
- `validateNativeTransactions_eq_ok`: the native transactions of an accepted block
  are in sequence and covered by the balances of the prior chain.
-/

namespace ZoidbergChain

open Python

/-- A configured activation height, which is at least 1 (admission_activation.py:20–22). -/
abbrev ActivationHeight := {height : Int // 1 ≤ height}

/-- The result of `resolve_protocol_v1_block_media`. -/
structure ResolvedMedia where
  storedBytes : List UInt8
  contentHash : String
  mimeType : String

/-- The fields of a content object that block validation reads. -/
structure ContentObject where
  contentId : String
  contentType : String
  mimeType : String
  storageStatus : String

/-- The fields of a genesis record (protocol_v1_genesis.py:60–79). -/
def genesisAllowedFields : List String :=
  ["genesis_version", "protocol_version", "network_id", "index", "previous_hash", "timestamp",
    "transactions", "miner", "meme", "content_type", "media_hash", "media_bytes", "mime_type",
    "hash", "total_supply", "initial_reward_pool"]

/-- An allocation of the genesis record: a payment of `GENESIS` with integer amounts. -/
structure IsAllocation (tx : Dict) : Prop where
  sender : tx.get "sender" = .str "GENESIS"
  recipient : ∃ r, tx.get "recipient" = .str r ∧ strip r ≠ ""
  amount : ∃ n : Nat, tx.get "amount" = .int n
  tip : ∃ n : Nat, tx.get? "tip" = some (.int n)

/-- What `validate_public_testnet_v1_genesis_record` accepts: a record at index 0 with no
other fields than the allowed ones, whose transactions are allocations. -/
structure GenesisRecord (record : Dict) : Prop where
  fields : ∀ e ∈ record, e.1 ∈ genesisAllowedFields
  index : record.get "index" = .int 0
  transactions : ∃ txs : List Dict, record.get "transactions" = .list (txs.map .dict) ∧
    ∀ tx ∈ txs, IsAllocation tx

/-- `BlockValidationCollaborators`. Certificates and submissions are the tables of
their attributes. -/
structure Collaborators where
  host : Host
  chain : List Dict
  networkName : String
  admissionActivationHeight : Option ActivationHeight
  memeBlockReward : Value
  voterRewardApprovalSide : String
  voterRewardRejectionSide : String
  resolveProtocolV1BlockMedia : Dict → Py ResolvedMedia
  expectedVoterRewardRecordsById : String → Py (List (String × Dict))
  getOriginalityCertificate : Value → Py (Option Dict)
  validateOriginalityCertificate : Dict → Dict → List Dict → Py Unit
  getSubmission : Value → Py (Option Dict)
  getContentObjectByHash : Value → Py (Option ContentObject)
  verifyContentObjectPayload : ContentObject → Py Bool
  validateAdmissionCertificate : Value → List UInt8 → Py Unit
  calculateHashFromDict : Dict → Py String
  validateGenesis : Dict → Py Unit
  validateGenesis_record : ∀ record, validateGenesis record = .ok () → GenesisRecord record

/-- `is_protocol_v1_block_payload`. -/
def isProtocolV1BlockPayload (block : Dict) : Py Bool := do
  let version ← (block.get "block_version").hashKey
  return decide (version = .number protocolV1BlockVersion ∨
    version = .number admissionBlockVersion)

/-- The `block_index` of error details. -/
def indexDetail (block : Dict) : Dict := [("block_index", block.get "index")]

/-! ## Native transactions -/

/-- The fields that a block with native transactions must carry. -/
def certificateContextFields : List String :=
  ["submission_id", "certificate_id", "content_hash", "creator_wallet", "vote_hash",
    "approval_percentage", "decisive_vote_total", "minimum_votes_required", "approved_at",
    "originality_score", "reward_type", "reward_recipient", "reward_amount", "reward_source",
    "minted_at"]

/-- `native_block_requires_certificate_context`. -/
def nativeBlockRequiresCertificateContext (block : Dict) : Py Bool := do
  if (← blockNativeTransactions block).isEmpty then return false
  return certificateContextFields.all fun field => !(block.get field).isNone

/-- `compute_block_native_transactions_hash`. -/
def computeNativeTransactionsHash (h : Host) (transactions : List Value) : Py String := do
  return h.sha256Hex (encodeUtf8 (← Json.dumps true (.list transactions)))

/-- `native_block_sort_key`. -/
def nativeBlockSortKey (h : Host) (tx : Dict) : Py (String × Int × String) := do
  let text (v : Value) : String := if v.truthy then v.text h.toRuntime else ""
  return (text (tx.get "from_address"), ← coerceNativeNonce h (tx.get "nonce"),
    text (tx.get "tx_id"))

/-- The order of two sort keys. -/
def sortKeyLe (a b : String × Int × String) : Bool :=
  decide (a.1 < b.1) || (a.1 == b.1 && (decide (a.2.1 < b.2.1) ||
    (a.2.1 == b.2.1 && decide (a.2.2 ≤ b.2.2))))

/-- `sorted(transactions, key=native_block_sort_key)`. -/
def sortNativeTransactions (h : Host) (transactions : List Dict) : Py (List Dict) := do
  let keyed ← transactions.mapM fun tx => do return (← nativeBlockSortKey h tx, tx)
  return (keyed.insertionSort fun a b => sortKeyLe a.1 b.1).map (·.2)

/-- An item of `native_transactions` that is an object. -/
def asNativeTransaction : Value → Py Dict
  | .dict tx => .ok tx
  | _ => .error (.attribute "object has no attribute 'get'")

/-- One turn of the loop of `validate_native_transactions`. -/
def validateNativeTransactionStep (c : Collaborators) (block : Dict)
    (canonicalTxIds : Finset HashKey) (state : BlockStepState × List Dict)
    (transaction : Dict × Nat) : Py (BlockStepState × List Dict) :=
  exceptValueError
    (do
      let step ← validateBlockStep c.host c.networkName canonicalTxIds transaction.1 state.1
      return (step.2, state.2 ++ [step.1]))
    fun e => do
      let code := codeForError c.host e
      let isV1 ← isProtocolV1BlockPayload block
      let legacy := code = "unsupported_version" ∧ isV1
      let txId := loweredText c.host (transaction.1.get "tx_id")
      .error (blockError (if legacy then "unsupported_transaction_version" else code)
        (if legacy then "Protocol v1 blocks cannot include legacy native transactions."
          else e.message)
        [("transaction_index", .int transaction.2),
          ("tx_id", if txId = "" then .null else .str txId)])

/-- The hash and the context of a block with native transactions. -/
def checkNativeContext (c : Collaborators) (block : Dict) (nativeTransactions : List Value) :
    Py Unit :=
  if nativeTransactions.isEmpty then .ok ()
  else do
    let transactionsHash := block.get "transactions_hash"
    let expectedHash ← computeNativeTransactionsHash c.host nativeTransactions
    require (Value.pyEq transactionsHash (.str expectedHash) = true)
      (blockError "transactions_hash_mismatch"
        "Block transactions_hash does not match native_transactions."
        [("transactions_hash", transactionsHash)])
    require ((← nativeBlockRequiresCertificateContext block) = true)
      (blockError "invalid_block_context"
        "Blocks containing native transactions must remain meme-mined blocks.")

/-- Step the native transactions of a block over the balances of the prior chain. -/
def stepNativeTransactions (c : Collaborators) (block : Dict) (chainState : ChainState)
    (transactions : List Dict) : Py (List Dict) := do
  let state ← transactions.zipIdx.foldlM
    (validateNativeTransactionStep c block chainState.seenTxIds)
    (⟨chainState.balances, chainState.nextNonces, ∅, ∅⟩, [])
  return state.2

/-- `validate_native_transactions` (block_validation_service.py:106–154). -/
def validateNativeTransactions (c : Collaborators) (block : Dict) (priorChain : List Dict) :
    Py Unit := do
  let nativeTransactions ← blockNativeTransactions block
  let transactionIds ← (block.get "transaction_ids").listOrEmpty
  let transactionCount := block.getD "transaction_count" (.int nativeTransactions.length)
  require (Value.pyEq transactionCount (.int nativeTransactions.length) = true)
    (blockError "invalid_transaction_count"
      "Block transaction_count does not match native_transactions length."
      [("transaction_count", transactionCount),
        ("actual_count", .int nativeTransactions.length)])
  -- reading the identifiers already fails on an item that is not an object
  let transactions ← nativeTransactions.mapM asNativeTransaction
  let expectedIds := transactions.map (Dict.get · "tx_id")
  require (Value.pyEqList transactionIds expectedIds = true)
    (blockError "transaction_id_mismatch"
      "Block transaction_ids do not match native_transactions."
      [("transaction_ids", .list transactionIds),
        ("expected_transaction_ids", .list expectedIds)])
  checkNativeContext c block nativeTransactions
  let prior := if priorChain.isEmpty then c.chain else priorChain
  let chainState ← calculateBalancesFromChain c.host c.networkName prior
  let validated ← stepNativeTransactions c block chainState transactions
  let expectedOrder ← sortNativeTransactions c.host validated
  require (Value.pyEqList (validated.map (Dict.get · "tx_id"))
      (expectedOrder.map (Dict.get · "tx_id")) = true)
    (blockError "transaction_order_invalid"
      "Block native transaction ordering does not match the canonical block ordering policy.")

/-! ## Media -/

/-- `_validate_content_type`. -/
def validateContentType (h : Host) (contentType : Value) : Py String :=
  match contentType with
  | .str s =>
    if strip s ∈ ["image", "text", "mixed"] then .ok (strip s)
    else .error (.value ("Invalid content_type: " ++ h.repr contentType))
  | _ => .error (.value ("Invalid content_type: " ++ h.repr contentType))

/-- `except ValueError as exc: self._raise(code, str(exc), block_index=...)`. -/
def reraise {α : Type} (code : String) (details : Dict) (x : Py α) : Py α :=
  exceptValueError x fun e => .error (blockError code e.message details)

/-- `except (TypeError, ValueError) as exc: self._raise(...)`. -/
def reraiseType {α : Type} (code : String) (details : Dict) (x : Py α) : Py α :=
  match x with
  | .ok a => .ok a
  | .error e =>
    if e.isValueError ∨ e.exc = .typeError then .error (blockError code e.message details)
    else .error e

/-- The checks of a Protocol v1 or admission block on its media. -/
def checkProtocolV1Media (c : Collaborators) (block : Dict) : Py Unit := do
  let index := indexDetail block
  let mediaHash := block.get "media_hash"
  let contentHash := block.get "content_hash"
  require (isValidContentHash mediaHash = true) (blockError "invalid_media_hash"
    "Protocol v1 block media_hash must be a 64-character lowercase hexadecimal string." index)
  require (isValidContentHash contentHash = true) (blockError "invalid_content_hash"
    "Protocol v1 block content_hash must be a 64-character lowercase hexadecimal string." index)
  require (block.get "media_bytes" ≠ .null) (blockError "missing_media_bytes"
    "Protocol v1 blocks must embed immutable media bytes." index)
  let contentType ← reraise "invalid_content_metadata" index
    (validateContentType c.host (block.get "content_type"))
  let resolved ← reraise "invalid_embedded_media" index (c.resolveProtocolV1BlockMedia block)
  let embeddedMedia ← reraiseType "invalid_embedded_media" index
    (coerceMediaBytes (block.get "media_bytes"))
  require (some resolved.storedBytes = embeddedMedia) (blockError "noncanonical_media_bytes"
    "Protocol v1 media_bytes must already be the canonical accepted byte sequence." index)
  require (Value.pyEq mediaHash (.str resolved.contentHash) = true)
    (blockError "media_hash_mismatch"
      "Protocol v1 block media_hash does not match embedded media bytes."
      (index ++ [("media_hash", mediaHash), ("actual_media_hash", .str resolved.contentHash)]))
  require (Value.pyEq contentHash (.str resolved.contentHash) = true)
    (blockError "content_hash_mismatch"
      "Protocol v1 block content_hash does not match embedded media bytes."
      (index ++ [("content_hash", contentHash),
        ("actual_content_hash", .str resolved.contentHash)]))
  require (resolved.mimeType = "text/plain" → contentType = "text")
    (blockError "content_type_mismatch"
      "Protocol v1 text blocks must declare content_type='text'." index)
  require (resolved.mimeType ≠ "text/plain" → contentType = "image" ∨ contentType = "mixed")
    (blockError "content_type_mismatch"
      "Protocol v1 binary blocks must declare content_type='image' or 'mixed'." index)

/-- `validate_protocol_v1_payload`. A payload is of Protocol v1 exactly when its version
is one of the two supported ones. -/
def validateProtocolV1Payload (c : Collaborators) (block : Dict) : Py Unit := do
  if ← isProtocolV1BlockPayload block then do
    let networkId := block.get "network_id"
    let expectedNetworkId ← resolveNetworkId c.networkName
    require (Value.pyEq networkId (.str expectedNetworkId) = true) (blockError "wrong_network"
      "Protocol v1 block network_id does not match the local network."
      (indexDetail block ++ [("network_id", networkId),
        ("expected_network_id", .str expectedNetworkId)]))
    checkProtocolV1Media c block
  else return ()

/-! ## Voter rewards -/

/-- `block_voter_rewards`. -/
def blockVoterRewards (block : Dict) : Py (List Value) := (block.get "voter_rewards").listOrEmpty

/-- `settled_voter_reward_ids`. -/
def settledVoterRewardIds (h : Host) (chain : List Dict) : Py (List String) := do
  let entries ← chain.mapM blockVoterRewards
  let ids ← entries.flatten.mapM fun entry => do
    return ((← entry.asDict).get "reward_id").trimmed h.toRuntime
  return ids.filter (· ≠ "")

/-- `reward_units_from_amount_string(amount, allow_zero=False)`: millionths. -/
def rewardUnits (h : Host) (amount : Value) : Py Int := do
  let text ← parseNativeZoidAmount h (amount.orElse (.str "0")) false
  match ← Decimal.ofString text with
  | .finite q => return roundHalfEven (q * 1000000)
  | _ => .error Decimal.invalidOperation

/-- `_build_reward_transaction_key`. -/
def buildRewardTransactionKey (h : Host) (recipient amount : Value) : Py (String × Int) :=
  match normalizeWalletIdentity h.toRuntime recipient with
  | none => .error (.value "Reward recipient is invalid.")
  | some wallet => do return (wallet, ← rewardUnits h amount)

/-- The fields of a voter reward entry. -/
def voterRewardRequiredFields : List String :=
  ["reward_id", "reward_type", "reward_recipient", "reward_amount", "reward_source",
    "submission_id", "vote_choice", "final_decision", "decision_reason",
    "decision_finalized_at", "created_at", "network_name"]

/-- The fields that the reward plan fixes. -/
def voterRewardPlanFields : List String :=
  ["reward_type", "reward_recipient", "reward_amount", "reward_source", "submission_id",
    "certificate_id", "content_hash", "vote_choice", "final_decision", "decision_reason",
    "decision_finalized_at", "created_at", "network_name"]

/-- `str(entry[field]).strip()`. -/
def strippedField (h : Host) (entry : Dict) (field : String) : String :=
  strip ((entry.get field).text h.toRuntime)

/-- The value is missing or a blank text. -/
def isBlank : Value → Bool
  | .null => true
  | .str s => strip s == ""
  | _ => false

/-- `_raise("invalid_voter_reward_metadata", message, block_index=..., **details)`. -/
def invalidVoterReward (block : Dict) (message : String) (details : Dict := []) : PyError :=
  blockError "invalid_voter_reward_metadata" message (indexDetail block ++ details)

/-- An entry of `voter_rewards`. -/
def asVoterReward (block : Dict) : Value → Py Dict
  | .dict entry => .ok entry
  | _ => .error (invalidVoterReward block "Each voter reward entry must be an object.")

/-- The required fields of an entry, in order. -/
def checkVoterRewardFields (block entry : Dict) : Py Unit :=
  match voterRewardRequiredFields.find? fun field => isBlank (Dict.get entry field) with
  | some field => .error (invalidVoterReward block
      s!"Block voter reward metadata missing {field}." [("field_name", .str field)])
  | none => .ok ()

/-- The entry is the one of the deterministic reward plan. -/
def checkVoterRewardPlan (c : Collaborators) (block entry : Dict) (rewardId : String) :
    Py Unit := do
  let submissionId := strippedField c.host entry "submission_id"
  match (← c.expectedVoterRewardRecordsById submissionId).lookup rewardId with
  | none => .error (invalidVoterReward block
      "Block voter reward does not match the deterministic reward plan for this submission."
      [("reward_id", .str rewardId), ("submission_id", .str submissionId)])
  | some expected =>
    match voterRewardPlanFields.find? fun field =>
        !Value.pyEq (Dict.get entry field) (Dict.get expected field) with
    | some field => .error (invalidVoterReward block
        s!"Block voter reward {field} does not match the deterministic reward plan."
        [("reward_id", .str rewardId), ("field_name", .str field)])
    | none => .ok ()

/-- One turn of the loop of `validate_voter_rewards`: the accepted entries so far, as
identifier and key. -/
def validateVoterRewardEntry (c : Collaborators) (block : Dict) (priorIds : List String)
    (validated : List (String × (String × Int))) (item : Value) :
    Py (List (String × (String × Int))) := do
  let entry ← asVoterReward block item
  checkVoterRewardFields block entry
  let text := strippedField c.host entry
  let rewardId := text "reward_id"
  let idDetail : Dict := [("reward_id", .str rewardId)]
  let invalid (message : String) : PyError := invalidVoterReward block message idDetail
  require (rewardId ∉ validated.map (·.1)) (blockError "duplicate_reward"
    "Block contains duplicate voter reward IDs." (indexDetail block ++ idDetail))
  require (rewardId ∉ priorIds) (blockError "duplicate_reward"
    "Block duplicates a voter reward that was already settled earlier in the chain."
    (indexDetail block ++ idDetail))
  require (text "reward_type" = "voter_majority_reward")
    (invalid "Block voter reward_type is invalid.")
  require (text "reward_source" = "reward_pool")
    (invalid "Block voter reward_source is invalid.")
  let recipient := normalizeWalletIdentity c.host.toRuntime (Dict.get entry "reward_recipient")
  require (recipient.isSome = true) (invalid "Block voter reward_recipient is invalid.")
  let voteChoice := c.host.lower (text "vote_choice")
  let decision := c.host.lower (text "final_decision")
  require (voteChoice = "original" ∨ voteChoice = "not_original")
    (invalid "Block voter reward vote_choice must be decisive.")
  require (decision = c.voterRewardApprovalSide ∨ decision = c.voterRewardRejectionSide)
    (invalid "Block voter reward final_decision is invalid.")
  require (¬((decision = c.voterRewardApprovalSide ∧ voteChoice ≠ "original") ∨
      (decision = c.voterRewardRejectionSide ∧ voteChoice ≠ "not_original")))
    (invalid "Block voter reward vote_choice does not match final_decision.")
  let rewardKey ← reraise "invalid_voter_reward_metadata" (indexDetail block ++ idDetail)
    (buildRewardTransactionKey c.host (.str (recipient.getD ""))
      (Dict.get entry "reward_amount"))
  checkVoterRewardPlan c block entry rewardId
  return validated ++ [(rewardId, rewardKey)]

/-- `validate_voter_rewards`: the accepted entries as identifier and key. -/
def validateVoterRewards (c : Collaborators) (block : Dict) (priorChain : List Dict) :
    Py (List (String × (String × Int))) :=
  match block.get "voter_rewards" with
  | .null => .ok []
  | .list [] => .ok []
  | .list entries => do
    let priorIds ← settledVoterRewardIds c.host priorChain
    entries.foldlM (validateVoterRewardEntry c block priorIds) []
  | _ => .error (blockError "invalid_voter_reward_metadata"
      "Block voter_rewards must be a list when provided." (indexDetail block))

/-! ## Certificate metadata -/

/-- The fields that `extract_certificate_metadata` collects. -/
def certificateMetadataFields : List String :=
  ["submission_id", "certificate_id", "content_hash", "content_id", "content_type", "mime_type",
    "creator_wallet", "vote_hash", "approval_percentage", "decisive_vote_total",
    "minimum_votes_required", "approved_at", "originality_score", "reward_type",
    "reward_recipient", "reward_amount", "reward_source", "minted_at", "native_transactions",
    "transaction_ids", "transaction_count", "transactions_hash"]

/-- The `meme` of a block, if it is a dictionary. -/
def memeDict (block : Dict) : Dict :=
  match block.get "meme" with
  | .dict meme => meme
  | _ => []

/-- A field of the block, or of its `meme` when the block has none. -/
def metadataField (block : Dict) (field : String) : Value :=
  if (block.get field).isNone then (memeDict block).get field else block.get field

/-- `extract_certificate_metadata`. -/
def extractCertificateMetadata (block : Dict) : Dict :=
  certificateMetadataFields.filterMap fun field =>
    let value := metadataField block field
    if value.isNone then none else some (field, value)

/-- The fields that a certificate decides. -/
def certificateRequiredFields : List String :=
  ["submission_id", "certificate_id", "content_hash", "creator_wallet", "vote_hash",
    "approval_percentage", "decisive_vote_total", "minimum_votes_required", "approved_at",
    "originality_score"]

/-- The fields of a meme reward. -/
def rewardFields : List String :=
  ["reward_type", "reward_recipient", "reward_amount", "reward_source", "minted_at"]

/-- Two present values differ. -/
def presentAndDiffer (a b : Value) : Bool := !a.isNone && !b.isNone && !Value.pyEq a b

/-- The certificate that the metadata names, which belongs to the same submission and
content. -/
def resolveCertificate (c : Collaborators) (metadata : Dict) : Py Dict := do
  let certificateId := metadata.get "certificate_id"
  let submissionId := metadata.get "submission_id"
  let ids : Dict := [("certificate_id", certificateId), ("submission_id", submissionId)]
  match ← c.getOriginalityCertificate certificateId with
  | none => .error (blockError "unknown_certificate"
      "Block references unknown originality certificate." [("certificate_id", certificateId)])
  | some certificate => do
    require (Value.pyEq (Dict.get certificate "submission_id") submissionId = true)
      (blockError "certificate_submission_mismatch"
        "Block certificate_id does not match block submission_id." ids)
    require (Value.pyEq (Dict.get certificate "content_hash") (metadata.get "content_hash") = true)
      (blockError "content_hash_mismatch"
        "Block certificate content_hash does not match block content_hash." ids)
    require (presentAndDiffer (metadata.get "content_id") (Dict.get certificate "content_id")
        = false)
      (blockError "content_id_mismatch" "Block content_id does not match certificate content_id."
        ids)
    return certificate

/-- The checks against the local submission, when there is one. -/
def checkSubmission (c : Collaborators) (metadata certificate : Dict) (priorChain : List Dict) :
    Option Dict → Py Unit
  | none => .ok ()
  | some submission => do
    let detail : Dict := [("submission_id", metadata.get "submission_id")]
    require (Dict.get submission "attestation_requirement" ≠ .str "public_testnet_v1_required")
      (blockError "missing_admission_certificate"
        "Originality-only block cannot mint a current submission.")
    c.validateOriginalityCertificate certificate submission priorChain
    require (Value.pyEq (metadata.get "content_hash") (Dict.get submission "content_hash") = true)
      (blockError "content_hash_mismatch" "Block content_hash does not match submission." detail)
    require ((metadata.get "content_id").isNone = true ∨
        Value.pyEq (metadata.get "content_id") (Dict.get submission "content_id") = true)
      (blockError "content_id_mismatch" "Block content_id does not match submission." detail)

/-- Every decided field is the one of the certificate. -/
def checkCertificateFields (metadata certificate : Dict) : Py Unit :=
  match certificateRequiredFields.find? fun field =>
      !Value.pyEq (Dict.get metadata field) (Dict.get certificate field) with
  | some field => .error (blockError "certificate_metadata_mismatch"
      s!"Block certificate metadata {field} does not match certificate."
      [("field_name", .str field), ("certificate_id", Dict.get metadata "certificate_id"),
        ("submission_id", Dict.get metadata "submission_id")])
  | none => .ok ()

/-- `resolve_meme_reward_recipient` (reward_service.py:72–76). -/
def resolveMemeRewardRecipient (h : Host) (submission certificate : Dict) : Py String :=
  let wallet (v : Value) : Option String := normalizeWalletIdentity h.toRuntime v
  match ((wallet (submission.get "creator_wallet_address")).or
      (wallet (certificate.get "creator_wallet"))).or (wallet (submission.get "submitter")) with
  | some normalized => .ok normalized
  | none =>
    .error (.value "Minting reward recipient is missing or invalid for this submission.")

/-- The recipient is the creator of the local submission, when there is one. -/
def checkRewardRecipient (c : Collaborators) (metadata certificate : Dict)
    (submission : Option Dict) (recipient : String) : Py Unit :=
  match submission with
  | none => .ok ()
  | some submission => do
    let expected ← resolveMemeRewardRecipient c.host submission certificate
    require (recipient = expected) (blockError "reward_recipient_mismatch"
      "Block reward_recipient does not match submission creator wallet."
      [("submission_id", Dict.get metadata "submission_id"),
        ("reward_recipient", .str recipient)])

/-- A block of the prior chain already paid the meme reward of the submission. -/
def memeRewardSettled (priorChain : List Dict) (submissionId : Value) : Bool :=
  priorChain.any fun block => Value.pyEq (Dict.get block "submission_id") submissionId &&
    Value.pyEq (Dict.get block "reward_type") (.str "meme_mining_reward")

/-- The meme reward of the metadata, if it names one. -/
def checkMemeReward (c : Collaborators) (metadata certificate : Dict)
    (submission : Option Dict) (priorChain : List Dict) : Py Unit :=
  if rewardFields.all fun field => (Dict.get metadata field).isNone then .ok ()
  else do
    let submissionId := metadata.get "submission_id"
    let detail : Dict := [("submission_id", submissionId)]
    match rewardFields.find? fun field => (Dict.get metadata field).isNone with
    | some field => .error (blockError "invalid_reward_metadata"
        s!"Block reward metadata missing {field}." (detail ++ [("field_name", .str field)]))
    | none => do
      require (metadata.get "reward_type" = .str "meme_mining_reward")
        (blockError "invalid_reward_metadata" "Block reward_type is invalid." detail)
      require (metadata.get "reward_source" = .str "reward_pool")
        (blockError "invalid_reward_metadata" "Block reward_source is invalid." detail)
      match normalizeWalletIdentity c.host.toRuntime (metadata.get "reward_recipient") with
      | none => .error (blockError "reward_recipient_mismatch"
          "Block reward_recipient is invalid." detail)
      | some recipient => do
        let amount ← (metadata.get "reward_amount").toFloat
        let configured ← c.memeBlockReward.toFloat
        require (Value.pyEq (.float amount) (.float configured) = true)
          (blockError "reward_amount_mismatch"
            "Block reward_amount does not match configured reward."
            (detail ++ [("reward_amount", metadata.get "reward_amount")]))
        checkRewardRecipient c metadata certificate submission recipient
        require (memeRewardSettled priorChain submissionId = false)
          (blockError "duplicate_reward"
            "Block duplicates the meme reward for an already minted submission." detail)

/-- `_block_reward_transactions`: the transactions of the reward pool. -/
def blockRewardTransactions (block : Dict) : Py (List Dict) := do
  let transactions ← (block.getD "transactions" (.list [])).iter
  return transactions.filterMap fun
    | .dict tx => if Value.pyEq (Dict.get tx "sender") (.str "REWARD_POOL") then some tx else none
    | _ => none

/-- Every declared voter reward is paid at least as often as it is declared. -/
def checkVoterRewardTransactions (c : Collaborators) (block : Dict)
    (expectedKeys : List (String × Int)) : Py Unit :=
  if expectedKeys.isEmpty then .ok ()
  else do
    let actual ← (← blockRewardTransactions block).mapM fun tx =>
      exceptValueError
        (buildRewardTransactionKey c.host (Dict.get tx "recipient") (Dict.get tx "amount"))
        fun _ => .error (blockError "invalid_reward_metadata"
          "Block contains an invalid REWARD_POOL transaction." (indexDetail block))
    require (∀ key ∈ expectedKeys, expectedKeys.count key ≤ actual.count key)
      (blockError "invalid_reward_metadata"
        "Block voter reward transactions do not match the declared reward metadata."
        (indexDetail block ++
          [("expected_voter_reward_transactions", .int expectedKeys.length),
            ("actual_reward_transactions", .int actual.length)]))

/-- The declared content type of an object that the node does not hold may differ. -/
def contentTypeCompatible (object : ContentObject) (contentType : Value) : Py Bool :=
  if (object.storageStatus = "remote" ∨ object.storageStatus = "missing") ∧
      object.contentType = "image" then do
    let key ← contentType.hashKey
    return decide (key = .str "mixed" ∨ key = .str "text")
  else return false

/-- The stored payload of a verified object. -/
def contentPayloadVerified (c : Collaborators) (object : ContentObject) : Py Bool :=
  if object.storageStatus = "verified" then c.verifyContentObjectPayload object else return true

/-- The content type of the metadata is the one of the content object, or compatible. -/
def checkContentType (object : ContentObject) (metadata : Dict) : Py Unit :=
  let contentType := metadata.get "content_type"
  if presentAndDiffer contentType (.str object.contentType) then do
    let compatible ← contentTypeCompatible object contentType
    require (compatible = true) (blockError "content_type_mismatch"
      "Block content_type does not match content object."
      [("submission_id", metadata.get "submission_id")])
  else return ()

/-- The content object of the metadata, when the node has it. -/
def checkContentObject (c : Collaborators) (metadata : Dict) : Option ContentObject → Py Unit
  | none => .ok ()
  | some object => do
    let detail : Dict := [("submission_id", metadata.get "submission_id")]
    let mimeType := metadata.get "mime_type"
    require (presentAndDiffer (metadata.get "content_id") (.str object.contentId) = false)
      (blockError "content_id_mismatch" "Block content_id does not match content object." detail)
    checkContentType object metadata
    require (presentAndDiffer mimeType (.str object.mimeType) = true →
        (object.storageStatus = "remote" ∨ object.storageStatus = "missing") ∧
          object.mimeType = "application/octet-stream")
      (blockError "mime_type_mismatch" "Block mime_type does not match content object." detail)
    let verified ← contentPayloadVerified c object
    require (verified = true) (blockError "content_hash_mismatch"
      "Verified local content file does not match block content_hash." detail)

/-- The certificate part of `validate_certificate_metadata`, for a block that carries one
of the fields that a certificate decides. -/
def checkCertified (c : Collaborators) (block metadata : Dict)
    (expectedKeys : List (String × Int)) (priorChain : List Dict) : Py Unit := do
  match certificateRequiredFields.find? fun field => (Dict.get metadata field).isNone with
  | some field => .error (blockError "invalid_block_context"
      s!"Block certificate metadata missing {field}."
      (indexDetail block ++ [("field_name", .str field)]))
  | none => do
    let certificate ← resolveCertificate c metadata
    let submission ← c.getSubmission (metadata.get "submission_id")
    checkSubmission c metadata certificate priorChain submission
    checkCertificateFields metadata certificate
    checkMemeReward c metadata certificate submission priorChain
    checkVoterRewardTransactions c block expectedKeys
    let object ← c.getContentObjectByHash (metadata.get "content_hash")
    checkContentObject c metadata object

/-- The legacy and Protocol v1 part of `validate_certificate_metadata`. -/
def validateOriginalityBlock (c : Collaborators) (block : Dict) (priorChain : List Dict) :
    Py Unit := do
  let metadata := extractCertificateMetadata block
  let voterRewards ← validateVoterRewards c block priorChain
  if metadata.isEmpty then
    require (voterRewards = []) (blockError "invalid_voter_reward_metadata"
      "Blocks with voter rewards must include certified meme block metadata."
      (indexDetail block))
  else do
    let natives ← blockNativeTransactions block
    let hasContext ← nativeBlockRequiresCertificateContext block
    require (natives = [] ∨ hasContext = true) (blockError "invalid_block_context"
      ("Blocks containing native transactions must include certified meme block metadata " ++
        "and reward metadata.") (indexDetail block))
    if certificateRequiredFields.all fun field => (Dict.get metadata field).isNone then return ()
    else checkCertified c block metadata (voterRewards.map (·.2)) priorChain

/-! ## Admission blocks -/

/-- `MIN_VALID_VOTES`. -/
def minValidVotes : Int := 5

/-- `a / b` of two integers. -/
def trueDivision (a b : Value) : Py Value :=
  match a.number?, b.number? with
  | some p, some q =>
    if q = 0 then .error { exc := .zeroDivisionError, message := "division by zero" }
    else .ok (.float (.ofRat (p / q)))
  | _, _ => .error (.type "unsupported operand type(s) for /")

/-- `calculate_content_id`. -/
def calculateContentId (h : Host) (contentHash : Value) : Py Value :=
  match contentHash with
  | .str s =>
    if IsHex64 (strip s) then
      .ok (.str (String.ofList ((h.sha256Hex (encodeUtf8 (strip s))).toList.take 32)))
    else .error (.value "content_hash must be a 64-character lowercase hexadecimal string.")
  | _ => .error (.value "content_hash must be a 64-character lowercase hexadecimal string.")

/-- `AdmissionMintCertificateView`: the fields that an admission certificate decides. -/
def admissionMintCertificateView (h : Host) (certificate : Dict) : Py Dict := do
  let submissionId ← certificate.index "submission_id"
  let certificateId ← certificate.index "certificate_digest"
  let contentHash ← certificate.index "content_hash"
  let contentId ← calculateContentId h contentHash
  let creatorWallet ← certificate.index "creator_wallet"
  let tally ← (← certificate.index "originality").asDict
  let voteHash ← tally.index "vote_set_digest"
  let positive ← tally.index "positive_votes"
  let denominator ← tally.index "approval_denominator"
  let approval ← trueDivision positive denominator
  return [("submission_id", submissionId), ("certificate_id", certificateId),
    ("content_hash", contentHash), ("content_id", contentId), ("creator_wallet", creatorWallet),
    ("vote_hash", voteHash), ("approval_percentage", approval),
    ("decisive_vote_total", denominator), ("minimum_votes_required", .int minValidVotes),
    ("approved_at", .int 0), ("originality_score", approval)]

/-- `except (KeyError, TypeError, ValueError) as exc: self._raise(...)`. -/
def reraiseKey {α : Type} (code : String) (details : Dict) (x : Py α) : Py α :=
  match x with
  | .ok a => .ok a
  | .error e =>
    if e.isValueError ∨ e.exc = .typeError ∨ e.exc = .keyError then
      .error (blockError code e.message details)
    else .error e

/-- Every field that the certificate decides is the one of the block. -/
def checkAdmissionFields (block expected : Dict) : Py Unit :=
  match expected.find? fun e => !Value.pyEq (Dict.get block e.1) e.2 with
  | some (field, _) => .error (blockError "admission_block_binding_mismatch"
      s!"Admission block {field} does not match its certificate."
      (indexDetail block ++ [("field_name", .str field)]))
  | none => .ok ()

/-- A local submission that needs an attestation has the certified content. -/
def checkAdmissionSubmission (expected : Dict) : Option Dict → Py Unit
  | none => .ok ()
  | some submission =>
    require (Dict.get submission "attestation_requirement" = .str "public_testnet_v1_required" →
        Value.pyEq (Dict.get submission "content_hash") (Dict.get expected "content_hash") = true)
      (blockError "admission_submission_mismatch"
        "Admission block differs from local current submission.")

/-- `validate_admission_block` (block_validation_service.py:318–353). -/
def validateAdmissionBlock (c : Collaborators) (block : Dict) : Py Unit := do
  let certificate := block.get "admission_certificate"
  let resolved ← reraiseKey "invalid_admission_certificate" (indexDetail block)
    (c.resolveProtocolV1BlockMedia block)
  reraiseKey "invalid_admission_certificate" (indexDetail block)
    (c.validateAdmissionCertificate certificate resolved.storedBytes)
  let certificateFields ← certificate.asDict
  let expected ← admissionMintCertificateView c.host certificateFields
  checkAdmissionFields block expected
  let networkId ← certificateFields.index "network_id"
  require (Value.pyEq (block.get "network_id") networkId = true)
    (blockError "wrong_network" "Admission block network differs from certificate.")
  require ((block.get "voter_rewards").truthy = false)
    (blockError "invalid_voter_reward_metadata"
      "Admission v1 blocks do not carry legacy originality voter rewards.")
  let submission ← c.getSubmission (expected.get "submission_id")
  checkAdmissionSubmission expected submission

/-- `validate_certificate_metadata` (block_validation_service.py:222–281). -/
def validateCertificateMetadata (c : Collaborators) (block : Dict) (priorChain : List Dict) :
    Py Unit :=
  if Value.pyEq (block.get "index") (.int 0) then .ok ()
  else if Value.pyEq (block.get "block_version") (.int admissionBlockVersion) then
    validateAdmissionBlock c block
  else validateOriginalityBlock c block priorChain

/-! ## Blocks and chains -/

/-- From the activation height on a block declares a height and is an admission block. -/
def checkActivation (c : Collaborators) (block : Dict) : Py Unit :=
  match c.admissionActivationHeight with
  | none => .ok ()
  | some activationHeight =>
    match block.get "index" with
    | .int index => do
      require (0 ≤ index) (blockError "invalid_block_height"
        "Admission block height must be a non-negative integer.")
      require (activationHeight.1 ≤ index →
          Value.pyEq (block.get "block_version") (.int admissionBlockVersion) = true)
        (blockError "missing_admission_certificate"
          "Post-activation media block requires frozen admission evidence.")
    | _ => .error (blockError "invalid_block_height"
        "Admission block height must be a non-negative integer.")

/-- The version of a block is absent, 1 or 2. -/
def checkBlockVersion (block : Dict) : Py Unit :=
  if Value.pyEq (block.get "index") (.int 0) then .ok ()
  else do
    let version ← (block.get "block_version").hashKey
    require (version = .none ∨ version = .number protocolV1BlockVersion ∨
        version = .number admissionBlockVersion)
      (blockError "invalid_block_version" "Unknown current media block version.")

/-- `validate_block` (block_validation_service.py:283–297). -/
def validateBlock (c : Collaborators) (block : Dict) (priorChain : List Dict) : Py Unit := do
  checkBlockVersion block
  checkActivation c block
  validateProtocolV1Payload c block
  validateCertificateMetadata c block priorChain
  validateNativeTransactions c block priorChain

/-- `return False`, behind a debug line that names the index of the block. -/
def refuse (block : Dict) : Py Bool := do
  let _ ← block.index "index"
  return false

/-- One turn of the loop of `validate_chain`: whether the block extends its prefix. Only
a `ValueError` of the block validation is a refusal; any other exception goes on. -/
def extendsChain (c : Collaborators) (prefixChain : List Dict) (previous block : Dict) :
    Py Bool := do
  let hash ← block.index "hash"
  let calculated ← c.calculateHashFromDict block
  if Value.pyEq hash (.str calculated) = false then refuse block else
  let previousHash ← block.index "previous_hash"
  let hashOfPrevious ← previous.index "hash"
  if Value.pyEq previousHash hashOfPrevious = false then refuse block else
  exceptValueError (do validateBlock c block prefixChain; return true) fun _ => refuse block

/-- The loop of `validate_chain`, behind the accepted blocks `prefixChain ++ [previous]`. -/
def validateChainFrom (c : Collaborators) (prefixChain : List Dict) (previous : Dict) :
    List Dict → Py Bool
  | [] => .ok true
  | block :: rest => do
    if ← extendsChain c (prefixChain ++ [previous]) previous block then
      validateChainFrom c (prefixChain ++ [previous]) block rest
    else return false

/-- The genesis check of `validate_chain`, for which a `ValueError` is a refusal. -/
def acceptsGenesis (c : Collaborators) (genesis : Dict) : Py Bool :=
  exceptValueError (do c.validateGenesis genesis; return true) fun _ => .ok false

/-- `validate_chain` (block_validation_service.py:355–374). -/
def validateChain (c : Collaborators) : List Dict → Py Bool
  | [] => .ok false
  | genesis :: rest => do
    if ← acceptsGenesis c genesis then validateChainFrom c [] genesis rest else return false

/-! ## What acceptance says -/

variable {c : Collaborators}

theorem refuse_ne_true (block : Dict) : refuse block ≠ .ok true := by
  unfold refuse
  cases block.index "index" <;> simp [Functor.map, Except.map]

/-- A block that extends its prefix: its hash is the calculated one, it names the hash of
the block before it, and it validates against the prefix. -/
structure Extends (c : Collaborators) (prefixChain : List Dict) (previous block : Dict) : Prop where
  hash : ∃ v s, block.index "hash" = .ok v ∧ c.calculateHashFromDict block = .ok s ∧
    Value.pyEq v (.str s) = true
  link : ∃ v w, block.index "previous_hash" = .ok v ∧ previous.index "hash" = .ok w ∧
    Value.pyEq v w = true
  valid : validateBlock c block prefixChain = .ok ()

theorem extendsChain_eq_ok {prefixChain : List Dict} {previous block : Dict} :
    extendsChain c prefixChain previous block = .ok true ↔
      Extends c prefixChain previous block := by
  have hcatch : exceptValueError (do validateBlock c block prefixChain; return true)
      (fun _ => refuse block) = .ok true ↔ validateBlock c block prefixChain = .ok () := by
    cases hb : validateBlock c block prefixChain with
    | ok u => simp [exceptValueError]
    | error e =>
      by_cases hv : e.isValueError = true <;>
        simp [exceptValueError, hv, refuse_ne_true]
  simp only [extendsChain, bind_eq_ok]
  constructor
  · rintro ⟨v, hv, s, hs, hrest⟩
    split at hrest
    · exact absurd hrest (refuse_ne_true _)
    · next heq =>
      simp only [bind_eq_ok] at hrest
      obtain ⟨w, hw, x, hx, hrest⟩ := hrest
      split at hrest
      · exact absurd hrest (refuse_ne_true _)
      · next heq' =>
        exact ⟨⟨v, s, hv, hs, by simpa using heq⟩, ⟨w, x, hw, hx, by simpa using heq'⟩,
          hcatch.mp hrest⟩
  · rintro ⟨⟨v, s, hv, hs, heq⟩, ⟨w, x, hw, hx, heq'⟩, hvalid⟩
    refine ⟨v, hv, s, hs, ?_⟩
    rw [heq, if_neg (by decide)]
    simp only [bind_eq_ok]
    refine ⟨w, hw, x, hx, ?_⟩
    rw [heq', if_neg (by decide)]
    exact hcatch.mpr hvalid

/-- The accepted chains: an accepted genesis, extended block by block. -/
inductive AcceptedChain (c : Collaborators) : List Dict → Prop
  | genesis {g : Dict} : c.validateGenesis g = .ok () → AcceptedChain c [g]
  | extend {chain : List Dict} {previous block : Dict} :
      AcceptedChain c (chain ++ [previous]) →
      Extends c (chain ++ [previous]) previous block →
      AcceptedChain c (chain ++ [previous] ++ [block])

theorem validateChainFrom_eq_ok (prefixChain : List Dict) {rest : List Dict} {previous : Dict}
    (hfront : AcceptedChain c (prefixChain ++ [previous])) :
    validateChainFrom c prefixChain previous rest = .ok true →
      AcceptedChain c (prefixChain ++ previous :: rest) := by
  induction rest generalizing prefixChain previous with
  | nil => exact fun _ => hfront
  | cons block rest ih =>
    intro hok
    simp only [validateChainFrom, bind_eq_ok] at hok
    obtain ⟨b, hb, hrest⟩ := hok
    cases b with
    | false => cases hrest
    | true =>
      have hnext := ih _ (.extend hfront (extendsChain_eq_ok.mp hb)) hrest
      simpa using hnext

theorem validateChain_eq_ok {chain : List Dict} (hok : validateChain c chain = .ok true) :
    AcceptedChain c chain := by
  cases chain with
  | nil => cases hok
  | cons genesis rest =>
    simp only [validateChain, bind_eq_ok] at hok
    obtain ⟨b, hb, hrest⟩ := hok
    cases b with
    | false => cases hrest
    | true =>
      have hgenesis : c.validateGenesis genesis = .ok () := by
        cases hg : c.validateGenesis genesis with
        | ok u => rfl
        | error e => by_cases hv : e.isValueError = true <;>
            simp [acceptsGenesis, exceptValueError, hg, hv] at hb
      exact validateChainFrom_eq_ok [] (.genesis hgenesis) hrest

/-! ## The native transactions of an accepted block -/

theorem mapM_asNativeTransaction {txs : List Value} {ds : List Dict}
    (hds : txs.mapM asNativeTransaction = .ok ds) : txs = ds.map .dict := by
  induction txs generalizing ds with
  | nil =>
    obtain rfl : [] = ds := by simpa [pure, Except.pure] using hds
    rfl
  | cons tx txs ih =>
    simp only [List.mapM_cons, bind_eq_ok, pure_eq_ok] at hds
    obtain ⟨d, hd, rest, hrest, rfl⟩ := hds
    obtain rfl : tx = .dict d := by
      cases tx <;> simp [asNativeTransaction] at hd
      rw [hd]
    rw [ih hrest, List.map_cons]

theorem validateNativeTransactionStep_eq_ok {block : Dict} {canonicalTxIds : Finset HashKey}
    {s s' : BlockStepState × List Dict} {tx : Dict × Nat}
    (hok : validateNativeTransactionStep c block canonicalTxIds s tx = .ok s') :
    ∃ d t, validateBlockStep c.host c.networkName canonicalTxIds tx.1 s.1 = .ok (d, t) ∧
      s' = (t, s.2 ++ [d]) := by
  rw [validateNativeTransactionStep, exceptValueError_eq_ok] at hok
  · simp only [bind_eq_ok, pure_eq_ok] at hok
    obtain ⟨⟨d, t⟩, hstep, rfl⟩ := hok
    exact ⟨d, t, hstep, rfl⟩
  · intro e b heq
    simp only [bind_eq_ok] at heq
    obtain ⟨_, _, hraise⟩ := heq
    cases hraise

/-- The native transactions that pass the block steps describe transfers that are in
sequence behind the prior chain and covered by its balances. -/
theorem stepNativeTransactions_run {block : Dict} {canonicalTxIds : Finset HashKey}
    {ds : List Dict} {n : Nat} {s s' : BlockStepState × List Dict}
    (hok : (ds.zipIdx n).foldlM (validateNativeTransactionStep c block canonicalTxIds) s = .ok s') :
    ∃ fs, ReadsTransfers c.host c.networkName (ds.map .dict) fs ∧
      InSequence (canonicalTxIds ∪ s.1.seenBlockTxIds) s.1.nextNonces fs ∧
      Covered s.1.balances fs := by
  induction ds generalizing n s with
  | nil => exact ⟨[], List.Forall₂.nil, trivial, trivial⟩
  | cons d ds ih =>
    rw [List.zipIdx_cons, foldlM_cons_eq_ok] at hok
    obtain ⟨m, hm, hrest⟩ := hok
    obtain ⟨d', t, hstep, rfl⟩ := validateNativeTransactionStep_eq_ok hm
    have hidentity : ∃ checked, validateIdentity c.host c.networkName d = .ok checked := by
      simp only [validateBlockStep, bind_eq_ok] at hstep
      obtain ⟨checked, hchecked, -⟩ := hstep
      exact ⟨checked, hchecked⟩
    obtain ⟨checked, hchecked⟩ := hidentity
    obtain ⟨f, hf⟩ := validateIdentity_isTransfer hchecked
    obtain ⟨hcanon, hseen, -, hnext, hzero, rfl, b, hb, rfl⟩ :=
      (validateBlockStep_eq_ok hchecked hf).mp hstep
    obtain ⟨fs, hreads, hseq, hcov⟩ := ih hrest
    refine ⟨f :: fs, List.Forall₂.cons ⟨d, d', rfl, hchecked, hf⟩ hreads, ?_, b, hb, hcov⟩
    have hunion : canonicalTxIds ∪ insert (.str f.txId) s.1.seenBlockTxIds =
        insert (.str f.txId) (canonicalTxIds ∪ s.1.seenBlockTxIds) := Finset.union_insert ..
    rw [show (s.1.after f b).seenBlockTxIds = insert (.str f.txId) s.1.seenBlockTxIds from rfl,
      hunion] at hseq
    exact ⟨by simp [hcanon, hseen], hnext, hzero, hseq⟩

/-- What `validate_native_transactions` establishes about an accepted block. -/
theorem validateNativeTransactions_eq_ok {block : Dict} {priorChain : List Dict}
    (hprior : priorChain ≠ []) (hok : validateNativeTransactions c block priorChain = .ok ()) :
    ∃ txs fs s, blockNativeTransactions block = .ok txs ∧
      calculateBalancesFromChain c.host c.networkName priorChain = .ok s ∧
      ReadsTransfers c.host c.networkName txs fs ∧ InSequence s.seenTxIds s.nextNonces fs ∧
      Covered s.balances fs := by
  simp only [validateNativeTransactions, bind_eq_ok] at hok
  obtain ⟨txs, htxs, ids, -, -, -, ds, hds, -, -, -, -, s, hs, validated, hvalidated, -⟩ := hok
  have hempty : priorChain.isEmpty = false := by cases priorChain <;> simp_all
  rw [hempty, if_neg Bool.false_ne_true] at hs
  simp only [stepNativeTransactions, bind_eq_ok, pure_eq_ok] at hvalidated
  obtain ⟨state, hstate, rfl⟩ := hvalidated
  obtain ⟨fs, hreads, hseq, hcov⟩ := stepNativeTransactions_run hstate
  rw [← mapM_asNativeTransaction hds] at hreads
  simp only [Finset.union_empty] at hseq
  exact ⟨txs, fs, s, htxs, hs, hreads, hseq, hcov⟩

/-! ## A sample node -/

namespace SampleNode

/-- The allocation of the sample genesis. -/
def allocation : Dict :=
  [("sender", .str "GENESIS"),
    ("recipient", .str "034f355bdcb7cc0af728ef3cceb9615d90684bb5b2ca5f859ab0f0b704075871aa"),
    ("amount", .int 790000000), ("tip", .int 0), ("signature", .null),
    ("payload_size_kb", .int 0), ("created_at", .int 1785542400)]

def genesis : Dict :=
  [("index", .int 0), ("transactions", .list [.dict allocation]), ("previous_hash", .str "0"),
    ("miner", .str "GENESIS"), ("meme", .str "genesis"), ("timestamp", .int 1785542400),
    ("hash", .str "g"), ("genesis_version", .int 1)]

theorem genesisRecord : GenesisRecord genesis where
  fields := by decide
  index := rfl
  transactions := ⟨[allocation], rfl, fun tx htx => by
    obtain rfl := List.mem_singleton.mp htx
    exact ⟨rfl, ⟨_, rfl, by decide⟩, ⟨790000000, rfl⟩, ⟨0, rfl⟩⟩⟩

/-- A node without local submissions and content objects, for which every block carries
its own hash and every admission certificate is accepted. -/
def collaborators (h : Host) (activationHeight : Option ActivationHeight) :
    Collaborators where
  host := h
  chain := [genesis]
  networkName := "zoidberg-testnet"
  admissionActivationHeight := activationHeight
  memeBlockReward := .int 5
  voterRewardApprovalSide := "original"
  voterRewardRejectionSide := "not_original"
  resolveProtocolV1BlockMedia _ := .ok
    { storedBytes := [0xff],
      contentHash := "aaaaaaaaaaaaaaaaaaaaaaaaaaaaaaaaaaaaaaaaaaaaaaaaaaaaaaaaaaaaaaaa",
      mimeType := "image/jpeg" }
  expectedVoterRewardRecordsById _ := .ok []
  getOriginalityCertificate _ := .ok none
  validateOriginalityCertificate _ _ _ := .ok ()
  getSubmission _ := .ok none
  getContentObjectByHash _ := .ok none
  verifyContentObjectPayload _ := .ok true
  validateAdmissionCertificate _ _ := .ok ()
  calculateHashFromDict block :=
    match block.get "hash" with
    | .str s => .ok s
    | _ => .error (.value "hash")
  validateGenesis record := if record = genesis then .ok () else .error (.value "genesis")
  validateGenesis_record record h := by
    split at h
    · next heq => exact heq ▸ genesisRecord
    · cases h

/-- The admission certificate of the sample submission. -/
def certificate : Dict :=
  [("network_id", .str "zoidberg-public-testnet-v1"), ("submission_id", .str "s1"),
    ("certificate_digest", .str "c1"),
    ("content_hash", .str "aaaaaaaaaaaaaaaaaaaaaaaaaaaaaaaaaaaaaaaaaaaaaaaaaaaaaaaaaaaaaaaa"),
    ("creator_wallet", .str "0x1111111111111111111111111111111111111111"),
    ("originality", .dict [("vote_set_digest", .str "v1"), ("positive_votes", .int 5),
      ("approval_denominator", .int 5)])]

/-- An admission block for the sample submission. -/
def admissionBlock (index : Int) (hash previousHash : String) : Dict :=
  [("index", .int index), ("hash", .str hash), ("previous_hash", .str previousHash),
    ("block_version", .int 2), ("network_id", .str "zoidberg-public-testnet-v1"),
    ("media_hash", .str "aaaaaaaaaaaaaaaaaaaaaaaaaaaaaaaaaaaaaaaaaaaaaaaaaaaaaaaaaaaaaaaa"),
    ("media_bytes", .dict [("$type", .str "bytes"), ("$encoding", .str "hex"),
      ("$value", .str "ff")]),
    ("content_type", .str "image"), ("submission_id", .str "s1"), ("certificate_id", .str "c1"),
    ("content_hash", .str "aaaaaaaaaaaaaaaaaaaaaaaaaaaaaaaaaaaaaaaaaaaaaaaaaaaaaaaaaaaaaaaa"),
    ("content_id", .str "aaaaaaaaaaaaaaaaaaaaaaaaaaaaaaaa"),
    ("creator_wallet", .str "0x1111111111111111111111111111111111111111"),
    ("vote_hash", .str "v1"), ("approval_percentage", .int 1), ("decisive_vote_total", .int 5),
    ("minimum_votes_required", .int 5), ("approved_at", .int 0), ("originality_score", .int 1),
    ("reward_type", .str "meme_mining_reward"),
    ("reward_recipient", .str "0x1111111111111111111111111111111111111111"),
    ("reward_amount", .int 5), ("reward_source", .str "reward_pool"), ("minted_at", .int 1),
    ("admission_certificate", .dict certificate), ("transactions", .list [])]

end SampleNode

end ZoidbergChain
