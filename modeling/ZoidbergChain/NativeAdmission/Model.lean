import ZoidbergChain.LedgerViews

/-!
# Admission of native transactions (native_ledger_service.py)

The local ledger holds transfer intents and native transactions, each with a status. A record is
admitted when its nonce is the next one of its sender and the sender's final balance covers it
next to what is already pending.

`NativeLedgerState.perform` is one call of the service; a call that raises leaves the ledger as it
was, since it works on the copy of an open storage transaction.
-/

namespace ZoidbergChain

open Python

/-- `NativeLedgerState`, over the chain of the node. -/
structure NativeLedgerState where
  transferIntents : List Dict
  nativeTransactions : List Dict

/-! ## Statuses -/

/-- `native_nonce_used_statuses`, also `native_finalized_statuses`. -/
def nativeFinalizedStatuses : List String := ["included", "settled", "finalized"]

/-- `native_nonce_reserved_statuses`, also `native_funds_reserved_statuses` and
`native_mempool_eligible_statuses`. -/
def nativeReservedStatuses : List String := ["signed_pending", "validated_pending", "mempool"]

/-- `native_nonce_unavailable_statuses`. -/
def nativeNonceUnavailableStatuses : List String :=
  nativeFinalizedStatuses ++ nativeReservedStatuses

/-- `native_transaction_lifecycle_transitions`. -/
def nativeTransactionLifecycleTransitions : String → List String
  | "signed_pending" => ["validated_pending", "mempool", "settled", "rejected", "failed", "expired"]
  | "validated_pending" => ["mempool", "settled", "rejected", "failed", "expired"]
  | "mempool" => ["validated_pending", "settled", "rejected", "failed", "expired"]
  | "included" => ["settled", "validated_pending", "mempool", "rejected", "finalized"]
  | "settled" => ["validated_pending", "mempool", "rejected", "finalized"]
  | "rejected" => ["settled"]
  | "failed" => ["settled"]
  | "expired" => ["settled"]
  | _ => []

/-- `immutable_signed_transaction_fields`. -/
def immutableSignedTransactionFields : List String :=
  ["tx_id", "transaction_type", "network", "from_address", "to_address", "amount", "fee", "nonce",
    "memo", "timestamp", "signature", "signature_scheme", "signed_message", "signed_message_hash",
    "transaction_version", "protocol_version", "network_id"]

/-- `_same_immutable_signed_transaction`. -/
def sameImmutableSignedTransaction (existing candidate : Dict) : Bool :=
  immutableSignedTransactionFields.all fun field =>
    Value.pyEq (existing.get field) (candidate.get field)

/-- The refusal of another transaction under a known identifier. -/
def conflictingReplay : PyError :=
  .value ("Conflicting native transaction replay: " ++
    "tx_id is already bound to different signed transaction data.")

section Service

variable (h : Host)

/-- `str(record.get("status") or "").strip().lower()`. -/
def recordStatus (record : Dict) : String := loweredText h (record.get "status")

/-- `str(record.get("tx_id") or "").strip().lower()`. -/
def recordTxId (record : Dict) : String := loweredText h (record.get "tx_id")

/-- `validate_native_transaction_lifecycle_transition`. -/
def validateLifecycleTransition (current : Value) (target : String) : Py Unit :=
  require (loweredText h current = target ∨
      target ∈ nativeTransactionLifecycleTransitions (loweredText h current))
    (.value ("Illegal native transaction lifecycle transition: " ++ loweredText h current ++
      " -> " ++ target ++ "."))

/-! ## Looking records up -/

/-- `storage.get_native_transaction`. -/
def getNativeTransaction (records : List Dict) : Value → Option Dict
  | .str txId =>
    if strip txId = "" then none
    else records.find? fun record => Value.pyEq (record.get "tx_id") (.str (strip txId))
  | _ => none

/-- `get_transfer_intent_by_tx_id`. -/
def getTransferIntentByTxId (intents : List Dict) (txId : Value) : Option Dict :=
  intents.find? fun intent =>
    (intent.get "tx_id").trimmed h.toRuntime = txId.trimmed h.toRuntime

/-- Put a value in the place of the first one that passes a test. -/
def replaceFirst {α : Type} (p : α → Bool) (y : α) : List α → Option (List α)
  | [] => none
  | x :: xs => if p x then some (y :: xs) else (replaceFirst p y xs).map (x :: ·)

/-- `replace_native_transaction`. -/
def replaceNativeTransaction (records : List Dict) (transaction : Dict) : Py (List Dict) :=
  orRaise (replaceFirst (fun record => recordTxId h record = recordTxId h transaction) transaction
    records) (.value "Transaction not found.")

/-- `wallet_identity_matches`. -/
def walletIdentityMatches (value : Value) (wallet : String) : Bool :=
  let candidate := value.trimmed h.toRuntime
  if candidate = wallet then true
  else if candidate.toList.length = 42 ∧ candidate.toList.take 2 = ['0', 'x'] ∧
      candidate = h.lower candidate then false
  else normalizeWalletIdentity h.toRuntime (.str candidate) = some wallet

/-- `native_transaction_sender_matches`. -/
def senderMatches (transaction : Dict) (wallet : String) : Bool :=
  walletIdentityMatches h (transaction.get "from_address") wallet

/-! ## Nonces -/

/-- The records that make a nonce unavailable, but the excluded one. -/
def unavailableRecords (records : List Dict) (wallet : String) (excludeTxId : Value) : List Dict :=
  records.filter fun item =>
    senderMatches h item wallet && decide (recordStatus h item ∈ nativeNonceUnavailableStatuses) &&
      decide (recordTxId h item ≠ loweredText h excludeTxId)

/-- The refusal of a nonce that is taken. -/
def nonceTaken : PyError := .value "Nonce already used or reserved. Refresh and try again."

/-- `validate_transaction_nonce`. -/
def validateTransactionNonce (records : List Dict) (transaction : Dict) (excludeTxId : Value) :
    Py (Option Dict) := do
  let wallet ← orRaise (normalizeWalletIdentity h.toRuntime (transaction.get "from_address"))
    (.value "Transaction from_address is invalid.")
  let nonce ← coerceNativeNonce h (transaction.get "nonce")
  let unavailable := unavailableRecords h records wallet excludeTxId
  match ← findPy (fun item => do return (← coerceNativeNonce h (item.get "nonce")) == nonce)
      unavailable with
  | some existing =>
    if recordTxId h existing = recordTxId h transaction then return some existing
    else .error nonceTaken
  | none => do
    let taken ← unavailable.mapM fun item => coerceNativeNonce h (item.get "nonce")
    require (nonce ∉ taken) nonceTaken
    let expected := Scan.nextFree taken taken.length nativeTransactionInitialNonce
    require (¬nonce < expected) (.value
      "Transaction nonce is lower than the next expected nonce. Refresh and try again.")
    require (¬expected < nonce) (.value ("Transaction nonce is ahead of the next expected " ++
      "nonce. Strict sequential nonces are required."))
    return none

/-! ## Balances -/

/-- `get_reserved_native_transactions_for_wallet`. -/
def getReservedNativeTransactionsForWallet (records : List Dict) (wallet : String)
    (excludeTxId : Value) : List Dict :=
  let excluded := if excludeTxId.trimmed h.toRuntime = "" then [] else [loweredText h excludeTxId]
  records.filter fun tx =>
    decide (recordStatus h tx ∈ nativeReservedStatuses) && decide (recordTxId h tx ∉ excluded) &&
      (senderMatches h tx wallet || walletIdentityMatches h (tx.get "to_address") wallet)

/-- `Decimal(str(tx.get(field) or "0"))`. -/
def amountOf (tx : Dict) (field : String) : Py Decimal :=
  ((tx.get field).orElse (.str "0")).decimal h.toRuntime

/-- `get_pending_outgoing_balance_amount`. -/
def getPendingOutgoingBalanceAmount (records : List Dict) (wallet : String)
    (excludeTxId : Value) : Py Decimal :=
  (getReservedNativeTransactionsForWallet h records wallet excludeTxId).foldlM (fun total tx =>
    updateIf (isParty h wallet tx "from_address") total do
      total.add (← (← amountOf h tx "amount").add (← amountOf h tx "fee"))) (.finite 0)

/-- `get_pending_incoming_balance_amount`. -/
def getPendingIncomingBalanceAmount (records : List Dict) (wallet : String)
    (excludeTxId : Value) : Py Decimal :=
  (getReservedNativeTransactionsForWallet h records wallet excludeTxId).foldlM (fun total tx =>
    updateIf (isParty h wallet tx "to_address") total do
      total.add (← amountOf h tx "amount")) (.finite 0)

variable (chain : List ChainBlock)

/-- The message of a refusal for want of funds, with `get_native_balance_snapshot`. -/
def insufficientBalance (records : List Dict) (wallet : String) (excludeTxId : Value) :
    Py String := do
  let final ← getFinalNativeBalanceAmount h chain (.str wallet)
  let outgoing ← getPendingOutgoingBalanceAmount h records wallet excludeTxId
  let _ ← getPendingIncomingBalanceAmount h records wallet excludeTxId
  let available ← final.sub outgoing
  return "Insufficient available balance. Final balance: " ++ normalizeDecimalValue final ++
    " ZOID, pending outgoing: " ++ normalizeDecimalValue outgoing ++ " ZOID, available: " ++
    normalizeDecimalValue available ++ " ZOID."

/-- `validate_transaction_balance_sufficiency`. -/
def validateTransactionBalanceSufficiency (records : List Dict) (transaction : Dict)
    (excludeTxId : Value) : Py Unit := do
  let wallet ← orRaise (normalizeWalletIdentity h.toRuntime (transaction.get "from_address"))
    (.value "Transaction from_address is invalid.")
  let fee ← Decimal.ofString
    (← parseNativeZoidAmount h ((transaction.get "fee").orElse (.str "0")) true)
  require ((← fee.eq (.finite 0)) = true) (.value "Nonzero fees are not enabled yet.")
  let amount ← Decimal.ofString
    (← parseNativeZoidAmount h ((transaction.get "amount").orElse (.str "0")) false)
  let final ← getFinalNativeBalanceAmount h chain (.str wallet)
  let available ← final.sub (← getPendingOutgoingBalanceAmount h records wallet excludeTxId)
  if ← available.lt (← amount.add fee) then
    .error (.value (← insufficientBalance h chain records wallet excludeTxId))

/-! ## The admission policy -/

/-- `get_chain_native_transaction_ids`. -/
def getChainNativeTransactionIds : Py (List String) := do
  let natives ← chain.mapM ChainBlock.nativeTransactions
  let records ← natives.flatten.mapM Value.asDict
  return (records.map (recordTxId h)).filter (· ≠ "")

/-- The code of a refused nonce. -/
def nonceErrorCode (message : String) : String :=
  if containsText "lower" (h.lower message) then "stale_nonce"
  else if containsText "ahead" (h.lower message) then "future_nonce"
  else if containsText "already used or reserved" (h.lower message) then "active_nonce_conflict"
  else "invalid_nonce"

/-- `validate_admission_state` of a validated transaction. -/
def validateAdmissionState (records : List Dict) (validated : Dict) (excludeTxId : Value) :
    Py Dict := do
  let txId ← validated.index "tx_id"
  let settled ← getChainNativeTransactionIds h chain
  require ((← txId.hashKey) ∉ settled.map HashKey.str) (transactionError "already_settled"
    "Transaction is already present in canonical settlement.")
  let _ ← exceptValueError (validateTransactionNonce h records validated excludeTxId) fun e =>
    .error (transactionError (nonceErrorCode h e.message) e.message)
  exceptValueError (validateTransactionBalanceSufficiency h chain records validated excludeTxId)
    fun e => .error (transactionError (codeForError h e) e.message)
  return validated

variable (networkName : String)

/-- `validate_admission_state` of a transaction that is not yet validated. -/
def validateAdmission (records : List Dict) (transaction : Dict) (excludeTxId : Value) :
    Py Dict := do
  validateAdmissionState h chain records (← validateIdentity h networkName transaction) excludeTxId

/-! ## Writing records -/

/-- `update_transfer_intent_status`. -/
def updateTransferIntentStatus (intents : List Dict) (txId : String) (status updatedAt : Value) :
    List Dict :=
  let same := fun intent : Dict => decide (recordTxId h intent = loweredText h (.str txId))
  match intents.find? same with
  | none => intents
  | some intent =>
    let record := intent.set "status" (.str (loweredText h status))
    let record := if updatedAt.truthy then record.set "updated_at" updatedAt else record
    (replaceFirst same record intents).getD intents

/-- `update_native_transaction_status`, of a record that no block includes or settles. -/
def updateNativeTransactionStatus (s : NativeLedgerState) (txId : Value) (status : String)
    (rejectionReason admittedAt : Option String) (nowIso : String) :
    Py (Dict × NativeLedgerState) := do
  let transaction ← orRaise (getNativeTransaction s.nativeTransactions txId)
    (.value ("Transaction not found: " ++ txId.text h.toRuntime))
  let target := h.lower (strip status)
  validateLifecycleTransition h (transaction.get "status") target
  let updated := (transaction.set "status" (.str target)).set "updated_at" (.str nowIso)
  let updated := match admittedAt with
    | some at' => updated.set "admitted_at" (.str at')
    | none => updated
  let updated := match rejectionReason with
    | some reason => updated.set "rejection_reason" (.str reason)
    | none =>
      if target ∈ ["rejected", "expired"] then updated else updated.set "rejection_reason" .null
  let stored ← exceptValueError
    (do return (← validateTransactionShape h networkName updated).toDict) fun e =>
      if target ∈ ["rejected", "failed", "expired"] then .ok updated else .error e
  let records ← replaceNativeTransaction h s.nativeTransactions stored
  let id ← stored.index "tx_id"
  let intents := updateTransferIntentStatus h s.transferIntents (id.text h.toRuntime)
    (stored.get "status") (.str nowIso)
  return (stored, ⟨intents, records⟩)

/-- `build_transfer_intent_record_from_transaction`, under a fresh identifier. -/
def buildTransferIntentRecord (payload : Dict) (transferId : String) (signedAt createdAt : Value)
    (nowIso : String) : Dict :=
  [("transfer_id", .str transferId), ("tx_id", payload.get "tx_id"),
    ("from_address", payload.get "from_address"), ("to_address", payload.get "to_address"),
    ("amount", payload.get "amount"), ("fee", payload.get "fee"), ("memo", payload.get "memo"),
    ("network", payload.get "network"),
    ("transaction_version", payload.get "transaction_version"),
    ("protocol_version", payload.get "protocol_version"),
    ("network_id", payload.get "network_id"),
    ("signature_scheme", payload.get "signature_scheme"), ("signature", payload.get "signature"),
    ("signed_message", payload.get "signed_message"),
    ("signed_message_hash", payload.get "signed_message_hash"),
    ("transfer_nonce", payload.get "nonce"),
    ("signed_at", textOf (signedAt.orElse ((payload.get "timestamp").orElse
      ((payload.get "created_at").orElse (.str nowIso))))),
    ("status", payload.get "status"),
    ("created_at", textOf (createdAt.orElse ((payload.get "created_at").orElse (.str nowIso))))]
where
  textOf (v : Value) : Value := .str (v.text h.toRuntime)

/-- The lifecycle of a new record. -/
def pendingLifecycle (status nowIso : String) : Dict :=
  [("status", .str status), ("created_at", .str nowIso), ("updated_at", .str nowIso),
    ("admitted_at", .null), ("included_block_hash", .null), ("included_block_height", .null),
    ("settled_at", .null), ("rejection_reason", .null)]

/-- `record_native_transaction`; says whether the transaction was recorded before. -/
def recordNativeTransaction (records : List Dict) (payload : Dict) (status nowIso : String) :
    Py (Dict × Bool × List Dict) := do
  let candidate := (payload.setdefault "created_at" (.str nowIso)).setdefault "updated_at"
    (.str nowIso)
  let identity ← validateIdentity h networkName candidate
  let validated ← validateTransactionShape h networkName (candidate.update identity)
  match getNativeTransaction records (.str validated.txId) with
  | some existing => do
    require (sameImmutableSignedTransaction existing validated.toDict = true) conflictingReplay
    return (existing, true, records)
  | none => do
    let stored := validated.toDict.update (pendingLifecycle (h.lower (strip status)) nowIso)
    let _ ← validateTransactionShape h networkName stored
    return (stored, false, records ++ [stored])

/-! ## Submission by the sender -/

/-- The arguments of `admit_signed_transfer`. -/
structure SignedTransfer where
  fromAddress : Value
  toAddress : Value
  amount : Value
  fee : Value
  memo : Value
  network : Value
  transactionVersion : Value
  protocolVersion : Value
  networkId : Value
  signatureScheme : Value
  signature : Value
  signedMessageHash : Value
  signedMessage : Value
  transferNonce : Value
  transactionTimestamp : Value
  signedAt : Value

/-- `compute_transaction_id` of a payload. -/
def computePayloadId (payload : Dict) : Py String :=
  let version := payload.get "transaction_version"
  let networkId := payload.get "network_id"
  if version.isNone then do
    let fields ← canonicalTransactionFieldsLegacy h payload
    return h.sha256Hex (encodeUtf8 (← Json.dumps true (.dict fields.toDict)))
  else do
    require (Value.pyEq version (.int protocolVersion) = true)
      (.value ("Unsupported transaction_version: " ++ version.text h.toRuntime))
    require (Value.isPresent networkId = true)
      (.value "network_id is required for Protocol v1 native transaction IDs.")
    calculateProtocolV1TransactionId h payload (.str (networkId.text h.toRuntime))

/-- `build_native_transaction`, as `admit_signed_transfer` calls it. -/
def buildNativeTransaction (t : SignedTransfer) (nowIso : String) : Py NativeTransaction := do
  let textOf (v : Value) : Value := .str (v.text h.toRuntime)
  let createdTimestamp ← parseTransferTimestamp h (.str nowIso)
  let updatedTimestamp ← parseTransferTimestamp h (.str createdTimestamp)
  let memo := t.memo.trimmed h.toRuntime
  let payload : Dict := [("transaction_type", .str "native_transfer"),
    ("network", textOf t.network), ("from_address", t.fromAddress), ("to_address", t.toAddress),
    ("amount", textOf t.amount), ("fee", textOf t.fee), ("nonce", textOf t.transferNonce),
    ("memo", if memo = "" then .null else .str memo),
    ("timestamp", textOf (t.transactionTimestamp.orElse t.signedAt)),
    ("signature", textOf t.signature), ("signature_scheme", textOf t.signatureScheme),
    ("signed_message", textOf t.signedMessage),
    ("signed_message_hash", textOf t.signedMessageHash),
    ("transaction_version", t.transactionVersion), ("protocol_version", t.protocolVersion),
    ("network_id", t.networkId), ("status", .str "signed_pending"),
    ("created_at", .str createdTimestamp), ("updated_at", .str updatedTimestamp),
    ("admitted_at", .null), ("included_block_hash", .null), ("included_block_height", .null),
    ("settled_at", .null), ("rejection_reason", .null)]
  let txId ← computePayloadId h payload
  validateTransactionShape h (t.network.text h.toRuntime) (payload.set "tx_id" (.str txId))

/-- What `admit_signed_transfer` returns. -/
structure SignedAdmission where
  transferIntent : Dict
  transaction : Dict
  duplicate : Bool
  admission : Option Dict

/-- The record of a submitted transfer: the known one, or a new one that the policy admits. -/
def recordSignedTransfer (s : NativeLedgerState) (t : SignedTransfer) (validated : Dict)
    (transferId nowIso : String) : Py (SignedAdmission × NativeLedgerState) := do
  match getNativeTransaction s.nativeTransactions (← validated.index "tx_id") with
  | some existing => do
    require (sameImmutableSignedTransaction existing validated = true) conflictingReplay
    require (recordStatus h existing ∉ nativeFinalizedStatuses)
      (.value "Transaction is already present in canonical settlement.")
    let intent ← orRaise (getTransferIntentByTxId h s.transferIntents (← existing.index "tx_id"))
      { exc := .runtimeError,
        message := "Transaction already exists but local transfer record is missing." }
    return (⟨intent, existing, true, none⟩, s)
  | none => do
    let validated ← validateAdmissionState h chain s.nativeTransactions validated .null
    let current := validated.update (pendingLifecycle "signed_pending" nowIso)
    let intent := buildTransferIntentRecord h current transferId t.signedAt (.str nowIso) nowIso
    return (⟨intent, current, false, none⟩,
      ⟨s.transferIntents ++ [intent], s.nativeTransactions ++ [current]⟩)

/-- The move of a recorded transfer to the mempool. -/
def promoteToMempool (s : NativeLedgerState) (current : Dict) (nowIso : String) :
    Py (Dict × NativeLedgerState) := do
  let txId ← current.index "tx_id"
  let _ ← validateAdmissionState h chain s.nativeTransactions current txId
  let admittedAt := ((current.get "admitted_at").orElse (.str nowIso)).text h.toRuntime
  updateNativeTransactionStatus h networkName s txId "mempool" none (some admittedAt) nowIso

/-- The report of an admission to the mempool. -/
def admissionReport (current : Dict) : Dict :=
  [("tx_id", current.get "tx_id"), ("status", current.get "status"), ("admitted", .bool true),
    ("admitted_at", current.get "admitted_at"),
    ("message", .str ("Transaction admitted to local mempool. " ++
      "It is not settled until included in a block."))]

/-- `admit_signed_transfer`. -/
def admitSignedTransfer (s : NativeLedgerState) (t : SignedTransfer) (admitToMempool : Bool)
    (transferId nowIso : String) : Py (SignedAdmission × NativeLedgerState) := do
  let transaction ← buildNativeTransaction h t nowIso
  let validated ← validateIdentity h networkName transaction.toDict
  let (recorded, s) ← recordSignedTransfer h chain s t validated transferId nowIso
  let current := recorded.transaction
  if admitToMempool = false ∨ recordStatus h current ∉ nativeReservedStatuses then
    return (recorded, s)
  else if recordStatus h current = "mempool" then
    return ({ recorded with admission := some (admissionReport current) }, s)
  else do
    let (current, s) ← promoteToMempool h chain networkName s current nowIso
    let intent := getTransferIntentByTxId h s.transferIntents (← current.index "tx_id")
    return (⟨intent.getD recorded.transferIntent, current, recorded.duplicate,
      some (admissionReport current)⟩, s)

/-! ## Reception from a peer -/

/-- What `admit_received_native_transaction` returns. -/
structure ReceivedAdmission where
  transaction : Dict
  duplicate : Bool

/-- `admit_received_native_transaction`. -/
def admitReceivedNativeTransaction (s : NativeLedgerState) (payload : Dict)
    (transferId nowIso : String) : Py (ReceivedAdmission × NativeLedgerState) := do
  let candidate := payload.filter fun entry => entry.1 ∈ immutableSignedTransactionFields
  let (stored, duplicate, records) ← recordNativeTransaction h networkName s.nativeTransactions
    candidate "signed_pending" nowIso
  if recordStatus h stored ∈ nativeFinalizedStatuses then
    return (⟨stored, true⟩, ⟨s.transferIntents, records⟩)
  else do
    let intents := if duplicate then s.transferIntents
      else s.transferIntents ++ [buildTransferIntentRecord h stored transferId
        (stored.get "timestamp") (stored.get "created_at") nowIso]
    let (updated, s) ← promoteToMempool h chain networkName ⟨intents, records⟩ stored nowIso
    return (⟨updated, duplicate⟩, s)

/-! ## Calls -/

/-- A call of the service. -/
inductive AdmissionCall where
  | signed (transfer : SignedTransfer) (admitToMempool : Bool) (transferId nowIso : String)
  | received (payload : Dict) (transferId nowIso : String)

def AdmissionCall.run (s : NativeLedgerState) : AdmissionCall → Py NativeLedgerState
  | .signed transfer admitToMempool transferId nowIso => do
    return (← admitSignedTransfer h chain networkName s transfer admitToMempool transferId
      nowIso).2
  | .received payload transferId nowIso => do
    return (← admitReceivedNativeTransaction h chain networkName s payload transferId nowIso).2

/-- The ledger after a call: a call that raises discards its changes. -/
def NativeLedgerState.perform (s : NativeLedgerState) (call : AdmissionCall) : NativeLedgerState :=
  match call.run h chain networkName s with
  | .ok s' => s'
  | .error _ => s

end Service

end ZoidbergChain
