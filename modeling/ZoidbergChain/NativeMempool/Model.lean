import ZoidbergChain.BlockValidation
import ZoidbergChain.NativeAdmission.Model

/-!
# The mempool (native_mempool_service.py)

`selectForBlock` steps the candidates of a block, in the order of blocks, over the balances and
nonces of the chain; a candidate that a step refuses is skipped and leaves the step state as it
was. What is selected is written for the block by `serializeNativeTransactionForBlock`.
-/

namespace ZoidbergChain

open Python

/-- `native_block_candidate_statuses`. -/
def nativeBlockCandidateStatuses : List String := ["validated_pending", "mempool"]

/-- The fields of a transaction in a block that are always written. -/
def blockTransactionFields : List String :=
  ["tx_id", "transaction_type", "network", "from_address", "to_address", "amount", "fee", "nonce",
    "memo", "timestamp", "signature", "signature_scheme", "signed_message", "signed_message_hash"]

/-- The version fields, which are written when there are any. -/
def blockVersionFields : List String := ["transaction_version", "protocol_version", "network_id"]

/-- `serialize_native_transaction_for_block`. -/
def serializeNativeTransactionForBlock (transaction : Dict) : Dict :=
  blockTransactionFields.map (fun field => (field, transaction.get field)) ++
    (blockVersionFields.filter fun field => !(transaction.get field).isNone).map
      fun field => (field, transaction.get field)

/-- What `select_for_block` returns. -/
structure MempoolPlan where
  transactions : List Dict
  transactionIds : List Value
  transactionCount : Nat
  transactionsHash : String
  skipped : List Dict

section Service

variable (h : Host) (networkName : String)

/-- The `try` block of a candidate: the checked transaction and the state behind it, or the
`ValueError`. -/
def tryBlockStep (canonicalTxIds : Finset HashKey) (transaction : Dict) (s : BlockStepState) :
    Py (Except PyError (Dict × BlockStepState)) :=
  exceptValueError
    (do
      require (recordStatus h transaction ∈ nativeBlockCandidateStatuses) (.value
        ("Transaction status " ++ (transaction.get "status").text h.toRuntime ++
          " is not eligible for this operation."))
      return .ok (← validateBlockStep h networkName canonicalTxIds transaction s))
    fun e => .ok (.error e)

/-- The loop of `select_for_block` over the candidates that are left. -/
def selectLoop (canonicalTxIds : Finset HashKey) (limit : Int) :
    List Dict → BlockStepState → List Dict → List Dict → Py (List Dict × List Dict)
  | [], _, selected, skipped => .ok (selected, skipped)
  | transaction :: rest, s, selected, skipped => do
    let txId := recordTxId h transaction
    if txId = "" ∨ HashKey.str txId ∈ canonicalTxIds then
      selectLoop canonicalTxIds limit rest s selected
        (skipped ++ [[("tx_id", .str txId), ("reason", .str "already_settled")]])
    else
      match ← tryBlockStep h networkName canonicalTxIds transaction s with
      | .error e =>
        selectLoop canonicalTxIds limit rest s selected (skipped ++ [[("tx_id", .str txId),
          ("reason", .str (codeForError h e)), ("message", .str e.message)]])
      | .ok (validated, s') => do
        let selected := selected ++ [serializeNativeTransactionForBlock validated]
        if limit ≤ selected.length then .ok (selected, skipped)
        else selectLoop canonicalTxIds limit rest s' selected skipped

/-- `select_for_block`. -/
def selectForBlock (chain : List ChainBlock) (records : List Dict)
    (maxTransactionsPerBlock : Int) : Py MempoolPlan := do
  let candidates ← sortNativeTransactions h
    (records.filter fun tx => recordStatus h tx ∈ nativeBlockCandidateStatuses)
  let chainState ← calculateBalancesFromChain h networkName (chainToDicts chain)
  let (selected, skipped) ← selectLoop h networkName chainState.seenTxIds maxTransactionsPerBlock
    candidates ⟨chainState.balances, chainState.nextNonces, ∅, ∅⟩ [] []
  let transactionIds ← selected.mapM fun tx => tx.index "tx_id"
  let transactionsHash ← computeNativeTransactionsHash h (selected.map .dict)
  return ⟨selected, transactionIds, selected.length, transactionsHash, skipped⟩

end Service

end ZoidbergChain
