import ZoidbergChain.NativeValidation
import ZoidbergChain.Python.Control

/-!
# Replaying a chain (native_ledger_service.py)

`calculateBalancesFromChain` replays a chain from nothing: for each block the meme
reward settlement, then the ordinary transactions, then the native ones. It raises
on a duplicate reward, a duplicate or malformed native transaction, a nonce out of
order, a nonzero fee and an overdraft.

- `validateSignedNativeTransaction_dict`: the second shape check of a replayed
  transaction changes nothing.
- `applyNativeTransaction_eq_ok`: what the replay checks of one native transaction.
- `calculateBalancesFromChain_append`: a chain is replayed block after block.
-/

namespace ZoidbergChain

open Python

/-- `NativeBlockValidationError(code, message, details=details)`. -/
def blockError (code message : String) (details : Dict := []) : PyError :=
  { exc := .nativeBlockValidationError, message, code := some code, details }

/-- The state of a replay. -/
structure ChainState where
  balances : Mapping Decimal
  seenTxIds : Finset HashKey
  nextNonces : Mapping Int
  rewardedSubmissions : Finset HashKey

/-- The state before the first block. -/
def ChainState.initial : ChainState := ⟨∅, ∅, ∅, ∅⟩

/-- `block_native_transactions` of a dictionary. -/
def blockNativeTransactions (block : Dict) : Py (List Value) :=
  (block.get "native_transactions").listOrEmpty

/-- `list(block.get("transactions", []) or [])`. -/
def blockTransactions (block : Dict) : Py (List Value) :=
  (block.get "transactions").listOrEmpty

/-- `validate_signed_native_transaction(state, None, tx)`: there is no store to look
an identifier up in. -/
def validateSignedNativeTransaction (h : Host) (networkName : String) : Value → Py Dict
  | .dict transaction => do
    let validatedPayload ← validateIdentity h networkName transaction
    let validated ← validateTransactionShape h networkName
      ((withEventTimes transaction).update validatedPayload)
    return validated.toDict
  | .str _ =>
    .error (.attribute "'NoneType' object has no attribute 'get_native_transaction'")
  | _ => .error (.value "transaction must be a tx_id string or transaction object.")

/-! ## One block -/

/-- The block pays the meme mining reward of a submission. -/
def paysMemeReward (block : Dict) : Bool :=
  Value.pyEq (block.get "reward_type") (.str "meme_mining_reward") &&
    (block.get "submission_id").truthy

/-- Record the meme reward of a block. -/
def settleMemeReward (rewarded : Finset HashKey) (block : Dict) : Py (Finset HashKey) :=
  let submissionId := block.get "submission_id"
  if paysMemeReward block then do
    let key ← submissionId.hashKey
    require (key ∉ rewarded) (blockError "duplicate_reward"
      "Chain contains duplicate meme reward settlement for the same submission."
      [("submission_id", submissionId)])
    return insert key rewarded
  else return rewarded

/-- `normalize_wallet_identity(value) or value`. -/
def walletOrRaw (h : Host) (value : Value) : Value :=
  ((normalizeWalletIdentity h.toRuntime value).map Value.str).getD value

theorem walletOrRaw_of_none {h : Host} {value : Value}
    (hnone : normalizeWalletIdentity h.toRuntime value = none) : walletOrRaw h value = value := by
  rw [walletOrRaw, hnone]
  rfl

theorem walletOrRaw_of_some {h : Host} {value : Value} {wallet : String}
    (hsome : normalizeWalletIdentity h.toRuntime value = some wallet) :
    walletOrRaw h value = .str wallet := by
  rw [walletOrRaw, hsome]
  rfl

/-- The senders that are never debited. -/
def systemSenders : List HashKey := [.none, .str "", .str "GENESIS", .str "REWARD_POOL"]

/-- An entry of `transactions` with an attribute or a key `sender`. -/
def asTransaction : Value → Py Dict
  | .dict tx => .ok tx
  | _ => .error (.attribute "object has no attribute 'sender'")

/-- `Decimal(str(amount)) + Decimal(str(tip))` of an ordinary transaction. -/
def transactionTotal (h : Host) (tx : Dict) : Py Decimal := do
  (← (tx.get "amount").decimal h.toRuntime).add
    (← (tx.getD "tip" (.int 0)).decimal h.toRuntime)

/-- Debit the sender, unless it is a system sender. The balance may become negative. -/
def debitSender (balances : Mapping Decimal) (sender : HashKey) (total : Decimal) :
    Py (Mapping Decimal) :=
  if sender ∈ systemSenders then .ok balances
  else do
    return balances.insert sender (← (Mapping.getD balances sender (.finite 0)).sub total)

/-- Credit the recipient, if there is one. -/
def creditRecipient (balances : Mapping Decimal) (recipient : Value) (total : Decimal) :
    Py (Mapping Decimal) :=
  if recipient.truthy then do
    let key ← recipient.hashKey
    return balances.insert key (← (Mapping.getD balances key (.finite 0)).add total)
  else .ok balances

/-- Apply one ordinary transaction. No sender is checked for its balance. -/
def applyTransaction (h : Host) (balances : Mapping Decimal) (transaction : Value) :
    Py (Mapping Decimal) := do
  let tx ← asTransaction transaction
  let sender := walletOrRaw h (tx.get "sender")
  let recipient := walletOrRaw h (tx.get "recipient")
  let total ← transactionTotal h tx
  let senderKey ← sender.hashKey
  let balances ← debitSender balances senderKey total
  creditRecipient balances recipient total

/-- `str(v or "").strip().lower()`. -/
def loweredText (h : Host) (v : Value) : String := h.lower (v.trimmed h.toRuntime)

/-- Apply one native transaction of a replayed block. -/
def applyNativeTransaction (h : Host) (networkName : String) (s : ChainState)
    (transaction : Value) : Py ChainState := do
  let validated ← validateSignedNativeTransaction h networkName transaction
  let txId := loweredText h (validated.get "tx_id")
  require (.str txId ∉ s.seenTxIds) (blockError "duplicate_transaction_id"
    "Chain contains the same native transaction more than once." [("tx_id", .str txId)])
  match normalizeWalletIdentity h.toRuntime (validated.get "from_address"),
      normalizeWalletIdentity h.toRuntime (validated.get "to_address") with
  | some sender, some recipient => do
    let nonce ← coerceNativeNonce h (validated.get "nonce")
    let expected := Mapping.getD s.nextNonces (.str sender) nativeTransactionInitialNonce
    let details := [("tx_id", .str txId), ("from_address", .str sender),
      ("expected_nonce", .int expected), ("received_nonce", .int nonce)]
    require (¬nonce < expected)
      (blockError (if nonce = expected - 1 then "duplicate_nonce" else "nonce_too_low")
        "Chain contains a native transaction with a nonce lower than the next expected chain nonce."
        details)
    require (¬expected < nonce)
      (blockError "nonce_gap" "Chain contains a native transaction with a nonce gap." details)
    let feeText := (validated.get "fee").orElse (.str "0")
    let fee ← feeText.decimal h.toRuntime
    require ((← fee.eq (.finite 0)) = true) (blockError "invalid_fee"
      "Chain contains a native transaction with a nonzero fee."
      [("tx_id", .str txId), ("fee", .str (feeText.text h.toRuntime))])
    let amount ← ((validated.get "amount").orElse (.str "0")).decimal h.toRuntime
    let total ← amount.add fee
    let balance := Mapping.getD s.balances (.str sender) (.finite 0)
    require ((← balance.lt total) = false) (blockError "insufficient_balance"
      "Chain contains a native transaction that would overdraw the sender."
      [("tx_id", .str txId), ("from_address", .str sender),
        ("available_balance", .str (normalizeDecimalValue balance)),
        ("required_total", .str (normalizeDecimalValue total))])
    let balances := s.balances.insert (.str sender) (← balance.sub total)
    let balances := balances.insert (.str recipient)
      (← (Mapping.getD balances (.str recipient) (.finite 0)).add amount)
    return { s with
      balances := balances
      nextNonces := s.nextNonces.insert (.str sender) (expected + 1)
      seenTxIds := insert (.str txId) s.seenTxIds }
  | _, _ => .error (blockError "malformed_transaction"
      "Chain contains a native transaction with an invalid sender or recipient."
      [("tx_id", .str txId)])

/-- Replay one block. -/
def applyBlock (h : Host) (networkName : String) (s : ChainState) (block : Dict) :
    Py ChainState := do
  let rewardedSubmissions ← settleMemeReward s.rewardedSubmissions block
  let balances ← (← blockTransactions block).foldlM (applyTransaction h) s.balances
  (← blockNativeTransactions block).foldlM (applyNativeTransaction h networkName)
    { s with balances := balances, rewardedSubmissions := rewardedSubmissions }

/-- `calculate_balances_from_chain` (native_ledger_service.py:604–630). -/
def calculateBalancesFromChain (h : Host) (networkName : String) (chain : List Dict) :
    Py ChainState :=
  chain.foldlM (applyBlock h networkName) .initial

/-! ## Records are validated once -/

variable {h : Host} {networkName : String}

theorem validateSignedNativeTransaction_dict (tx : Dict) :
    validateSignedNativeTransaction h networkName (.dict tx) =
      validateIdentity h networkName tx := by
  cases hd : validateIdentity h networkName tx with
  | error e => simp only [validateSignedNativeTransaction, hd, error_bind]
  | ok d =>
    obtain ⟨t, ht, ha, rfl⟩ := validateIdentity_eq_ok.mp hd
    have hvalid := validateIdentity_valid ht ha
    obtain ⟨-, -, -, hl⟩ := validateTransactionShape_eq_ok ht
    have hkeys := NativeTransaction.keys_toDict hvalid.fields
    have hshape := validateTransactionShape_of_agrees
      (d := (withEventTimes tx).update t.toDict) hvalid hl fun k hk =>
        Dict.get_update_of_mem (NativeTransaction.nodup_keys_toDict hvalid.fields) (hkeys ▸ hk)
    simp only [validateSignedNativeTransaction, hd, hshape, ok_bind]
    rfl

/-! ## Native transactions -/

/-- The state after a transfer, over the new balances. -/
def ChainState.after (s : ChainState) (f : Transfer) (balances : Mapping Decimal) :
    ChainState where
  balances := balances
  seenTxIds := insert (.str f.txId) s.seenTxIds
  nextNonces := s.nextNonces.insert (.str f.sender)
    (Mapping.getD s.nextNonces (.str f.sender) nativeTransactionInitialNonce + 1)
  rewardedSubmissions := s.rewardedSubmissions

/-- What the replay checks of a native transaction and does with it. -/
theorem applyNativeTransaction_eq_ok {tx d : Dict} {f : Transfer} {s s' : ChainState}
    (hd : validateIdentity h networkName tx = .ok d) (hf : IsTransfer h d f) :
    applyNativeTransaction h networkName s (.dict tx) = .ok s' ↔
      .str f.txId ∉ s.seenTxIds ∧
      f.nonce = Mapping.getD s.nextNonces (.str f.sender) nativeTransactionInitialNonce ∧
      f.fee = 0 ∧ ∃ b, applyTransfer s.balances f = .ok b ∧ s' = s.after f b := by
  obtain ⟨nonce, hnonce, hnonceInt⟩ := hf.nonce
  obtain ⟨amount, hamount, hamountNe⟩ := hf.amount_str
  obtain ⟨fee, hfee, hfeeNe⟩ := hf.fee_str
  obtain ⟨_, hamount', hamountQ⟩ := hf.amount
  obtain ⟨_, hfee', hfeeQ⟩ := hf.fee
  obtain rfl := Option.some.inj (hamount.symm.trans hamount')
  obtain rfl := Option.some.inj (hfee.symm.trans hfee')
  have hget : ∀ {k : String} {v : Value}, d.get? k = some v → d.get k = v := by
    intro k v hk
    rw [Dict.get_eq, hk]
    rfl
  have hor : ∀ {s : String}, s ≠ "" → (Value.str s).orElse (.str "0") = .str s := fun hs =>
    Value.orElse_of_truthy (by simpa using hs)
  have hid : loweredText h (.str f.txId) = f.txId := hf.txId_hex.lower_trimmed
  simp only [applyNativeTransaction, validateSignedNativeTransaction_dict, hd, ok_bind,
    hget hf.txId, hget hf.sender, hget hf.recipient, hget hnonce, hget hamount, hget hfee, hid,
    normalizeWalletIdentity_str hf.sender_wallet, normalizeWalletIdentity_str hf.recipient_wallet,
    hnonceInt, hor hamountNe, hor hfeeNe, hamountQ, hfeeQ, Decimal.eq_finite, Decimal.add_finite,
    decide_eq_true_eq, applyTransfer, bind_eq_ok, require_eq_ok, pure_eq_ok]
  constructor
  · rintro ⟨-, hseen, -, hlow, -, hhigh, -, hzero, covered, hcovered, -, hc, x, hx, z, hz, rfl⟩
    rw [hzero, add_zero] at hcovered hx
    exact ⟨hseen, le_antisymm (not_lt.mp hhigh) (not_lt.mp hlow), hzero, _,
      ⟨covered, hcovered, (), hc, x, hx, z, hz, rfl⟩, rfl⟩
  · rintro ⟨hseen, hnext, hzero, b, ⟨covered, hcovered, -, hc, x, hx, z, hz, rfl⟩, rfl⟩
    refine ⟨(), hseen, (), not_lt.mpr hnext.ge, (), not_lt.mpr hnext.le, (), hzero, covered, ?_,
      (), hc, x, ?_, z, hz, rfl⟩
    · rw [hzero, add_zero]
      exact hcovered
    · rw [hzero, add_zero]
      exact hx

/-- The transfers of a list of native transactions. -/
def ReadsTransfers (h : Host) (networkName : String) (txs : List Value) (fs : List Transfer) :
    Prop :=
  List.Forall₂ (fun v f => ∃ tx d, v = .dict tx ∧ validateIdentity h networkName tx = .ok d ∧
    IsTransfer h d f) txs fs

/-- The transfers are covered when they are taken in order. -/
def Covered : Mapping Decimal → List Transfer → Prop
  | _, [] => True
  | b, f :: fs => ∃ b', applyTransfer b f = .ok b' ∧ Covered b' fs

/-- The identifiers and nonces of the transfers fit a state, in order. -/
def InSequence : Finset HashKey → Mapping Int → List Transfer → Prop
  | _, _, [] => True
  | seen, next, f :: fs =>
    .str f.txId ∉ seen ∧
    f.nonce = Mapping.getD next (.str f.sender) nativeTransactionInitialNonce ∧ f.fee = 0 ∧
    InSequence (insert (.str f.txId) seen) (next.insert (.str f.sender)
      (Mapping.getD next (.str f.sender) nativeTransactionInitialNonce + 1)) fs

/-- The native transactions of a block are replayed exactly when their transfers are in
sequence and covered. -/
theorem applyNativeTransactions_eq_ok {txs : List Value} {fs : List Transfer}
    (hreads : ReadsTransfers h networkName txs fs) (s : ChainState) :
    (∃ s', txs.foldlM (applyNativeTransaction h networkName) s = .ok s') ↔
      InSequence s.seenTxIds s.nextNonces fs ∧ Covered s.balances fs := by
  induction hreads generalizing s with
  | nil => simp [InSequence, Covered]
  | cons hhead _ ih =>
    obtain ⟨tx, d, rfl, hd, hf⟩ := hhead
    simp only [foldlM_cons_eq_ok, applyNativeTransaction_eq_ok hd hf, InSequence, Covered]
    constructor
    · rintro ⟨s', _, ⟨hseen, hnext, hzero, b, hb, rfl⟩, hrest⟩
      obtain ⟨hseq, hcov⟩ := (ih _).mp ⟨s', hrest⟩
      exact ⟨⟨hseen, hnext, hzero, hseq⟩, b, hb, hcov⟩
    · rintro ⟨⟨hseen, hnext, hzero, hseq⟩, b, hb, hcov⟩
      obtain ⟨s', hrest⟩ := (ih (s.after _ b)).mpr ⟨hseq, hcov⟩
      exact ⟨s', _, ⟨hseen, hnext, hzero, b, hb, rfl⟩, hrest⟩

/-! ## Blocks -/

theorem calculateBalancesFromChain_append {chain : List Dict} {block : Dict} {s : ChainState} :
    calculateBalancesFromChain h networkName (chain ++ [block]) = .ok s ↔
      ∃ m, calculateBalancesFromChain h networkName chain = .ok m ∧
        applyBlock h networkName m block = .ok s := by
  simp [calculateBalancesFromChain]

end ZoidbergChain
