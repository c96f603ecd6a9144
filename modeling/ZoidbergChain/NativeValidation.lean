import ZoidbergChain.NativeTransferStable
import ZoidbergChain.Python.Mapping

/-!
# Validation of native transactions (native_transaction_validation_service.py)

`validateIdentity` checks what needs no chain: shape, version, network, signed
message, signer. `validateBlockStep` checks a transaction against the state of a
block and applies it.

- `validateIdentity_eq_ok`: an accepted transaction is a valid versioned record
  whose signer is its sender.
- `IsTransfer`: the transfer that an accepted record describes, in numbers.
- `validateBlockStep_eq_ok`: what one step checks and does to the block state.
-/

namespace ZoidbergChain

open Python

/-- `NativeTransactionValidationError(code, message)`. -/
def transactionError (code message : String) : PyError :=
  { exc := .nativeTransactionValidationError, message, code := some code }

/-- `code_for_error`. -/
def codeForError (h : Host) (error : PyError) : String :=
  if error.exc = .nativeTransactionValidationError then error.code.getD ""
  else
    let message := h.lower error.message
    if containsText "tx_id" message ∧
        (containsText "does not match" message ∨ containsText "hex" message) then "invalid_tx_id"
    else if containsText "signed_message_hash" message then "invalid_signed_message_hash"
    else if containsText "recovered signer" message ∨
        containsText "does not match from_address" message then "sender_signature_mismatch"
    else if containsText "signature" message then "invalid_signature"
    else if containsText "network" message then "wrong_network"
    else if containsText "version" message then "unsupported_version"
    else if containsText "fee" message then "invalid_fee"
    else if containsText "nonce" message then "invalid_nonce"
    else if containsText "balance" message ∨ containsText "overdraw" message then
      "insufficient_balance"
    else "malformed_transaction"

/-! ## Signatures -/

/-- `recover_signed_wallet_address` (native_transfer.py:60–73). -/
def recoverSignedWalletAddress (h : Host) (message signature : String) : Py String :=
  match h.recoverMessage message signature with
  | none => .error (.value "Malformed signature or unsupported signature payload.")
  | some recovered =>
    match NativeTransfer.normalizeWalletAddress h.toRuntime (.str recovered) with
    | none => .error (.value "Recovered signature address is invalid.")
    | some normalized => .ok normalized

/-- `verify_transfer_signature`. -/
def verifyTransferSignature (h : Host) (message signature expectedFromAddress : String) :
    Py Unit :=
  match NativeTransfer.normalizeWalletAddress h.toRuntime (.str expectedFromAddress) with
  | none => .error (.value "expected_from_address must be a valid Ethereum-style 0x address.")
  | some normalizedExpected => do
    require (strip message ≠ "") (.value "message is required.")
    require (strip signature ≠ "") (.value "signature is required.")
    let recovered ← recoverSignedWalletAddress h message signature
    require (recovered = normalizedExpected)
      (.value "Transfer signature does not match the expected from_address.")

/-! ## Identity -/

/-- The event times default to the signed timestamp. -/
def withEventTimes (payload : Dict) : Dict :=
  let timestamp := payload.get "timestamp"
  if Value.isPresent timestamp then
    (payload.setdefault "created_at" timestamp).setdefault "updated_at" timestamp
  else payload

/-- The `try` block of `validate_identity`. -/
def checkIdentity (h : Host) (networkName : String) (transaction : Dict) : Py Dict := do
  let validated ← validateTransactionShape h networkName (withEventTimes transaction)
  let f := validated.fields
  require (f.transactionVersion = some protocolVersion) (transactionError "unsupported_version"
    "Protocol v1 native transaction version is required for mempool admission.")
  require (f.protocolVersion = some protocolVersion) (transactionError "unsupported_version"
    "protocol_version is required for Protocol v1 native transfers.")
  let expectedNetworkId ← resolveProtocolV1NetworkId h networkName
  require (f.networkId = some expectedNetworkId)
    (transactionError "wrong_network" "Transaction belongs to a different network.")
  require (f.signedMessageHash = hashTransferSigningMessage h f.signedMessage)
    (transactionError "invalid_signed_message_hash"
      "signed_message_hash does not match signed_message.")
  require (looksLikeProtocolV1NativeTransferMessage h f.signedMessage = true)
    (transactionError "malformed_transaction"
      "signed_message must be a Protocol v1 native transfer payload.")
  let expectedMessage ← buildProtocolV1NativeTransferMessage h (.str f.fromAddress)
    (.str f.toAddress) (.str f.amount) (.str f.fee) (.str f.nonce) (.str f.timestamp)
    (optionText f.memo) (optionText f.networkId)
  require (f.signedMessage = expectedMessage) (transactionError "malformed_transaction"
    "signed_message does not match the Protocol v1 native transfer payload.")
  exceptValueError (verifyTransferSignature h f.signedMessage f.signature f.fromAddress) fun e =>
    .error (transactionError
      (if containsText "does not match" (h.lower e.message) then "sender_signature_mismatch"
        else "invalid_signature") e.message)
  return validated.toDict

/-- `validate_identity`. -/
def validateIdentity (h : Host) (networkName : String) (transaction : Dict) : Py Dict :=
  exceptValueError (checkIdentity h networkName transaction) fun e =>
    .error (if e.exc = .nativeTransactionValidationError then e
      else transactionError (codeForError h e) e.message)

/-! ## Block steps -/

/-- `coerce_native_nonce`. -/
def coerceNativeNonce (h : Host) (nonce : Value) : Py Int := do
  (Value.str (← parseTransferNonce h nonce)).toInt

/-- The key of a normalized wallet in a table. -/
def walletKey : Option String → HashKey
  | some wallet => .str wallet
  | none => .none

/-- `NATIVE_TRANSACTION_INITIAL_NONCE`. -/
def nativeTransactionInitialNonce : Int := 1

/-- The tables that `validate_block_step` updates. -/
structure BlockStepState where
  balances : Mapping Decimal
  nextNonces : Mapping Int
  seenBlockTxIds : Finset HashKey
  seenNonces : Finset (HashKey × Int)

/-- `validate_block_step` (native_transaction_validation_service.py:168–197). -/
def validateBlockStep (h : Host) (networkName : String) (canonicalTxIds : Finset HashKey)
    (transaction : Dict) (s : BlockStepState) : Py (Dict × BlockStepState) := do
  let checked ← validateIdentity h networkName transaction
  let txId ← (← checked.index "tx_id").hashKey
  require (txId ∉ canonicalTxIds) (transactionError "already_settled"
    "Transaction is already present in canonical settlement.")
  require (txId ∉ s.seenBlockTxIds) (transactionError "duplicate_transaction_id"
    "Block contains the same native transaction more than once.")
  let sender := walletKey (normalizeWalletIdentity h.toRuntime (← checked.index "from_address"))
  let recipient := walletKey (normalizeWalletIdentity h.toRuntime (← checked.index "to_address"))
  let nonce ← coerceNativeNonce h (← checked.index "nonce")
  require ((sender, nonce) ∉ s.seenNonces) (transactionError "active_nonce_conflict"
    "Block contains multiple native transactions with the same sender nonce.")
  let expected := Mapping.getD s.nextNonces sender nativeTransactionInitialNonce
  require (¬nonce < expected) (transactionError "stale_nonce"
    "Block native transaction nonce is lower than the next expected chain nonce.")
  require (¬expected < nonce) (transactionError "future_nonce"
    "Block native transaction nonce creates a gap against the prior chain state.")
  let amount ← (← checked.index "amount").decimal h.toRuntime
  let fee ← (← checked.index "fee").decimal h.toRuntime
  require ((← fee.eq (.finite 0)) = true) (transactionError "invalid_fee"
    "Block native transaction fee must be zero under the current fee policy.")
  let balance := Mapping.getD s.balances sender (.finite 0)
  require ((← balance.lt (← amount.add fee)) = false) (transactionError "insufficient_balance"
    "Block native transaction would overdraw the sender when applied in block order.")
  let balances := s.balances.insert sender (← (← balance.sub amount).sub fee)
  let balances := balances.insert recipient
    (← (Mapping.getD balances recipient (.finite 0)).add amount)
  return (checked, {
    balances := balances
    nextNonces := s.nextNonces.insert sender (expected + 1)
    seenBlockTxIds := insert txId s.seenBlockTxIds
    seenNonces := insert (sender, nonce) s.seenNonces })

/-! ## Accepted identities -/

variable {h : Host} {networkName : String}

/-- The checks of `validate_identity` behind the shape. -/
structure Authentic (h : Host) (networkName : String) (f : CanonicalFields) : Prop where
  transactionVersion : f.transactionVersion = some ZoidbergChain.protocolVersion
  protocolVersion : f.protocolVersion = some ZoidbergChain.protocolVersion
  networkId : ∃ id, resolveProtocolV1NetworkId h networkName = .ok id ∧ f.networkId = some id
  messageHash : f.signedMessageHash = hashTransferSigningMessage h f.signedMessage
  looksLike : looksLikeProtocolV1NativeTransferMessage h f.signedMessage = true
  message : buildProtocolV1NativeTransferMessage h (.str f.fromAddress) (.str f.toAddress)
    (.str f.amount) (.str f.fee) (.str f.nonce) (.str f.timestamp) (optionText f.memo)
    (optionText f.networkId) = .ok f.signedMessage
  signature : verifyTransferSignature h f.signedMessage f.signature f.fromAddress = .ok ()

theorem checkIdentity_eq_ok {tx d : Dict} : checkIdentity h networkName tx = .ok d ↔
    ∃ t, validateTransactionShape h networkName (withEventTimes tx) = .ok t ∧
      Authentic h networkName t.fields ∧ d = t.toDict := by
  simp only [checkIdentity, bind_eq_ok, require_eq_ok, pure_eq_ok]
  constructor
  · rintro ⟨t, ht, -, htv, -, hpv, id, hid, -, hnet, -, hhash, -, hlooks, message, hmessage, -,
      heq, ⟨⟩, hsig, rfl⟩
    rw [exceptValueError_eq_ok (by simp)] at hsig
    exact ⟨t, ht, ⟨htv, hpv, ⟨id, hid, hnet⟩, hhash, hlooks, heq ▸ hmessage, hsig⟩, rfl⟩
  · rintro ⟨t, ht, ⟨htv, hpv, ⟨id, hid, hnet⟩, hhash, hlooks, hmessage, hsig⟩, rfl⟩
    refine ⟨t, ht, (), htv, (), hpv, id, hid, (), hnet, (), hhash, (), hlooks, _, hmessage, (),
      rfl, (), ?_, rfl⟩
    rw [exceptValueError_eq_ok (by simp)]
    exact hsig

theorem validateIdentity_eq_ok {tx d : Dict} : validateIdentity h networkName tx = .ok d ↔
    ∃ t, validateTransactionShape h networkName (withEventTimes tx) = .ok t ∧
      Authentic h networkName t.fields ∧ d = t.toDict := by
  rw [validateIdentity, exceptValueError_eq_ok (by simp), checkIdentity_eq_ok]

theorem validateIdentity_valid {tx : Dict} {t : NativeTransaction}
    (ht : validateTransactionShape h networkName (withEventTimes tx) = .ok t)
    (ha : Authentic h networkName t.fields) : t.Valid h networkName :=
  validateTransactionShape_valid ht (by rw [ha.transactionVersion]; exact Option.some_ne_none _)

/-! ## The transfer of an accepted record -/

/-- A transfer in numbers. -/
structure Transfer where
  txId : String
  sender : String
  recipient : String
  nonce : Int
  amount : Rat
  fee : Rat

/-- The transfer that a validated record describes. -/
structure IsTransfer (h : Host) (d : Dict) (f : Transfer) : Prop where
  txId : d.get? "tx_id" = some (.str f.txId)
  txId_hex : IsHex64 f.txId
  sender : d.get? "from_address" = some (.str f.sender)
  sender_wallet : IsWalletAddress f.sender
  recipient : d.get? "to_address" = some (.str f.recipient)
  recipient_wallet : IsWalletAddress f.recipient
  ne : f.sender ≠ f.recipient
  nonce : ∃ v, d.get? "nonce" = some v ∧ coerceNativeNonce h v = .ok f.nonce
  nonce_pos : 1 ≤ f.nonce
  amount : ∃ v, d.get? "amount" = some v ∧ v.decimal h.toRuntime = .ok (.finite f.amount)
  amount_str : ∃ s, d.get? "amount" = some (.str s) ∧ s ≠ ""
  amount_pos : 0 < f.amount
  fee : ∃ v, d.get? "fee" = some v ∧ v.decimal h.toRuntime = .ok (.finite f.fee)
  fee_str : ∃ s, d.get? "fee" = some (.str s) ∧ s ≠ ""
  fee_nonneg : 0 ≤ f.fee

theorem IsAmount.ne_empty {s : String} {c : Nat} (hs : IsAmount s c) : s ≠ "" := by
  obtain ⟨e, -, -, rfl⟩ := hs
  obtain ⟨d, t, hdt, -⟩ := positional_head c e
  rw [hdt]
  simp [← String.toList_inj]

/-- Every valid record describes a transfer. -/
theorem NativeTransaction.Valid.isTransfer {t : NativeTransaction} (ht : t.Valid h networkName) :
    ∃ f, IsTransfer h t.toDict f ∧ f.txId = t.txId ∧ f.sender = t.fields.fromAddress ∧
      f.recipient = t.fields.toAddress := by
  obtain ⟨c, hamount, hc⟩ := ht.fields.parsed.amount
  obtain ⟨c', hfee⟩ := ht.fields.parsed.fee
  obtain ⟨n, hn, hnonce⟩ := ht.fields.parsed.nonceInt
  obtain ⟨q, hq, hq0, hqc⟩ := hamount.decimal
  obtain ⟨r, hr, hr0, -⟩ := hfee.decimal
  have hpos : 0 < q := lt_of_le_of_ne hq0 fun h0 => hc (hqc.mp h0.symm)
  refine ⟨⟨t.txId, t.fields.fromAddress, t.fields.toAddress, n, q, r⟩, ?_, rfl, rfl, rfl⟩
  exact {
    txId := rfl
    txId_hex := computeTransactionId_isHex64 ht.txId
    sender := rfl
    sender_wallet := ht.fields.parts.fromAddress
    recipient := rfl
    recipient_wallet := ht.fields.parts.toAddress
    ne := ht.fields.parts.addresses
    nonce := ⟨_, rfl, by rw [coerceNativeNonce, ht.fields.parsed.nonce, ok_bind, hnonce]⟩
    nonce_pos := hn
    amount := ⟨_, rfl, hq⟩
    amount_str := ⟨_, rfl, hamount.ne_empty⟩
    amount_pos := hpos
    fee := ⟨_, rfl, hr⟩
    fee_str := ⟨_, rfl, hfee.ne_empty⟩
    fee_nonneg := hr0 }

theorem validateIdentity_isTransfer {tx d : Dict} (hd : validateIdentity h networkName tx = .ok d) :
    ∃ f, IsTransfer h d f := by
  obtain ⟨t, ht, ha, rfl⟩ := validateIdentity_eq_ok.mp hd
  obtain ⟨f, hf, -⟩ := (validateIdentity_valid ht ha).isTransfer
  exact ⟨f, hf⟩

/-- A record describes one transfer. -/
theorem IsTransfer.unique {d : Dict} {f g : Transfer} (hf : IsTransfer h d f)
    (hg : IsTransfer h d g) : f = g := by
  obtain ⟨v, hv, hvn⟩ := hf.nonce
  obtain ⟨w, hw, hwn⟩ := hg.nonce
  obtain ⟨a, ha, han⟩ := hf.amount
  obtain ⟨b, hb, hbn⟩ := hg.amount
  obtain ⟨c, hc, hcn⟩ := hf.fee
  obtain ⟨e, he, hen⟩ := hg.fee
  obtain rfl : v = w := Option.some.inj (hv.symm.trans hw)
  obtain rfl : a = b := Option.some.inj (ha.symm.trans hb)
  obtain rfl : c = e := Option.some.inj (hc.symm.trans he)
  have htx := hf.txId.symm.trans hg.txId
  have hs := hf.sender.symm.trans hg.sender
  have hr := hf.recipient.symm.trans hg.recipient
  have hn := hvn.symm.trans hwn
  have ham := han.symm.trans hbn
  have hfe := hcn.symm.trans hen
  cases f
  cases g
  simp_all

/-! ## Moving funds -/

/-- Move the amount of a transfer, which the sender's balance must cover. -/
def applyTransfer (balances : Mapping Decimal) (f : Transfer) : Py (Mapping Decimal) := do
  let balance := Mapping.getD balances (.str f.sender) (.finite 0)
  require ((← balance.lt (.finite f.amount)) = false) (transactionError "insufficient_balance"
    "Block native transaction would overdraw the sender when applied in block order.")
  let balances := balances.insert (.str f.sender) (← balance.sub (.finite f.amount))
  return balances.insert (.str f.recipient)
    (← (Mapping.getD balances (.str f.recipient) (.finite 0)).add (.finite f.amount))

/-- The state after a transfer, over the new balances. -/
def BlockStepState.after (s : BlockStepState) (f : Transfer) (balances : Mapping Decimal) :
    BlockStepState where
  balances := balances
  nextNonces := s.nextNonces.insert (.str f.sender)
    (Mapping.getD s.nextNonces (.str f.sender) nativeTransactionInitialNonce + 1)
  seenBlockTxIds := insert (.str f.txId) s.seenBlockTxIds
  seenNonces := insert (.str f.sender, f.nonce) s.seenNonces

/-- What one block step checks and does. -/
theorem validateBlockStep_eq_ok {canonicalTxIds : Finset HashKey} {tx d d' : Dict}
    {f : Transfer} {s s' : BlockStepState} (hd : validateIdentity h networkName tx = .ok d)
    (hf : IsTransfer h d f) :
    validateBlockStep h networkName canonicalTxIds tx s = .ok (d', s') ↔
      .str f.txId ∉ canonicalTxIds ∧ .str f.txId ∉ s.seenBlockTxIds ∧
      (.str f.sender, f.nonce) ∉ s.seenNonces ∧
      f.nonce = Mapping.getD s.nextNonces (.str f.sender) nativeTransactionInitialNonce ∧
      f.fee = 0 ∧ d' = d ∧
      ∃ b, applyTransfer s.balances f = .ok b ∧ s' = s.after f b := by
  obtain ⟨nonce, hnonce, hnonceInt⟩ := hf.nonce
  obtain ⟨amount, hamount, hamountQ⟩ := hf.amount
  obtain ⟨fee, hfee, hfeeQ⟩ := hf.fee
  have hindex : ∀ {k : String} {v : Value}, d.get? k = some v → d.index k = .ok v := by
    intro k v hk
    rw [Dict.index, hk]
  have hsender : walletKey (normalizeWalletIdentity h.toRuntime (.str f.sender)) =
      .str f.sender := by rw [normalizeWalletIdentity_str hf.sender_wallet]; rfl
  have hrecipient : walletKey (normalizeWalletIdentity h.toRuntime (.str f.recipient)) =
      .str f.recipient := by rw [normalizeWalletIdentity_str hf.recipient_wallet]; rfl
  have hkey : (Value.str f.txId).hashKey = .ok (.str f.txId) := rfl
  simp only [validateBlockStep, hd, hindex hf.txId, hindex hf.sender, hindex hf.recipient,
    hindex hnonce, hindex hamount, hindex hfee, hkey, hsender, hrecipient, hnonceInt, hamountQ,
    hfeeQ, ok_bind, Decimal.eq_finite, Decimal.add_finite, decide_eq_true_eq, applyTransfer,
    bind_eq_ok, require_eq_ok, pure_eq_ok, Prod.mk.injEq]
  constructor
  · rintro ⟨-, hcanon, -, hseen, -, hkeys, -, hlow, -, hhigh, -, hzero, covered, hcovered, -, hc,
      x, hx, y, hy, z, hz, rfl, rfl⟩
    rw [hzero, add_zero] at hcovered
    rw [hzero, Decimal.sub_zero_of_sub hx] at hy
    obtain rfl := Except.ok.inj hy
    exact ⟨hcanon, hseen, hkeys, le_antisymm (not_lt.mp hhigh) (not_lt.mp hlow), hzero, rfl, _,
      ⟨covered, hcovered, (), hc, x, hx, z, hz, rfl⟩, rfl⟩
  · rintro ⟨hcanon, hseen, hkeys, hnext, hzero, rfl, b, ⟨covered, hcovered, -, hc, x, hx, z, hz,
      rfl⟩, rfl⟩
    refine ⟨(), hcanon, (), hseen, (), hkeys, (), not_lt.mpr hnext.ge, (), not_lt.mpr hnext.le, (),
      hzero, covered, ?_, (), hc, x, hx, x, ?_, z, hz, rfl, rfl⟩
    · rw [hzero, add_zero]
      exact hcovered
    · rw [hzero]
      exact Decimal.sub_zero_of_sub hx

end ZoidbergChain
