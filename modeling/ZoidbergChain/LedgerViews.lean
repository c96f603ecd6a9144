import ZoidbergChain.Block
import ZoidbergChain.NativeLedger
import ZoidbergChain.Scan.NextFree

/-!
# The ledger as admission sees it (native_ledger_service.py)

Admission reads the balance and the next nonce of one wallet off the chain, with two loops of
its own. The replay keeps both for every wallet.

- `getFinalNativeBalanceAmount` and `getNextSettledNonce` are the views of admission.
- `balance_and_nonce_of_replay`: on a chain that replays they are what the replay ends with.

An amount of a native transaction is read from its text by the views, and after the rounding of
`normalize` by the replay, so that the two agree on the amounts that this rounding keeps.
-/

namespace ZoidbergChain

open Python

/-! ## The chain of a node -/

/-- A block of a chain: an object, or a dictionary that lists its transactions, as
`Block.to_dict` writes it and peers are asked for it. -/
inductive ChainBlock where
  | object (block : Block)
  | dict (block : Dict)
      (listed : ∀ v, block.get? "transactions" = some v → ∃ txs, v = .list txs)

/-- `block.to_dict() if hasattr(block, "to_dict") else block`. -/
def ChainBlock.toDict : ChainBlock → Dict
  | .object block => block.toDict
  | .dict block _ => block

/-- `chain_to_dicts`. -/
def chainToDicts (chain : List ChainBlock) : List Dict := chain.map ChainBlock.toDict

/-- `block.get("transactions", []) if isinstance(block, dict) else block.transactions`. -/
def ChainBlock.transactions : ChainBlock → Py (List Value)
  | .object block => .ok (block.transactions.map fun tx => .dict tx.toDict)
  | .dict block _ => (block.getD "transactions" (.list [])).iter

/-- `block_native_transactions`. -/
def ChainBlock.nativeTransactions : ChainBlock → Py (List Value)
  | .object block => .ok (block.nativeTransactions.map .dict)
  | .dict block _ => blockNativeTransactions block

section Views

variable (h : Host)

/-! ## The next settled nonce -/

/-- `normalize_wallet_identity(tx.get(field)) == wallet`. -/
def isParty (wallet : String) (tx : Dict) (field : String) : Bool :=
  normalizeWalletIdentity h.toRuntime (tx.get field) = some wallet

/-- `get_settled_native_transaction_records_for_wallet`. -/
def getSettledNativeTransactionRecordsForWallet (chain : List ChainBlock) (wallet : String) :
    Py (List Dict) := do
  let natives ← chain.mapM ChainBlock.nativeTransactions
  let records ← natives.flatten.mapM Value.asDict
  .ok (records.filter fun tx =>
    isParty h wallet tx "from_address" || isParty h wallet tx "to_address")

/-- `get_settled_used_nonces`. -/
def getSettledUsedNonces (chain : List ChainBlock) (wallet : String) : Py (List Int) := do
  let records ← getSettledNativeTransactionRecordsForWallet h chain wallet
  let nonces ← (records.filter fun tx => isParty h wallet tx "from_address").mapM fun tx =>
    coerceNativeNonce h (tx.get "nonce")
  .ok (nonces.dedup.insertionSort (· ≤ ·))

/-- `get_next_settled_nonce`. -/
def getNextSettledNonce (chain : List ChainBlock) (walletAddress : Value) : Py Int :=
  match normalizeWalletIdentity h.toRuntime walletAddress with
  | none => .ok nativeTransactionInitialNonce
  | some wallet => do
    let used ← getSettledUsedNonces h chain wallet
    .ok (Scan.nextFree used used.length nativeTransactionInitialNonce)

/-! ## The final balance -/

/-- `if concerned: balance = updated`. -/
def updateIf (concerned : Prop) [Decidable concerned] (balance : Decimal) (updated : Py Decimal) :
    Py Decimal :=
  if concerned then updated else .ok balance

/-- The effect of an ordinary transaction on the balance of a wallet. -/
def ordinaryEffect (wallet : String) (balance : Decimal) (transaction : Value) : Py Decimal := do
  let tx ← asTransaction transaction
  let sender := walletOrRaw h (tx.get "sender")
  let recipient := walletOrRaw h (tx.get "recipient")
  let amount ← (tx.get "amount").decimal h.toRuntime
  let tip ← (tx.getD "tip" (.int 0)).decimal h.toRuntime
  let balance ← updateIf (sender = .str wallet) balance do balance.sub (← amount.add tip)
  updateIf (recipient = .str wallet) balance do balance.add (← amount.add tip)

/-- The effect of a native transaction on the balance of a wallet. -/
def nativeEffect (wallet : String) (balance : Decimal) (transaction : Value) : Py Decimal := do
  let tx ← transaction.asDict
  let amount ← ((tx.get "amount").orElse (.str "0")).decimal h.toRuntime
  let fee ← ((tx.get "fee").orElse (.str "0")).decimal h.toRuntime
  let balance ← updateIf (isParty h wallet tx "from_address") balance do
    balance.sub (← amount.add fee)
  updateIf (isParty h wallet tx "to_address") balance (balance.add amount)

/-- The effect of a block on the balance of a wallet. -/
def blockEffect (wallet : String) (balance : Decimal) (block : ChainBlock) : Py Decimal := do
  let balance ← (← block.transactions).foldlM (ordinaryEffect h wallet) balance
  (← block.nativeTransactions).foldlM (nativeEffect h wallet) balance

/-- `get_final_native_balance_amount`. -/
def getFinalNativeBalanceAmount (chain : List ChainBlock) (walletAddress : Value) : Py Decimal :=
  match normalizeWalletIdentity h.toRuntime walletAddress with
  | none => .ok (.finite 0)
  | some wallet => chain.foldlM (blockEffect h wallet) (.finite 0)

end Views

/-! ## What an accepted transaction reads like before it is validated -/

variable {h : Host} {networkName : String}

/-- The amount of a transaction has at most 28 significant digits, so that normalizing it does
not round. -/
def ExactAmount (h : Host) (tx : Dict) : Prop :=
  ∀ n, parseDecimal ((tx.get "amount").text h.toRuntime) = some (.finite n) →
    (trim n.coeff n.exp).1 < 10 ^ contextPrecision

theorem addressOfChars_mono {p q : Char → Bool} (hpq : ∀ c, p c = true → q c = true)
    {cs : List Char} {a : String} (ha : addressOfChars p cs = some a) :
    addressOfChars q cs = some a := by
  unfold addressOfChars at ha ⊢
  split at ha
  · next x hex =>
    split at ha
    · next hc =>
      rw [if_pos ⟨hpq _ hc.1, hc.2⟩]
      exact ha
    · cases ha
  · cases ha

/-- The ledger takes every address that the transfer protocol takes. -/
theorem normalizeWalletIdentity_of_native {rt : Runtime} {v : Value} {a : String}
    (ha : NativeTransfer.normalizeWalletAddress rt v = some a) :
    normalizeWalletIdentity rt v = some a := by
  have hwallet : WalletSignatures.normalizeWalletAddress rt (.str (v.trimmed rt)) = some a := by
    unfold WalletSignatures.normalizeWalletAddress
    rw [Value.trimmed_str, Value.strip_trimmed]
    exact addressOfChars_mono (fun c hc => by simp_all) ha
  unfold normalizeWalletIdentity
  simp only [hwallet, Option.some_or]

/-- The fields of a payload that a versioned record was read from. -/
structure ReadFrom (h : Host) (payload : Dict) (f : CanonicalFields) : Prop where
  fromAddress :
    NativeTransfer.normalizeWalletAddress h.toRuntime (payload.get "from_address") =
      some f.fromAddress
  toAddress :
    NativeTransfer.normalizeWalletAddress h.toRuntime (payload.get "to_address") = some f.toAddress
  amount : parseNativeZoidAmount h (payload.get "amount") false = .ok f.amount
  fee : parseNativeZoidAmount h (payload.getD "fee" (.str "0")) true = .ok f.fee
  nonce : parseTransferNonce h (payload.get "nonce") = .ok f.nonce

theorem readFrom_of_readCanonicalFields {payload : Dict} {f : CanonicalFields}
    (hf : readCanonicalFields h payload = .ok f) : ReadFrom h payload f := by
  have hparts : ∀ {network : String} {parts : SignedParts},
      readSignedParts h payload network = .ok parts →
      NativeTransfer.normalizeWalletAddress h.toRuntime (payload.get "from_address") =
          some parts.fromAddress ∧
        NativeTransfer.normalizeWalletAddress h.toRuntime (payload.get "to_address") =
          some parts.toAddress := by
    intro network parts hp
    unfold readSignedParts at hp
    split at hp
    · cases hp
    next a ha =>
      split at hp
      · cases hp
      next b hb =>
        simp only [bind_eq_ok, require_eq_ok, pure_eq_ok] at hp
        obtain ⟨-, -, -, -, -, -, -, -, -, -, rfl⟩ := hp
        exact ⟨ha, hb⟩
  have hparsed : ∀ {network : String} {parts : SignedParts}
      {version : Option (Int × Int × String)} {hash : String},
      readSignedParts h payload network = .ok parts →
      readParsedFields h payload parts version hash = .ok f → ReadFrom h payload f := by
    intro network parts version hash hp hparsed
    obtain ⟨hfrom, hto⟩ := hparts hp
    simp only [readParsedFields, bind_eq_ok, pure_eq_ok] at hparsed
    obtain ⟨amount, ha, fee, hfe, nonce, hno, -, -, -, -, rfl⟩ := hparsed
    exact ⟨hfrom, hto, ha, hfe, hno⟩
  unfold readCanonicalFields at hf
  split at hf
  · simp only [canonicalTransactionFieldsLegacy, bind_eq_ok] at hf
    obtain ⟨_, _, _, _, parts, hp, hash, _, _, _, hf⟩ := hf
    exact hparsed hp hf
  · simp only [canonicalTransactionFieldsV1, bind_eq_ok] at hf
    obtain ⟨_, _, _, _, _, _, _, _, parts, hp, _, _, hash, _, hf⟩ := hf
    exact hparsed hp hf

/-! ## Amounts before and after `normalize` -/

/-- An accepted amount has a value of its own, and the value of its normalized text. They are
equal when the first has few digits, and zero together. -/
theorem decimal_of_parseNativeZoidAmount {v : Value} {allowZero : Bool} {s : String}
    (hs : parseNativeZoidAmount h v allowZero = .ok s) :
    ∃ n q, parseDecimal (v.text h.toRuntime) = some (.finite n) ∧ v.truthy = true ∧
      Decimal.ofString s = .ok (.finite q) ∧
      ((trim n.coeff n.exp).1 < 10 ^ contextPrecision → q = n.value) ∧
      (q = 0 → n.value = 0) := by
  have htruthy : v.truthy = true := by
    by_contra hfalse
    have htrimmed : v.trimmed h.toRuntime = "" := by
      rw [Value.trimmed, if_neg hfalse]
      rfl
    unfold parseNativeZoidAmount at hs
    split at hs
    · cases hs
    · simp [htrimmed] at hs
  unfold parseNativeZoidAmount at hs
  split at hs
  · cases hs
  · simp only [bind_eq_ok, require_eq_ok] at hs
    obtain ⟨-, -, -, -, -, -, hs⟩ := hs
    split at hs
    · cases hs
    · next n hread =>
      have hread : parseDecimal (v.text h.toRuntime) = some (.finite n) := by
        rwa [Value.trimmed, if_pos htruthy, parseDecimal_strip] at hread
      simp only [bind_eq_ok, require_eq_ok, pure_eq_ok] at hs
      obtain ⟨-, hneg, -, -, -, -, rfl⟩ := hs
      by_cases hc : n.coeff = 0
      · -- zero, with either sign, is written "0"
        have hvalue : n.value = 0 := by simp [Numeral.value, hc]
        have hnorm : n.normalize = ⟨n.neg, 0, 0⟩ := by
          obtain ⟨-, ht⟩ | ⟨c, k, hc', hk, -⟩ := trim_cases n.coeff n.exp
          · unfold Numeral.normalize
            rw [ht]
            rfl
          · rw [hk] at hc
            obtain rfl | hpow := Nat.mul_eq_zero.mp hc
            · exact absurd rfl hc'
            · exact absurd hpow (Nat.pow_pos (by decide)).ne'
        have hzero : (if stripFraction n.normalize.fixedText = [] ∨
            stripFraction n.normalize.fixedText = ['-', '0'] then "0"
            else String.ofList (stripFraction n.normalize.fixedText)) = "0" := by
          rw [hnorm]
          cases n.neg <;> decide
        rw [hzero]
        exact ⟨n, 0, hread, htruthy, by decide +kernel, fun _ => hvalue.symm, fun _ => hvalue⟩
      · have hfalse : n.neg = false := by simpa using fun hn => hneg ⟨hn, hc⟩
        obtain ⟨hnormal, hsign, hexp⟩ := normalize_isNormal n
        obtain ⟨hc', -⟩ := hexp hc
        have htext : n.normalize.fixedText = positional n.normalize.coeff n.normalize.exp := by
          rw [Numeral.fixedText, hsign, hfalse]
          rfl
        have hpositional : ¬(positional n.normalize.coeff n.normalize.exp = [] ∨
            positional n.normalize.coeff n.normalize.exp = ['-', '0']) := by
          obtain ⟨d, t, hdt, hd⟩ := positional_head n.normalize.coeff n.normalize.exp
          rw [hdt]
          rintro (hnil | hminus)
          · cases hnil
          · obtain ⟨rfl, -⟩ := List.cons.inj hminus
            exact absurd hd (by decide)
        rw [htext, stripFraction_positional hnormal, if_neg hpositional]
        refine ⟨n, _, hread, htruthy, ofString_positional _ _, fun hexact => ?_, fun hzero => ?_⟩
        · rw [← normalize_value hexact, Numeral.value, hsign, hfalse]
          simp
        · have hten : (10 : Rat) ^ n.normalize.exp ≠ 0 := zpow_ne_zero _ (by norm_num)
          obtain hzero | hzero := mul_eq_zero.mp hzero
          · exact absurd (Nat.cast_eq_zero.mp hzero) hc'
          · exact absurd hzero hten
    · cases hs

/-! ## The two readings of a native transaction -/

/-- How the views read a transaction that the replay accepts. -/
structure ReadsTransfer (h : Host) (tx : Dict) (f : Transfer) : Prop where
  sender : normalizeWalletIdentity h.toRuntime (tx.get "from_address") = some f.sender
  recipient : normalizeWalletIdentity h.toRuntime (tx.get "to_address") = some f.recipient
  amount : ExactAmount h tx →
    ((tx.get "amount").orElse (.str "0")).decimal h.toRuntime = .ok (.finite f.amount)
  fee : f.fee = 0 → ((tx.get "fee").orElse (.str "0")).decimal h.toRuntime = .ok (.finite 0)
  nonce : coerceNativeNonce h (tx.get "nonce") = .ok f.nonce

theorem get?_withEventTimes {tx : Dict} {key : String} (hcreated : key ≠ "created_at")
    (hupdated : key ≠ "updated_at") : (withEventTimes tx).get? key = tx.get? key := by
  unfold withEventTimes
  dsimp only
  split
  · rw [Dict.get?_setdefault, if_neg hupdated.symm, Dict.get?_setdefault, if_neg hcreated.symm]
  · rfl

theorem readsTransfer_of_validateIdentity {tx d : Dict} {f : Transfer}
    (hd : validateIdentity h networkName tx = .ok d) (hf : IsTransfer h d f) :
    ReadsTransfer h tx f := by
  obtain ⟨t, ht, ha, rfl⟩ := validateIdentity_eq_ok.mp hd
  have hvalid := validateIdentity_valid ht ha
  obtain ⟨f', hf', hid, hsender, hrecipient⟩ := hvalid.isTransfer
  obtain rfl := hf.unique hf'
  have hread := readFrom_of_readCanonicalFields (validateTransactionShape_eq_ok ht).1
  have hget : ∀ {key : String}, key ≠ "created_at" → key ≠ "updated_at" →
      (withEventTimes tx).get key = tx.get key := fun h₁ h₂ =>
    Dict.get_congr (get?_withEventTimes h₁ h₂)
  have hfee : (withEventTimes tx).getD "fee" (.str "0") = tx.getD "fee" (.str "0") := by
    unfold Dict.getD
    rw [get?_withEventTimes (by decide) (by decide)]
  obtain ⟨hfrom, hto, hamount, hfee', hnonce⟩ := hread
  rw [hget (by decide) (by decide)] at hfrom hto hamount hnonce
  rw [hfee] at hfee'
  obtain ⟨nf, qf, hreadf, htruthyf, hqf, -, hzerof⟩ := decimal_of_parseNativeZoidAmount hfee'
  obtain ⟨na, qa, hreada, htruthya, hqa, hexacta, -⟩ := decimal_of_parseNativeZoidAmount hamount
  refine ⟨?_, ?_, fun hexact => ?_, fun hzero => ?_, ?_⟩
  · rw [hsender]
    exact normalizeWalletIdentity_of_native hfrom
  · rw [hrecipient]
    exact normalizeWalletIdentity_of_native hto
  · rw [Value.orElse_of_truthy htruthya, Value.decimal, Decimal.ofString, hreada]
    obtain ⟨v, hv, hdec⟩ := hf.amount
    have hv' : t.toDict.get? "amount" = some (.str t.fields.amount) := rfl
    obtain rfl := Option.some.inj (hv.symm.trans hv')
    have hq : Decimal.finite qa = .finite f.amount := Except.ok.inj (hqa.symm.trans hdec)
    show Except.ok (Decimal.finite na.value) = _
    rw [← hexacta (hexact na hreada), hq]
  · have hzero' : qf = 0 := by
      obtain ⟨v, hv, hdec⟩ := hf.fee
      have hv' : t.toDict.get? "fee" = some (.str t.fields.fee) := rfl
      obtain rfl := Option.some.inj (hv.symm.trans hv')
      rw [hzero] at hdec
      exact Decimal.finite.inj (Except.ok.inj (hqf.symm.trans hdec))
    unfold Dict.getD at hreadf htruthyf
    rw [Dict.get_eq]
    cases hstated : tx.get? "fee" with
    | none =>
      have hzeroText : Decimal.ofString "0" = .ok (.finite 0) := by decide +kernel
      exact hzeroText
    | some v =>
      rw [hstated, Option.getD_some] at hreadf htruthyf
      rw [Option.getD_some, Value.orElse_of_truthy htruthyf, Value.decimal, Decimal.ofString,
        hreadf]
      show Except.ok (Decimal.finite nf.value) = _
      rw [hzerof hzero']
  · obtain ⟨v, hv, hint⟩ := hf.nonce
    have hv' : t.toDict.get? "nonce" = some (.str t.fields.nonce) := rfl
    obtain rfl := Option.some.inj (hv.symm.trans hv')
    rw [coerceNativeNonce, hvalid.fields.parsed.nonce, ok_bind] at hint
    rw [coerceNativeNonce, hnonce, ok_bind, hint]

/-! ## One block -/

theorem hashKey_eq_str {v : Value} {s : String} : v.hashKey = .ok (.str s) ↔ v = .str s := by
  cases v with
  | float f => cases f <;> simp [Value.hashKey]
  | _ => simp [Value.hashKey]

/-- A wallet is an address or a public key, and none of the system senders. -/
theorem not_systemSender {v : Value} {wallet : String}
    (hw : normalizeWalletIdentity h.toRuntime v = some wallet) :
    HashKey.str wallet ∉ systemSenders := by
  have hlength : wallet.toList.length = 42 ∨ wallet.toList.length = 66 := by
    unfold normalizeWalletIdentity at hw
    dsimp only at hw
    cases haddress : WalletSignatures.normalizeWalletAddress h.toRuntime
        (.str (v.trimmed h.toRuntime)) with
    | some a =>
      rw [haddress, Option.some_or, Option.some.injEq] at hw
      subst hw
      obtain ⟨hex, hlen, -, rfl⟩ := isWalletAddress_of_addressOfChars haddress
      left
      rw [String.toList_ofList, List.length_cons, List.length_cons, hlen]
    | none =>
      rw [haddress, Option.none_or] at hw
      split at hw
      · next hkey =>
        rw [Option.some.inj hw] at hkey
        simp only [isValidWalletPublicKey, Bool.and_eq_true, beq_iff_eq] at hkey
        exact .inr hkey.1
      · cases hw
  intro hmem
  simp only [systemSenders, List.mem_cons, reduceCtorEq, HashKey.str.injEq, List.not_mem_nil,
    or_false, false_or] at hmem
  obtain rfl | rfl | rfl := hmem <;> revert hlength <;> decide

variable {wallet : String}

/-- An ordinary transaction does to a wallet what it does in the replay. -/
theorem ordinaryEffect_of_applyTransaction {balances balances' : Mapping Decimal} {tx : Value}
    (hsystem : HashKey.str wallet ∉ systemSenders) (hne : wallet ≠ "")
    (hok : applyTransaction h balances tx = .ok balances') :
    ordinaryEffect h wallet (Mapping.getD balances (.str wallet) (.finite 0)) tx =
      .ok (Mapping.getD balances' (.str wallet) (.finite 0)) := by
  simp only [applyTransaction, transactionTotal, bind_eq_ok] at hok
  obtain ⟨d, hd, total, ⟨amount, hamount, tip, htip, htotal⟩, key, hkey, debited, hdebit,
    hcredit⟩ := hok
  unfold ordinaryEffect
  simp only [hd, hamount, htip, ok_bind]
  generalize walletOrRaw h (d.get "sender") = sender at hkey ⊢
  generalize walletOrRaw h (d.get "recipient") = recipient at hcredit ⊢
  -- the debit
  have hsender : updateIf (sender = .str wallet) (Mapping.getD balances (.str wallet) (.finite 0))
      (do (Mapping.getD balances (.str wallet) (.finite 0)).sub (← amount.add tip)) =
      .ok (Mapping.getD debited (.str wallet) (.finite 0)) := by
    unfold debitSender at hdebit
    unfold updateIf
    by_cases hs : sender = .str wallet
    · subst hs
      obtain rfl : HashKey.str wallet = key := Except.ok.inj hkey
      rw [if_neg hsystem] at hdebit
      obtain ⟨left, hleft, hdebit⟩ := bind_eq_ok.mp hdebit
      obtain rfl := Except.ok.inj hdebit
      rw [if_pos rfl, htotal, ok_bind, hleft, Mapping.getD_insert_self]
    · have hne : HashKey.str wallet ≠ key := by
        rintro rfl
        exact hs (hashKey_eq_str.mp hkey)
      rw [if_neg hs]
      split at hdebit
      · rw [Except.ok.inj hdebit]
      · obtain ⟨left, -, hdebit⟩ := bind_eq_ok.mp hdebit
        obtain rfl := Except.ok.inj hdebit
        rw [Mapping.getD_insert_of_ne hne]
  rw [hsender, ok_bind]
  -- the credit
  unfold creditRecipient at hcredit
  unfold updateIf
  by_cases hr : recipient = .str wallet
  · subst hr
    have htruthy : (Value.str wallet).truthy = true := by simpa [Value.truthy] using hne
    rw [if_pos htruthy] at hcredit
    obtain ⟨key, hkey, hcredit⟩ := bind_eq_ok.mp hcredit
    obtain rfl : HashKey.str wallet = key := Except.ok.inj hkey
    obtain ⟨right, hright, hcredit⟩ := bind_eq_ok.mp hcredit
    obtain rfl := Except.ok.inj hcredit
    rw [if_pos rfl, htotal, ok_bind, hright, Mapping.getD_insert_self]
  · rw [if_neg hr]
    split at hcredit
    · obtain ⟨key, hkey, hcredit⟩ := bind_eq_ok.mp hcredit
      obtain ⟨right, -, hcredit⟩ := bind_eq_ok.mp hcredit
      obtain rfl := Except.ok.inj hcredit
      rw [Mapping.getD_insert_of_ne]
      rintro rfl
      exact hr (hashKey_eq_str.mp hkey)
    · rw [Except.ok.inj hcredit]

/-- A native transaction that is replayed was read as a transfer. -/
theorem readsTransfer_of_applyNativeTransaction {s s' : ChainState} {v : Value}
    (hok : applyNativeTransaction h networkName s v = .ok s') :
    ∃ tx f, v = .dict tx ∧ ReadsTransfer h tx f ∧ f.sender ≠ f.recipient ∧ f.fee = 0 ∧
      f.nonce = Mapping.getD s.nextNonces (.str f.sender) nativeTransactionInitialNonce ∧
      ∃ b, applyTransfer s.balances f = .ok b ∧ s' = s.after f b := by
  cases v with
  | dict tx =>
    cases hd : validateIdentity h networkName tx with
    | error e =>
      simp [applyNativeTransaction, validateSignedNativeTransaction_dict, hd] at hok
    | ok d =>
      obtain ⟨f, hf⟩ := validateIdentity_isTransfer hd
      obtain ⟨-, hnonce, hfee, b, hb, rfl⟩ := (applyNativeTransaction_eq_ok hd hf).mp hok
      exact ⟨tx, f, rfl, readsTransfer_of_validateIdentity hd hf, hf.ne, hfee, hnonce, b, hb, rfl⟩
  | _ => simp [applyNativeTransaction, validateSignedNativeTransaction] at hok

/-- A transfer does to a wallet what it does in the replay. -/
theorem nativeEffect_of_applyTransfer {balances balances' : Mapping Decimal} {tx : Dict}
    {f : Transfer} (hread : ReadsTransfer h tx f) (hexact : ExactAmount h tx)
    (hne : f.sender ≠ f.recipient) (hfee : f.fee = 0)
    (hok : applyTransfer balances f = .ok balances') :
    nativeEffect h wallet (Mapping.getD balances (.str wallet) (.finite 0)) (.dict tx) =
      .ok (Mapping.getD balances' (.str wallet) (.finite 0)) := by
  simp only [applyTransfer, bind_eq_ok, pure_eq_ok] at hok
  obtain ⟨-, -, -, -, left, hleft, right, hright, rfl⟩ := hok
  have hkeys : HashKey.str f.recipient ≠ .str f.sender := fun h => hne (HashKey.str.inj h).symm
  rw [Mapping.getD_insert_of_ne hkeys] at hright
  unfold nativeEffect isParty updateIf
  simp only [Value.asDict, hread.amount hexact, hread.fee hfee, hread.sender, hread.recipient,
    ok_bind, Option.some.injEq, decide_eq_true_eq, Decimal.add_finite, add_zero]
  by_cases hs : f.sender = wallet
  · subst hs
    rw [if_pos rfl, hleft, ok_bind, if_neg hne.symm, Mapping.getD_insert_of_ne hkeys.symm,
      Mapping.getD_insert_self]
  · rw [if_neg hs, ok_bind]
    by_cases hr : f.recipient = wallet
    · subst hr
      rw [if_pos rfl, hright, Mapping.getD_insert_self]
    · have hs' : HashKey.str wallet ≠ .str f.sender := fun h => hs (HashKey.str.inj h).symm
      have hr' : HashKey.str wallet ≠ .str f.recipient := fun h => hr (HashKey.str.inj h).symm
      rw [if_neg hr, Mapping.getD_insert_of_ne hr', Mapping.getD_insert_of_ne hs']

/-! ## The dictionary of a block object -/

/-- Leaving the missing entries out changes no field. -/
theorem get_presentEntries {entries : Dict} {key : String} (hkeys : entries.keys.Nodup) :
    (presentEntries entries).get key = entries.get key := by
  induction entries with
  | nil => rfl
  | cons e entries ih =>
    obtain ⟨k, v⟩ := e
    obtain ⟨hk, hkeys⟩ : k ∉ Dict.keys entries ∧ (Dict.keys entries).Nodup :=
      List.nodup_cons.mp hkeys
    have ih := ih hkeys
    have hcons : presentEntries ((k, v) :: entries) =
        if v.isNone then presentEntries entries else (k, v) :: presentEntries entries := by
      unfold presentEntries
      rw [List.filter_cons]
      cases v.isNone <;> rfl
    by_cases hkk : k = key
    · subst hkk
      by_cases hnone : v.isNone = true
      · rw [hcons, if_pos hnone, ih, Dict.get_eq, Dict.get?_eq_none.mpr hk, Dict.get_eq,
          Dict.get?_cons, if_pos rfl, Value.isNone_iff.mp hnone]
        rfl
      · rw [hcons, if_neg hnone, Dict.get_eq, Dict.get_eq, Dict.get?_cons, Dict.get?_cons,
          if_pos rfl, if_pos rfl]
    · have htail : Dict.get ((k, v) :: entries) key = Dict.get entries key := by
        rw [Dict.get_eq, Dict.get?_cons, if_neg hkk, ← Dict.get_eq]
      rw [htail, ← ih, hcons]
      split
      · rfl
      · rw [Dict.get_eq, Dict.get?_cons, if_neg hkk, ← Dict.get_eq]

/-- The keys of `protocol_v1_metadata`. -/
def protocolV1MetadataKeys : List String :=
  ["block_version", "genesis_version", "protocol_version", "network_id", "media_hash",
    "total_supply", "initial_reward_pool", "media_bytes"]

/-- The keys of `certificate_metadata`. -/
def certificateMetadataKeys : List String :=
  ["submission_id", "certificate_id", "content_hash", "content_id", "content_type", "mime_type",
    "creator_wallet", "vote_hash", "approval_percentage", "decisive_vote_total",
    "minimum_votes_required", "approved_at", "originality_score", "reward_type",
    "reward_recipient", "reward_amount", "reward_source", "minted_at", "voter_rewards",
    "native_transactions", "transaction_ids", "transaction_count", "transactions_hash",
    "admission_certificate"]

theorem keys_protocolV1Metadata (b : Block) :
    b.protocolV1Metadata.keys.Sublist protocolV1MetadataKeys :=
  List.filter_sublist.map Prod.fst

theorem keys_certificateMetadata (b : Block) :
    b.certificateMetadata.keys.Sublist certificateMetadataKeys :=
  List.filter_sublist.map Prod.fst

/-- A field of the dictionary of a block comes from the certificate metadata or else from the
fields that every block has, when it is no version field. -/
theorem get?_toDict (b : Block) {key : String} (hkey : key ∉ protocolV1MetadataKeys) :
    b.toDict.get? key = (b.certificateMetadata.get? key).or (b.baseFields.get? key) := by
  have hv1 : b.protocolV1Metadata.keys.Nodup :=
    List.Nodup.sublist (keys_protocolV1Metadata b) (by decide)
  have hcert : b.certificateMetadata.keys.Nodup :=
    List.Nodup.sublist (keys_certificateMetadata b) (by decide)
  have hnone : b.protocolV1Metadata.get? key = none :=
    Dict.get?_eq_none.mpr fun hmem => hkey ((keys_protocolV1Metadata b).subset hmem)
  unfold Block.toDict
  rw [Dict.get?_update _ _ _ hcert, Dict.get?_update _ _ _ hv1, hnone, Option.none_or]

/-- The transactions of a block are those of its dictionary. -/
theorem transactions_toDict (block : ChainBlock) :
    blockTransactions block.toDict = block.transactions := by
  cases block with
  | object b =>
    have hnone : b.certificateMetadata.get? "transactions" = none :=
      Dict.get?_eq_none.mpr fun hmem =>
        absurd ((keys_certificateMetadata b).subset hmem) (by decide)
    have hget : b.toDict.get "transactions" =
        .list (b.transactions.map fun tx => .dict tx.toDict) := by
      rw [Dict.get_eq, get?_toDict b (by decide), hnone]
      rfl
    unfold blockTransactions ChainBlock.toDict ChainBlock.transactions
    dsimp only
    rw [hget]
    cases b.transactions <;> rfl
  | dict d listed =>
    unfold blockTransactions ChainBlock.toDict ChainBlock.transactions Dict.getD
    dsimp only
    rw [Dict.get_eq]
    cases hget : d.get? "transactions" with
    | none => rfl
    | some v =>
      obtain ⟨txs, rfl⟩ := listed v hget
      cases txs <;> rfl

theorem nativeTransactions_toDict (block : ChainBlock) :
    blockNativeTransactions block.toDict = block.nativeTransactions := by
  cases block with
  | object b =>
    have hbase : b.baseFields.get? "native_transactions" = none := rfl
    have hget : b.toDict.get "native_transactions" =
        listOrNone (b.nativeTransactions.map .dict) := by
      rw [Dict.get_eq, get?_toDict b (by decide), hbase, Option.or_none, ← Dict.get_eq]
      unfold Block.certificateMetadata
      refine (get_presentEntries ?_).trans rfl
      show certificateMetadataKeys.Nodup
      decide
    unfold blockNativeTransactions ChainBlock.toDict ChainBlock.nativeTransactions
    dsimp only
    rw [hget]
    cases b.nativeTransactions <;> rfl
  | dict d listed => rfl

/-! ## The whole chain -/

/-- The nonces of a wallet go from one next nonce to another without a gap. -/
structure Consumes (next next' : Int) (nonces : List Int) : Prop where
  le : next ≤ next'
  mem_iff : ∀ n, n ∈ nonces ↔ next ≤ n ∧ n < next'

theorem Consumes.nil (next : Int) : Consumes next next [] where
  le := le_rfl
  mem_iff n := by
    constructor
    · nofun
    · rintro ⟨hle, hlt⟩
      exact absurd hlt (not_lt.mpr hle)

theorem Consumes.append {a b c : Int} {xs ys : List Int} (hx : Consumes a b xs)
    (hy : Consumes b c ys) : Consumes a c (xs ++ ys) where
  le := hx.le.trans hy.le
  mem_iff n := by
    have hab := hx.le
    have hbc := hy.le
    rw [List.mem_append, hx.mem_iff, hy.mem_iff]
    omega

/-- The next nonce of a wallet in a replay. -/
def ChainState.nextNonce (s : ChainState) (wallet : String) : Int :=
  Mapping.getD s.nextNonces (.str wallet) nativeTransactionInitialNonce

/-- The balance of a wallet in a replay. -/
def ChainState.balance (s : ChainState) (wallet : String) : Decimal :=
  Mapping.getD s.balances (.str wallet) (.finite 0)

/-- The nonces of the transfers that a wallet sent. -/
def noncesOf (wallet : String) (fs : List Transfer) : List Int :=
  (fs.filter fun f => f.sender = wallet).map Transfer.nonce

/-- The native transactions of a chain are exact. -/
def ExactAmounts (h : Host) (chain : List ChainBlock) : Prop :=
  ∀ block ∈ chain, ∀ natives, block.nativeTransactions = .ok natives →
    ∀ tx, .dict tx ∈ natives → ExactAmount h tx

/-- Replayed native transactions are transfers, which use up the nonces of their senders. -/
theorem transfers_of_replay {natives : List Value} {s s' : ChainState}
    (hok : natives.foldlM (applyNativeTransaction h networkName) s = .ok s') :
    ∃ txs fs, natives = txs.map .dict ∧ List.Forall₂ (ReadsTransfer h) txs fs ∧
      ∀ wallet, Consumes (s.nextNonce wallet) (s'.nextNonce wallet) (noncesOf wallet fs) := by
  induction natives generalizing s with
  | nil =>
    obtain rfl := foldlM_nil_eq_ok.mp hok
    exact ⟨[], [], rfl, .nil, fun wallet => Consumes.nil _⟩
  | cons v natives ih =>
    obtain ⟨m, hm, hrest⟩ := foldlM_cons_eq_ok.mp hok
    obtain ⟨tx, f, rfl, hread, -, -, hnonce, b, -, rfl⟩ :=
      readsTransfer_of_applyNativeTransaction hm
    obtain ⟨txs, fs, rfl, hreads, hnonces⟩ := ih hrest
    refine ⟨tx :: txs, f :: fs, rfl, .cons hread hreads, fun wallet => ?_⟩
    have hfirst : Consumes (s.nextNonce wallet) ((s.after f b).nextNonce wallet)
        (noncesOf wallet [f]) := by
      unfold ChainState.nextNonce ChainState.after noncesOf
      by_cases hs : f.sender = wallet
      · subst hs
        rw [Mapping.getD_insert_self, ← hnonce]
        refine ⟨by omega, fun n => ?_⟩
        simp only [decide_true, List.filter_cons, if_true, List.filter_nil, List.map_cons,
          List.map_nil, List.mem_singleton]
        omega
      · have hkey : HashKey.str wallet ≠ .str f.sender := fun h => hs (HashKey.str.inj h).symm
        rw [Mapping.getD_insert_of_ne hkey]
        simp only [hs, decide_false, List.filter_cons, Bool.false_eq_true, if_false,
          List.filter_nil, List.map_nil]
        exact Consumes.nil _
    have happend : noncesOf wallet (f :: fs) = noncesOf wallet [f] ++ noncesOf wallet fs := by
      unfold noncesOf
      rw [← List.map_append, ← List.filter_append]
      rfl
    rw [happend]
    exact hfirst.append (hnonces wallet)

/-- The effects of replayed native transactions on a wallet. -/
theorem nativeEffects_of_replay {natives : List Value} {s s' : ChainState}
    (hexact : ∀ tx, .dict tx ∈ natives → ExactAmount h tx)
    (hok : natives.foldlM (applyNativeTransaction h networkName) s = .ok s') :
    natives.foldlM (nativeEffect h wallet) (s.balance wallet) = .ok (s'.balance wallet) := by
  induction natives generalizing s with
  | nil =>
    obtain rfl := foldlM_nil_eq_ok.mp hok
    rfl
  | cons v natives ih =>
    obtain ⟨m, hm, hrest⟩ := foldlM_cons_eq_ok.mp hok
    obtain ⟨tx, f, rfl, hread, hne, hfee, -, b, hb, rfl⟩ :=
      readsTransfer_of_applyNativeTransaction hm
    refine foldlM_cons_eq_ok.mpr ⟨_, ?_, ih (fun tx htx => hexact tx (by simp [htx])) hrest⟩
    exact nativeEffect_of_applyTransfer hread (hexact tx (by simp)) hne hfee hb

/-- The effects of replayed ordinary transactions on a wallet. -/
theorem ordinaryEffects_of_replay {txs : List Value} {balances balances' : Mapping Decimal}
    (hsystem : HashKey.str wallet ∉ systemSenders) (hne : wallet ≠ "")
    (hok : txs.foldlM (applyTransaction h) balances = .ok balances') :
    txs.foldlM (ordinaryEffect h wallet) (Mapping.getD balances (.str wallet) (.finite 0)) =
      .ok (Mapping.getD balances' (.str wallet) (.finite 0)) := by
  induction txs generalizing balances with
  | nil =>
    obtain rfl := foldlM_nil_eq_ok.mp hok
    rfl
  | cons tx txs ih =>
    obtain ⟨m, hm, hrest⟩ := foldlM_cons_eq_ok.mp hok
    exact foldlM_cons_eq_ok.mpr ⟨_, ordinaryEffect_of_applyTransaction hsystem hne hm, ih hrest⟩

/-- The effect of a replayed block on a wallet. -/
theorem blockEffect_of_applyBlock {block : ChainBlock} {s s' : ChainState}
    (hsystem : HashKey.str wallet ∉ systemSenders) (hne : wallet ≠ "")
    (hexact : ExactAmounts h [block])
    (hok : applyBlock h networkName s block.toDict = .ok s') :
    blockEffect h wallet (s.balance wallet) block = .ok (s'.balance wallet) := by
  unfold applyBlock at hok
  rw [transactions_toDict, nativeTransactions_toDict] at hok
  obtain ⟨rewarded, -, hok⟩ := bind_eq_ok.mp hok
  obtain ⟨txs, htxs, hok⟩ := bind_eq_ok.mp hok
  obtain ⟨balances, hbalances, hok⟩ := bind_eq_ok.mp hok
  obtain ⟨natives, hnatives, hok⟩ := bind_eq_ok.mp hok
  unfold blockEffect
  rw [htxs, ok_bind, ChainState.balance, ordinaryEffects_of_replay hsystem hne hbalances, ok_bind,
    hnatives, ok_bind]
  exact nativeEffects_of_replay (hexact block (by simp) natives hnatives) hok

/-- The transfers of a replayed block. -/
theorem transfers_of_applyBlock {block : ChainBlock} {s s' : ChainState}
    (hok : applyBlock h networkName s block.toDict = .ok s') :
    ∃ txs fs, block.nativeTransactions = .ok (txs.map .dict) ∧
      List.Forall₂ (ReadsTransfer h) txs fs ∧
      ∀ wallet, Consumes (s.nextNonce wallet) (s'.nextNonce wallet) (noncesOf wallet fs) := by
  unfold applyBlock at hok
  rw [nativeTransactions_toDict] at hok
  obtain ⟨rewarded, -, hok⟩ := bind_eq_ok.mp hok
  obtain ⟨txs, -, hok⟩ := bind_eq_ok.mp hok
  obtain ⟨balances, -, hok⟩ := bind_eq_ok.mp hok
  obtain ⟨natives, hnatives, hok⟩ := bind_eq_ok.mp hok
  obtain ⟨txs, fs, rfl, hreads, hnonces⟩ := transfers_of_replay hok
  exact ⟨txs, fs, hnatives, hreads, hnonces⟩

/-- The transfers of a replayed chain. -/
theorem transfers_of_chain {chain : List ChainBlock} {s s' : ChainState}
    (hok : (chainToDicts chain).foldlM (applyBlock h networkName) s = .ok s') :
    ∃ blocks txs fs, chain.mapM ChainBlock.nativeTransactions = .ok blocks ∧
      blocks.flatten = txs.map .dict ∧ List.Forall₂ (ReadsTransfer h) txs fs ∧
      ∀ wallet, Consumes (s.nextNonce wallet) (s'.nextNonce wallet) (noncesOf wallet fs) := by
  induction chain generalizing s with
  | nil =>
    obtain rfl := foldlM_nil_eq_ok.mp hok
    exact ⟨[], [], [], rfl, rfl, .nil, fun wallet => Consumes.nil _⟩
  | cons block chain ih =>
    obtain ⟨m, hm, hrest⟩ := foldlM_cons_eq_ok.mp hok
    obtain ⟨txs, fs, hnatives, hreads, hnonces⟩ := transfers_of_applyBlock hm
    obtain ⟨blocks, txs', fs', hblocks, hflatten, hreads', hnonces'⟩ := ih hrest
    refine ⟨txs.map .dict :: blocks, txs ++ txs', fs ++ fs', ?_, ?_, ?_, fun wallet => ?_⟩
    · rw [List.mapM_cons, hnatives, hblocks]
      rfl
    · rw [List.flatten_cons, hflatten, List.map_append]
    · exact List.rel_append hreads hreads'
    · have happend : noncesOf wallet (fs ++ fs') = noncesOf wallet fs ++ noncesOf wallet fs' := by
        unfold noncesOf
        rw [List.filter_append, List.map_append]
      rw [happend]
      exact (hnonces wallet).append (hnonces' wallet)

/-- The effects of a replayed chain on a wallet. -/
theorem blockEffects_of_chain {chain : List ChainBlock} {s s' : ChainState}
    (hsystem : HashKey.str wallet ∉ systemSenders) (hne : wallet ≠ "")
    (hexact : ExactAmounts h chain)
    (hok : (chainToDicts chain).foldlM (applyBlock h networkName) s = .ok s') :
    chain.foldlM (blockEffect h wallet) (s.balance wallet) = .ok (s'.balance wallet) := by
  induction chain generalizing s with
  | nil =>
    obtain rfl := foldlM_nil_eq_ok.mp hok
    rfl
  | cons block chain ih =>
    obtain ⟨m, hm, hrest⟩ := foldlM_cons_eq_ok.mp hok
    refine foldlM_cons_eq_ok.mpr ⟨_, ?_, ih (fun b hb => hexact b (by simp [hb])) hrest⟩
    refine blockEffect_of_applyBlock hsystem hne (fun b hb => hexact b ?_) hm
    obtain rfl := List.mem_singleton.mp hb
    exact List.mem_cons_self

/-- The nonces that admission takes as used are those of the transfers the wallet sent. -/
theorem getSettledUsedNonces_of_reads {chain : List ChainBlock} {blocks : List (List Value)}
    {txs : List Dict} {fs : List Transfer}
    (hblocks : chain.mapM ChainBlock.nativeTransactions = .ok blocks)
    (hflatten : blocks.flatten = txs.map .dict) (hreads : List.Forall₂ (ReadsTransfer h) txs fs) :
    getSettledUsedNonces h chain wallet =
      .ok ((noncesOf wallet fs).dedup.insertionSort (· ≤ ·)) := by
  have hsent : ∀ {txs fs}, List.Forall₂ (ReadsTransfer h) txs fs →
      ((txs.filter fun tx =>
          isParty h wallet tx "from_address" || isParty h wallet tx "to_address").filter
        fun tx => isParty h wallet tx "from_address").mapM (m := Py)
        (fun tx => coerceNativeNonce h (tx.get "nonce")) = .ok (noncesOf wallet fs) := by
    intro txs fs hreads
    rw [List.filter_filter]
    induction hreads with
    | nil => rfl
    | @cons tx f txs fs hread _ ih =>
      have hparty : isParty h wallet tx "from_address" = decide (f.sender = wallet) := by
        unfold isParty
        simp only [hread.sender, Option.some.injEq]
      unfold noncesOf at ih ⊢
      by_cases hs : f.sender = wallet
      · simp only [List.filter_cons, hparty, hs, decide_true, Bool.true_or, Bool.and_self, if_true,
          List.mapM_cons, hread.nonce, ok_bind, List.map_cons, ih]
        rfl
      · simpa only [List.filter_cons, hparty, hs, decide_false, Bool.false_and, Bool.false_eq_true,
          if_false] using ih
  unfold getSettledUsedNonces getSettledNativeTransactionRecordsForWallet
  have hdicts : (txs.map Value.dict).mapM Value.asDict = .ok txs :=
    mapM_map_of_forall fun tx _ => rfl
  rw [hblocks, ok_bind, hflatten, hdicts, ok_bind, ok_bind, hsent hreads]
  rfl

/-- The next settled nonce of admission is the next nonce of the replay. -/
theorem getNextSettledNonce_of_replay {chain : List ChainBlock} {s : ChainState}
    {walletAddress : Value}
    (hreplay : calculateBalancesFromChain h networkName (chainToDicts chain) = .ok s)
    (hwallet : normalizeWalletIdentity h.toRuntime walletAddress = some wallet) :
    getNextSettledNonce h chain walletAddress = .ok (s.nextNonce wallet) := by
  obtain ⟨blocks, txs, fs, hblocks, hflatten, hreads, hnonces⟩ := transfers_of_chain hreplay
  have hmem := (hnonces wallet).mem_iff
  unfold getNextSettledNonce
  rw [hwallet]
  dsimp only
  rw [getSettledUsedNonces_of_reads hblocks hflatten hreads, ok_bind]
  refine congrArg Except.ok (Scan.nextFree_eq (hnonces wallet).le (fun n hle hlt => ?_) ?_)
  · rw [List.mem_insertionSort, List.mem_dedup]
    exact (hmem n).mpr ⟨hle, hlt⟩
  · rw [List.mem_insertionSort, List.mem_dedup, hmem]
    rintro ⟨-, hlt⟩
    exact lt_irrefl _ hlt

/-- Admission and replay agree on every wallet of a chain that replays. -/
theorem balance_and_nonce_of_replay {chain : List ChainBlock} {s : ChainState}
    {walletAddress : Value} (hexact : ExactAmounts h chain)
    (hreplay : calculateBalancesFromChain h networkName (chainToDicts chain) = .ok s)
    (hwallet : normalizeWalletIdentity h.toRuntime walletAddress = some wallet) :
    getFinalNativeBalanceAmount h chain walletAddress = .ok (s.balance wallet) ∧
      getNextSettledNonce h chain walletAddress = .ok (s.nextNonce wallet) := by
  have hsystem := not_systemSender hwallet
  have hne : wallet ≠ "" := by
    rintro rfl
    exact hsystem (by simp [systemSenders])
  refine ⟨?_, getNextSettledNonce_of_replay hreplay hwallet⟩
  unfold getFinalNativeBalanceAmount
  rw [hwallet]
  exact blockEffects_of_chain hsystem hne hexact hreplay

/-! ## A sample chain -/

namespace SampleLedger

def sender : String := "0x1111111111111111111111111111111111111111"

def recipient : String := "0x2222222222222222222222222222222222222222"

/-- An allocation of 8 to the sender, who then pays 3 and a tip of 1. -/
def chain : List ChainBlock :=
  [.dict [("transactions", .list [.dict [("sender", .str "GENESIS"), ("recipient", .str sender),
      ("amount", .int 8), ("tip", .int 0)]])] (fun _ h => ⟨_, (Option.some.inj h).symm⟩),
    .dict [("transactions", .list [.dict [("sender", .str sender), ("recipient", .str recipient),
      ("amount", .int 3), ("tip", .int 1)]])] (fun _ h => ⟨_, (Option.some.inj h).symm⟩)]

theorem exactAmounts (h : Host) : ExactAmounts h chain := by
  intro block hblock natives hnatives tx htx
  simp only [chain, List.mem_cons, List.not_mem_nil, or_false] at hblock
  obtain rfl | rfl := hblock <;>
  · obtain rfl := Except.ok.inj hnatives
    cases htx

theorem replays : ∃ s, calculateBalancesFromChain (Host.sample none none) "zoidberg-testnet"
    (chainToDicts chain) = .ok s := by
  have hreplays : (calculateBalancesFromChain (Host.sample none none) "zoidberg-testnet"
      (chainToDicts chain)).isOk = true := by decide +kernel
  exact exists_of_isOk hreplays

theorem wallet_recipient :
    normalizeWalletIdentity (Host.sample none none).toRuntime (.str recipient) =
      some recipient := by
  decide +kernel

end SampleLedger

theorem balance_and_nonce_of_replay_sample :
    ∃ s, calculateBalancesFromChain (Host.sample none none) "zoidberg-testnet"
        (chainToDicts SampleLedger.chain) = .ok s ∧
      getFinalNativeBalanceAmount (Host.sample none none) SampleLedger.chain
        (.str SampleLedger.recipient) = .ok (s.balance SampleLedger.recipient) ∧
      getNextSettledNonce (Host.sample none none) SampleLedger.chain
        (.str SampleLedger.recipient) = .ok (s.nextNonce SampleLedger.recipient) := by
  obtain ⟨s, hs⟩ := SampleLedger.replays
  exact ⟨s, hs, balance_and_nonce_of_replay (SampleLedger.exactAmounts _) hs
    SampleLedger.wallet_recipient⟩

end ZoidbergChain
