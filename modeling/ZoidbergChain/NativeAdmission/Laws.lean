import ZoidbergChain.NativeAdmission.Model
import ZoidbergChain.NativeAdmission.Reservations

/-!
# What admission keeps

- `Reads`: the records of the ledger, as reservations.
- `admissible_of_validateAdmissionState`: the checks of the policy are those of a reservation.
- `kept_perform`, `kept_run`: a call, and a run of calls, keeps the order of the reservations.
- `reservations_of_run`: over a chain that replays, what is pending of a wallet follows its settled
  nonces without a gap and is covered by its final balance.
-/

namespace ZoidbergChain

open Python

variable {h : Host} {networkName : String}

/-! ## Records as reservations -/

/-- A dictionary carries the signed part of a valid record of a transfer. -/
def Carries (h : Host) (networkName : String) (d : Dict) (f : Transfer) : Prop :=
  ∃ t : NativeTransaction, t.Valid h networkName ∧ CarriesSigned d t.fields ∧
    d.get? "tx_id" = some (.str t.txId) ∧ IsTransfer h t.toDict f

/-- The transfer of a record depends on these keys. -/
theorem IsTransfer.congr {d e : Dict} {f : Transfer} (hf : IsTransfer h e f)
    (hd : ∀ k ∈ ["tx_id", "from_address", "to_address", "nonce", "amount", "fee"],
      d.get? k = e.get? k) : IsTransfer h d f := by
  have hid := hd "tx_id" (by simp)
  have hfrom := hd "from_address" (by simp)
  have hto := hd "to_address" (by simp)
  have hnonce := hd "nonce" (by simp)
  have hamount := hd "amount" (by simp)
  have hfee := hd "fee" (by simp)
  exact {
    txId := hid.trans hf.txId
    txId_hex := hf.txId_hex
    sender := hfrom.trans hf.sender
    sender_wallet := hf.sender_wallet
    recipient := hto.trans hf.recipient
    recipient_wallet := hf.recipient_wallet
    ne := hf.ne
    nonce := hnonce ▸ hf.nonce
    nonce_pos := hf.nonce_pos
    amount := hamount ▸ hf.amount
    amount_str := hamount ▸ hf.amount_str
    amount_pos := hf.amount_pos
    fee := hfee ▸ hf.fee
    fee_str := hfee ▸ hf.fee_str
    fee_nonneg := hf.fee_nonneg }

theorem Carries.isTransfer {d : Dict} {f : Transfer} (hd : Carries h networkName d f) :
    IsTransfer h d f := by
  obtain ⟨t, ht, hsigned, hid, hf⟩ := hd
  have hown := NativeTransaction.carriesSigned_toDict ht.fields
  have hsame : ∀ e ∈ t.fields.signedEntries, d.get? e.1 = t.toDict.get? e.1 := fun e he =>
    (hsigned e he).trans (hown e he).symm
  have hentry : ∀ {k v}, (k, v) ∈ t.fields.signedEntries → d.get? k = t.toDict.get? k :=
    fun hmem => hsame _ hmem
  refine hf.congr fun k hk => ?_
  simp only [List.mem_cons, List.not_mem_nil, or_false] at hk
  obtain rfl | rfl | rfl | rfl | rfl | rfl := hk
  · exact hid
  · exact hentry (v := .str t.fields.fromAddress) (by
      simp [CanonicalFields.signedEntries, CanonicalFields.toDict])
  · exact hentry (v := .str t.fields.toAddress) (by
      simp [CanonicalFields.signedEntries, CanonicalFields.toDict])
  · exact hentry (v := .str t.fields.nonce) (by
      simp [CanonicalFields.signedEntries, CanonicalFields.toDict])
  · exact hentry (v := .str t.fields.amount) (by
      simp [CanonicalFields.signedEntries, CanonicalFields.toDict])
  · exact hentry (v := .str t.fields.fee) (by
      simp [CanonicalFields.signedEntries, CanonicalFields.toDict])

theorem keys_signedEntries (f : CanonicalFields) :
    ∀ e ∈ f.signedEntries, e.1 ∈ immutableSignedTransactionFields := by
  intro e he
  have hkeys : f.signedEntries.map Prod.fst = ["transaction_type", "network", "from_address",
    "to_address", "amount", "fee", "nonce", "memo", "timestamp", "signature", "signature_scheme",
    "signed_message", "signed_message_hash", "transaction_version", "protocol_version",
    "network_id"] := rfl
  have hmem : e.1 ∈ f.signedEntries.map Prod.fst := List.mem_map_of_mem he
  rw [hkeys] at hmem
  revert hmem
  generalize e.1 = key
  revert key
  decide

/-- The signed part of a dictionary depends on its signed fields. -/
theorem Carries.congr {d e : Dict} {f : Transfer} (he : Carries h networkName e f)
    (hd : ∀ k ∈ immutableSignedTransactionFields, d.get? k = e.get? k) :
    Carries h networkName d f := by
  obtain ⟨t, ht, hsigned, hid, hf⟩ := he
  refine ⟨t, ht, fun entry hentry => ?_, ?_, hf⟩
  · rw [hd _ (keys_signedEntries _ entry hentry)]
    exact hsigned entry hentry
  · rw [hd _ (by decide)]
    exact hid

/-- The dictionary of a valid record carries its transfer. -/
theorem exists_carries {t : NativeTransaction} (ht : t.Valid h networkName) :
    ∃ f, Carries h networkName t.toDict f ∧ f.txId = t.txId := by
  obtain ⟨f, hf, hid, -⟩ := ht.isTransfer
  exact ⟨f, ⟨t, ht, NativeTransaction.carriesSigned_toDict ht.fields, rfl, hf⟩, hid⟩

/-- A validated dictionary that carries a transfer is a record of it. -/
theorem carries_of_validate {d : Dict} {f : Transfer} {t : NativeTransaction}
    (hd : Carries h networkName d f) (ht : validateTransactionShape h networkName d = .ok t) :
    Carries h networkName t.toDict f := by
  obtain ⟨t', ht', hsigned, hid, hf⟩ := hd
  obtain ⟨hfields, hnetwork, htxId, -⟩ := validateTransactionShape_eq_ok ht
  have hsame : t.fields = t'.fields :=
    Except.ok.inj (hfields.symm.trans (readCanonicalFields_stable ht'.fields hsigned))
  have hsameId : t.txId = t'.txId := by
    rw [hsame] at htxId
    exact Except.ok.inj (htxId.symm.trans ht'.txId)
  have hvalid : t.Valid h networkName := ⟨hsame ▸ ht'.fields, hnetwork, htxId⟩
  refine ⟨t, hvalid, NativeTransaction.carriesSigned_toDict hvalid.fields, rfl, hf.congr ?_⟩
  intro k hk
  simp only [List.mem_cons, List.not_mem_nil, or_false] at hk
  unfold NativeTransaction.toDict
  rw [hsame, hsameId]
  obtain rfl | rfl | rfl | rfl | rfl | rfl := hk <;> rfl

/-- A record of the ledger is a reservation. -/
structure Holds (h : Host) (networkName : String) (d : Dict) (e : Reservation) : Prop where
  carries : Carries h networkName d e.transfer
  status : ∃ s, d.get? "status" = some (.str s) ∧
    s ∈ if e.pending then nativeReservedStatuses else nativeFinalizedStatuses

/-- The records of the ledger, as reservations. -/
def Reads (h : Host) (networkName : String) (records : List Dict) (es : List Reservation) : Prop :=
  List.Forall₂ (Holds h networkName) records es

section Records

variable {d : Dict} {e : Reservation}

theorem lower_of_mem_statuses {s : String} (hs : s ∈ nativeNonceUnavailableStatuses) :
    loweredText h (.str s) = s := by
  refine lower_trimmed_word ?_
  revert hs s
  decide

theorem Holds.recordStatus_eq (hd : Holds h networkName d e) :
    recordStatus h d ∈ if e.pending then nativeReservedStatuses else nativeFinalizedStatuses := by
  obtain ⟨s, hs, hmem⟩ := hd.status
  have hword : s ∈ nativeNonceUnavailableStatuses := by
    unfold nativeNonceUnavailableStatuses
    split at hmem
    · exact List.mem_append_right _ hmem
    · exact List.mem_append_left _ hmem
  rw [recordStatus, Dict.get_eq, hs, Option.getD_some, lower_of_mem_statuses hword]
  exact hmem

theorem not_reserved_of_finalized : ∀ s ∈ nativeFinalizedStatuses, s ∉ nativeReservedStatuses := by
  decide

theorem Holds.reserved_iff (hd : Holds h networkName d e) :
    recordStatus h d ∈ nativeReservedStatuses ↔ e.pending = true := by
  have hmem := hd.recordStatus_eq
  split at hmem
  · next hpending => exact iff_of_true hmem hpending
  · next hpending => exact iff_of_false (not_reserved_of_finalized _ hmem) hpending

theorem Holds.finalized_iff (hd : Holds h networkName d e) :
    recordStatus h d ∈ nativeFinalizedStatuses ↔ e.pending = false := by
  have hmem := hd.recordStatus_eq
  split at hmem
  · next hpending =>
    refine iff_of_false (fun hfinal => not_reserved_of_finalized _ hfinal hmem) ?_
    rw [hpending]
    decide
  · next hpending => exact iff_of_true hmem (by simpa using hpending)

theorem Holds.unavailable (hd : Holds h networkName d e) :
    recordStatus h d ∈ nativeNonceUnavailableStatuses := by
  have hmem := hd.recordStatus_eq
  unfold nativeNonceUnavailableStatuses
  split at hmem
  · exact List.mem_append_right _ hmem
  · exact List.mem_append_left _ hmem

theorem recordTxId_of_carries {f : Transfer} (hd : Carries h networkName d f) :
    recordTxId h d = f.txId := by
  have hf := hd.isTransfer
  rw [recordTxId, Dict.get_eq, hf.txId, Option.getD_some]
  exact hf.txId_hex.lower_trimmed

/-- A wallet address matches itself only. -/
theorem walletIdentityMatches_wallet {address wallet : String} (ha : IsWalletAddress address) :
    walletIdentityMatches h (.str address) wallet = decide (address = wallet) := by
  have hstrip : strip address = address := ha.strip_eq
  unfold walletIdentityMatches
  rw [Value.trimmed_str, hstrip]
  dsimp only
  split_ifs with hsame hshape
  · simp [hsame]
  · simp [hsame]
  · rw [normalizeWalletIdentity_str ha]
    simp [hsame]

theorem senderMatches_of_carries {f : Transfer} {wallet : String}
    (hd : Carries h networkName d f) : senderMatches h d wallet = decide (f.sender = wallet) := by
  have hf := hd.isTransfer
  rw [senderMatches, Dict.get_eq, hf.sender, Option.getD_some]
  exact walletIdentityMatches_wallet hf.sender_wallet

theorem isParty_of_carries {f : Transfer} {wallet : String} (hd : Carries h networkName d f) :
    isParty h wallet d "from_address" = decide (f.sender = wallet) := by
  have hf := hd.isTransfer
  unfold isParty
  rw [Dict.get_eq, hf.sender, Option.getD_some, normalizeWalletIdentity_str hf.sender_wallet]
  simp

theorem nonce_of_carries {f : Transfer} (hd : Carries h networkName d f) :
    coerceNativeNonce h (d.get "nonce") = .ok f.nonce := by
  obtain ⟨v, hv, hnonce⟩ := hd.isTransfer.nonce
  rw [Dict.get_eq, hv, Option.getD_some]
  exact hnonce

theorem amountOf_of_carries {f : Transfer} (hd : Carries h networkName d f) :
    amountOf h d "amount" = .ok (.finite f.amount) ∧ amountOf h d "fee" = .ok (.finite f.fee) := by
  have hf := hd.isTransfer
  constructor
  · obtain ⟨s, hs, hne⟩ := hf.amount_str
    obtain ⟨v, hv, hamount⟩ := hf.amount
    obtain rfl := Option.some.inj (hs.symm.trans hv)
    rw [amountOf, Dict.get_eq, hs, Option.getD_some, Value.orElse_of_truthy (by simpa using hne)]
    exact hamount
  · obtain ⟨s, hs, hne⟩ := hf.fee_str
    obtain ⟨v, hv, hfee⟩ := hf.fee
    obtain rfl := Option.some.inj (hs.symm.trans hv)
    rw [amountOf, Dict.get_eq, hs, Option.getD_some, Value.orElse_of_truthy (by simpa using hne)]
    exact hfee

end Records

/-! ## The checks of the policy -/

variable {records : List Dict} {es : List Reservation} {tx : Dict} {f : Transfer}

theorem Reads.filter (hr : Reads h networkName records es) {p : Dict → Bool}
    {q : Reservation → Bool} (hpq : ∀ d e, Holds h networkName d e → p d = q e) :
    Reads h networkName (records.filter p) (es.filter q) := by
  unfold Reads at hr ⊢
  induction hr with
  | nil => exact .nil
  | @cons d e records es hd hrest ih =>
    rw [List.filter_cons, List.filter_cons, hpq d e hd]
    split
    · exact .cons hd ih
    · exact ih

/-- The reservations but those of one identifier. -/
def others (txId : String) (es : List Reservation) : List Reservation :=
  es.filter fun e => e.transfer.txId ≠ txId

/-- The records that make a nonce of a wallet unavailable are its reservations. -/
theorem reads_unavailable (hr : Reads h networkName records es) (wallet : String)
    (excludeTxId : Value) :
    Reads h networkName (unavailableRecords h records wallet excludeTxId)
      ((others (loweredText h excludeTxId) es).filter fun e => e.transfer.sender = wallet) := by
  unfold unavailableRecords others
  rw [List.filter_filter]
  refine hr.filter fun d e hd => ?_
  rw [senderMatches_of_carries hd.carries, recordTxId_of_carries hd.carries,
    decide_eq_true hd.unavailable, Bool.and_true]

/-- The search for a record with a nonce. -/
theorem findPy_nonce (hr : Reads h networkName records es) (nonce : Int) :
    ∃ found, findPy (fun item => do return (← coerceNativeNonce h (item.get "nonce")) == nonce)
        records = .ok found ∧
      (found = none → ∀ e ∈ es, e.transfer.nonce ≠ nonce) ∧
      ∀ d, found = some d → ∃ e ∈ es, Holds h networkName d e ∧ e.transfer.nonce = nonce := by
  unfold Reads at hr
  induction hr with
  | nil => exact ⟨none, rfl, fun _ => by simp, nofun⟩
  | @cons d e records es hd hrest ih =>
    obtain ⟨found, hfound, hnone, hsome⟩ := ih
    rw [findPy, nonce_of_carries hd.carries, ok_bind]
    by_cases hnonce : e.transfer.nonce = nonce
    · refine ⟨some d, by simp [hnonce], nofun, ?_⟩
      rintro _ ⟨⟩
      exact ⟨e, List.mem_cons_self, hd, hnonce⟩
    · refine ⟨found, ?_, fun hn => ?_, fun d' hd' => ?_⟩
      · have hfalse : (e.transfer.nonce == nonce) = false := by simpa using hnonce
        simp only [hfalse]
        exact hfound
      · exact List.forall_mem_cons.mpr ⟨hnonce, hnone hn⟩
      · obtain ⟨e', he', hrest'⟩ := hsome d' hd'
        exact ⟨e', List.mem_cons_of_mem _ he', hrest'⟩

theorem mapM_nonce (hr : Reads h networkName records es) :
    records.mapM (fun item => coerceNativeNonce h (item.get "nonce")) =
      .ok (es.map fun e => e.transfer.nonce) := by
  refine mapM_of_forall₂ ?_
  rw [List.forall₂_map_right_iff]
  exact hr.imp fun d e hd => nonce_of_carries hd.carries

theorem noncesOf_transfers (wallet : String) (es : List Reservation) :
    noncesOf wallet (es.map Reservation.transfer) =
      (es.filter fun e => e.transfer.sender = wallet).map fun e => e.transfer.nonce := by
  unfold noncesOf
  rw [List.filter_map, List.map_map]
  rfl

/-- An accepted nonce is the next one among the other reservations of its sender. -/
theorem nonce_of_validate (hr : Reads h networkName records es)
    (hd : Carries h networkName tx f) {excludeTxId : Value} {r : Option Dict}
    (hid : ∀ e ∈ others (loweredText h excludeTxId) es, e.transfer.txId ≠ f.txId)
    (hok : validateTransactionNonce h records tx excludeTxId = .ok r) :
    f.nonce ∉ noncesOf f.sender
        ((others (loweredText h excludeTxId) es).map Reservation.transfer) ∧
      ∀ n, nativeTransactionInitialNonce ≤ n → n < f.nonce → n ∈ noncesOf f.sender
        ((others (loweredText h excludeTxId) es).map Reservation.transfer) := by
  have hf := hd.isTransfer
  have hwallet : normalizeWalletIdentity h.toRuntime (tx.get "from_address") = some f.sender := by
    rw [Dict.get_eq, hf.sender, Option.getD_some]
    exact normalizeWalletIdentity_str hf.sender_wallet
  have hreads := reads_unavailable hr f.sender excludeTxId
  obtain ⟨found, hfound, hnone, hsome⟩ := findPy_nonce hreads f.nonce
  have htaken := mapM_nonce hreads
  rw [← noncesOf_transfers] at htaken
  unfold validateTransactionNonce at hok
  rw [hwallet] at hok
  simp only [orRaise, ok_bind, nonce_of_carries hd, hfound] at hok
  cases hcase : found with
  | some d =>
    -- the record of the nonce is another transaction's
    obtain ⟨e, he, hholds, -⟩ := hsome d hcase
    rw [hcase] at hok
    dsimp only at hok
    rw [if_neg] at hok
    · cases hok
    · rw [recordTxId_of_carries hholds.carries, recordTxId_of_carries hd]
      exact hid e (List.mem_filter.mp he).1
  | none =>
    rw [hcase] at hok
    simp only [htaken, ok_bind, bind_eq_ok, require_eq_ok] at hok
    obtain ⟨-, hfresh, -, hlow, -, hhigh, -⟩ := hok
    obtain ⟨-, hbelow, -⟩ := @Scan.nextFree_spec
      (noncesOf f.sender ((others (loweredText h excludeTxId) es).map Reservation.transfer))
      nativeTransactionInitialNonce
    have heq := le_antisymm (not_lt.mp hhigh) (not_lt.mp hlow)
    exact ⟨hfresh, fun n hn hlt => hbelow n hn (heq ▸ hlt)⟩

/-- The sum over the pending records of a wallet. -/
theorem foldlM_outgoing (hr : Reads h networkName records es) (wallet : String) (total : Rat) :
    records.foldlM (fun total tx => updateIf (isParty h wallet tx "from_address") total do
      total.add (← (← amountOf h tx "amount").add (← amountOf h tx "fee"))) (.finite total) =
      .ok (.finite (total + costOf wallet (es.map Reservation.transfer))) := by
  unfold Reads at hr
  induction hr generalizing total with
  | nil => simp [costOf, pure, Except.pure]
  | @cons d e records es hd hrest ih =>
    obtain ⟨hamount, hfee⟩ := amountOf_of_carries hd.carries
    have hcost : costOf wallet ((e :: es).map Reservation.transfer) =
        costOf wallet [e.transfer] + costOf wallet (es.map Reservation.transfer) :=
      costOf_append wallet [e.transfer] _
    have hstep : (updateIf (isParty h wallet d "from_address") (Decimal.finite total) do
        (Decimal.finite total).add (← (← amountOf h d "amount").add (← amountOf h d "fee"))) =
        .ok (.finite (total + costOf wallet [e.transfer])) := by
      unfold updateIf
      rw [isParty_of_carries hd.carries, hamount, hfee]
      simp only [ok_bind, Decimal.add_finite, decide_eq_true_eq]
      split
      · next hsender => rw [← hsender, costOf_self]
      · next hsender => rw [costOf_of_ne hsender, add_zero]
    rw [List.foldlM_cons, hstep, ok_bind, ih, hcost, add_assoc]

theorem lowered_blank {v : Value} (hv : v.trimmed h.toRuntime = "") : loweredText h v = "" := by
  rw [loweredText, hv]
  exact lower_eq_self (by simp)

/-- What a wallet has pending beside one transaction. -/
theorem outgoing_eq (hr : Reads h networkName records es) (wallet : String)
    (excludeTxId : Value) :
    getPendingOutgoingBalanceAmount h records wallet excludeTxId =
      .ok (.finite (costOf wallet (pendingOf (others (loweredText h excludeTxId) es)))) := by
  unfold getPendingOutgoingBalanceAmount getReservedNativeTransactionsForWallet
  have hreads : Reads h networkName
      (records.filter fun tx => decide (recordStatus h tx ∈ nativeReservedStatuses) &&
        decide (recordTxId h tx ∉ (if excludeTxId.trimmed h.toRuntime = "" then []
          else [loweredText h excludeTxId])) &&
        (senderMatches h tx wallet || walletIdentityMatches h (tx.get "to_address") wallet))
      (es.filter fun e => decide (e.pending = true) && decide (e.transfer.txId ∉
          (if excludeTxId.trimmed h.toRuntime = "" then [] else [loweredText h excludeTxId])) &&
        (decide (e.transfer.sender = wallet) || decide (e.transfer.recipient = wallet))) := by
    refine hr.filter fun d e hd => ?_
    have hrecipient : walletIdentityMatches h (d.get "to_address") wallet =
        decide (e.transfer.recipient = wallet) := by
      have hf := hd.carries.isTransfer
      rw [Dict.get_eq, hf.recipient, Option.getD_some]
      exact walletIdentityMatches_wallet hf.recipient_wallet
    rw [senderMatches_of_carries hd.carries, recordTxId_of_carries hd.carries, hrecipient,
      decide_eq_decide.mpr hd.reserved_iff]
  rw [foldlM_outgoing hreads wallet 0, zero_add]
  -- of the pending records, those that the wallet only receives cost it nothing
  have hsame : costOf wallet ((es.filter fun e => decide (e.pending = true) &&
        decide (e.transfer.txId ∉ (if excludeTxId.trimmed h.toRuntime = "" then []
          else [loweredText h excludeTxId])) &&
        (decide (e.transfer.sender = wallet) || decide (e.transfer.recipient = wallet))).map
          Reservation.transfer) =
      costOf wallet (pendingOf (others (loweredText h excludeTxId) es)) := by
    unfold costOf pendingOf others
    rw [List.filter_map, List.filter_map, List.filter_filter, List.filter_filter,
      List.filter_filter]
    refine congrArg (fun l : List Reservation => ((l.map Reservation.transfer).map
      fun f => f.amount + f.fee).sum) (List.filter_congr fun e he => ?_)
    have hkept : decide (e.transfer.txId ∉ (if excludeTxId.trimmed h.toRuntime = "" then []
        else [loweredText h excludeTxId])) =
        decide (e.transfer.txId ≠ loweredText h excludeTxId) := by
      refine decide_eq_decide.mpr ?_
      split
      · next hempty =>
        obtain ⟨d, -, hd⟩ := exists_left_of_forall₂ hr he
        rw [lowered_blank hempty]
        exact iff_of_true (by simp) hd.carries.isTransfer.txId_hex.ne_empty
      · exact not_congr List.mem_singleton
    rw [hkept]
    by_cases hsender : e.transfer.sender = wallet
    · simp [hsender, Bool.and_comm]
    · simp [hsender]
  rw [hsame]

/-- A balance that covers an amount after some expense covers both. -/
theorem lt_of_sub_lt {balance available : Decimal} {x y : Rat}
    (hsub : balance.sub (.finite x) = .ok available)
    (hlt : available.lt (.finite y) = .ok false) : balance.lt (.finite (x + y)) = .ok false := by
  cases balance with
  | finite q =>
    have havailable : Decimal.finite (q - x) = available := Except.ok.inj (by
      rw [← hsub, sub_eq_add_neg]
      rfl)
    subst havailable
    simp only [Decimal.lt, Except.ok.injEq, decide_eq_false_iff_not, not_lt] at hlt ⊢
    linarith
  | inf neg =>
    obtain rfl := Except.ok.inj hsub
    cases neg <;> exact hlt
  | nan signaling =>
    cases signaling with
    | true => cases hsub
    | false =>
      cases hsub
      cases hlt

/-- The texts of a carried transfer are amounts, which are read as they are. -/
theorem parse_of_carries (hd : Carries h networkName tx f) :
    (∃ s, parseNativeZoidAmount h ((tx.get "amount").orElse (.str "0")) false = .ok s ∧
        Decimal.ofString s = .ok (.finite f.amount)) ∧
      ∃ s, parseNativeZoidAmount h ((tx.get "fee").orElse (.str "0")) true = .ok s ∧
        Decimal.ofString s = .ok (.finite f.fee) := by
  have hf := hd.isTransfer
  obtain ⟨t, ht, hsigned, -, -⟩ := hd
  have hentry : ∀ {k v}, (k, v) ∈ t.fields.signedEntries → tx.get? k = some v :=
    fun hmem => hsigned _ hmem
  constructor
  · obtain ⟨c, hc, hpositive⟩ := ht.fields.parsed.amount
    have hget : tx.get? "amount" = some (.str t.fields.amount) := hentry (by
      simp [CanonicalFields.signedEntries, CanonicalFields.toDict])
    obtain ⟨v, hv, hvalue⟩ := hf.amount
    obtain rfl := Option.some.inj (hget.symm.trans hv)
    refine ⟨t.fields.amount, ?_, hvalue⟩
    rw [Dict.get_eq, hget, Option.getD_some, Value.orElse_of_truthy (by simpa using hc.ne_empty)]
    exact parseNativeZoidAmount_stable hc (.inr hpositive)
  · obtain ⟨c, hc⟩ := ht.fields.parsed.fee
    have hget : tx.get? "fee" = some (.str t.fields.fee) := hentry (by
      simp [CanonicalFields.signedEntries, CanonicalFields.toDict])
    obtain ⟨v, hv, hvalue⟩ := hf.fee
    obtain rfl := Option.some.inj (hget.symm.trans hv)
    refine ⟨t.fields.fee, ?_, hvalue⟩
    rw [Dict.get_eq, hget, Option.getD_some, Value.orElse_of_truthy (by simpa using hc.ne_empty)]
    exact parseNativeZoidAmount_stable hc (.inl rfl)

variable {chain : List ChainBlock}

/-- The final balance of a wallet address. -/
def finalBalance (h : Host) (chain : List ChainBlock) (wallet : String) : Py Decimal :=
  getFinalNativeBalanceAmount h chain (.str wallet)

/-- An accepted amount is covered next to what else is pending. -/
theorem covered_of_validate (hr : Reads h networkName records es)
    (hd : Carries h networkName tx f) {excludeTxId : Value} {r : Unit}
    (hok : validateTransactionBalanceSufficiency h chain records tx excludeTxId = .ok r) :
    ∃ balance, finalBalance h chain f.sender = .ok balance ∧
      balance.lt (.finite (costOf f.sender
        (pendingOf (others (loweredText h excludeTxId) es)) + (f.amount + f.fee))) = .ok false := by
  have hf := hd.isTransfer
  have hwallet : normalizeWalletIdentity h.toRuntime (tx.get "from_address") = some f.sender := by
    rw [Dict.get_eq, hf.sender, Option.getD_some]
    exact normalizeWalletIdentity_str hf.sender_wallet
  obtain ⟨⟨amount, hamount, hamountQ⟩, fee, hfee, hfeeQ⟩ := parse_of_carries hd
  unfold validateTransactionBalanceSufficiency at hok
  rw [hwallet] at hok
  simp only [orRaise, ok_bind, hamount, hfee, hamountQ, hfeeQ, outgoing_eq hr,
    Decimal.add_finite] at hok
  obtain ⟨zero, -, hok⟩ := bind_eq_ok.mp hok
  obtain ⟨-, -, hok⟩ := bind_eq_ok.mp hok
  obtain ⟨balance, hbalance, hok⟩ := bind_eq_ok.mp hok
  obtain ⟨available, havailable, hok⟩ := bind_eq_ok.mp hok
  obtain ⟨short, hshort, hok⟩ := bind_eq_ok.mp hok
  refine ⟨balance, hbalance, lt_of_sub_lt havailable ?_⟩
  cases short with
  | true =>
    obtain ⟨message, -, hok⟩ := bind_eq_ok.mp hok
    cases hok
  | false => exact hshort

/-- The checks of the policy make a transfer admissible beside the other reservations. -/
theorem admissible_of_validateAdmissionState (hr : Reads h networkName records es)
    (hd : Carries h networkName tx f) {excludeTxId : Value} {r : Dict}
    (hid : ∀ e ∈ others (loweredText h excludeTxId) es, e.transfer.txId ≠ f.txId)
    (hok : validateAdmissionState h chain records tx excludeTxId = .ok r) :
    r = tx ∧ Admissible (finalBalance h chain) (others (loweredText h excludeTxId) es) f := by
  unfold validateAdmissionState at hok
  obtain ⟨txId, -, hok⟩ := bind_eq_ok.mp hok
  obtain ⟨settled, -, hok⟩ := bind_eq_ok.mp hok
  obtain ⟨key, -, hok⟩ := bind_eq_ok.mp hok
  obtain ⟨-, -, hok⟩ := bind_eq_ok.mp hok
  obtain ⟨existing, hnonce, hok⟩ := bind_eq_ok.mp hok
  obtain ⟨⟨⟩, hcovered, hok⟩ := bind_eq_ok.mp hok
  rw [exceptValueError_eq_ok (by simp)] at hnonce hcovered
  obtain ⟨hfresh, hbelow⟩ := nonce_of_validate hr hd hid hnonce
  exact ⟨(pure_eq_ok.mp hok).symm, hfresh, hbelow, hd.isTransfer.nonce_pos,
    covered_of_validate hr hd hcovered⟩

/-! ## Records that are looked up and replaced -/

theorem getNativeTransaction_str {id : String} (hid : IsHex64 id) (records : List Dict) :
    getNativeTransaction records (.str id) =
      records.find? fun record => Value.pyEq (record.get "tx_id") (.str id) := by
  unfold getNativeTransaction
  dsimp only
  rw [hid.strip_eq, if_neg hid.ne_empty]

theorem tx_id_of_carries (hd : Carries h networkName tx f) : tx.get "tx_id" = .str f.txId := by
  rw [Dict.get_eq, hd.isTransfer.txId]
  rfl

/-- An identifier that is not found is no reservation's. -/
theorem others_of_not_found (hr : Reads h networkName records es) {id : String} (hid : IsHex64 id)
    (hnone : getNativeTransaction records (.str id) = none) : others id es = es := by
  refine List.filter_eq_self.mpr fun e he => decide_eq_true fun hsame => ?_
  obtain ⟨d, hmem, hd⟩ := exists_left_of_forall₂ hr he
  rw [getNativeTransaction_str hid, List.find?_eq_none] at hnone
  refine hnone d hmem (Value.pyEq_str.mpr ?_)
  rw [tx_id_of_carries hd.carries, hsame]

theorem lowered_hex {id : String} (hid : IsHex64 id) : loweredText h (.str id) = id :=
  hid.lower_trimmed

theorem others_append_self (hes : others f.txId es = es) :
    others f.txId (es ++ [⟨f, true⟩]) = es := by
  unfold others at hes ⊢
  rw [List.filter_append, hes]
  simp

theorem txId_of_found {id : String} (hid : IsHex64 id) {d : Dict}
    (hfound : getNativeTransaction records (.str id) = some d) :
    d ∈ records ∧ d.get "tx_id" = .str id := by
  rw [getNativeTransaction_str hid] at hfound
  have hsame := List.find?_some hfound
  exact ⟨List.mem_of_find?_eq_some hfound, Value.pyEq_str.mp hsame⟩

theorem get?_of_found (hr : Reads h networkName records es) {id : String} (hid : IsHex64 id)
    {d : Dict} (hfound : getNativeTransaction records (.str id) = some d) :
    d.get? "tx_id" = some (.str id) := by
  obtain ⟨hmem, htxId⟩ := txId_of_found hid hfound
  obtain ⟨e, -, hd⟩ := exists_right_of_forall₂ hr hmem
  have hown := hd.carries.isTransfer.txId
  rw [Dict.get_eq, hown, Option.getD_some] at htxId
  rw [hown, htxId]

/-- A new record is found when no other has its identifier. -/
theorem getNativeTransaction_append {id : String} (hid : IsHex64 id) {d : Dict}
    (hnone : getNativeTransaction records (.str id) = none) (hd : d.get "tx_id" = .str id) :
    getNativeTransaction (records ++ [d]) (.str id) = some d := by
  rw [getNativeTransaction_str hid] at hnone ⊢
  have hsame : Value.pyEq (d.get "tx_id") (.str id) = true := Value.pyEq_str.mpr hd
  rw [List.find?_append, hnone, Option.none_or, List.find?_cons, hsame]

/-- Replacing the record that is found keeps a relation that the new record inherits. -/
theorem forall₂_replaceFirst {α β : Type} {R : α → β → Prop} {p q : α → Bool} {x y : α}
    {xs xs' : List α} {ys : List β} (hr : List.Forall₂ R xs ys) (hpq : ∀ x ∈ xs, p x = q x)
    (hfind : xs.find? q = some x) (hy : ∀ b, R x b → R y b)
    (hok : replaceFirst p y xs = some xs') : List.Forall₂ R xs' ys := by
  induction hr generalizing xs' with
  | nil => cases hfind
  | @cons a b xs ys hab hrest ih =>
    obtain ⟨ha, hxs⟩ := List.forall_mem_cons.mp hpq
    rw [replaceFirst, ha] at hok
    cases hq : q a with
    | true =>
      rw [List.find?_cons_of_pos hq] at hfind
      obtain rfl := Option.some.inj hfind
      rw [hq] at hok
      obtain rfl := Option.some.inj hok
      exact .cons (hy b hab) hrest
    | false =>
      rw [List.find?_cons_of_neg (by simp [hq])] at hfind
      rw [hq] at hok
      obtain ⟨xs'', hxs'', rfl⟩ := Option.map_eq_some_iff.mp hok
      exact .cons hab (ih hxs hfind hxs'')

/-- The fields that a change of status writes. -/
theorem get?_set_lifecycle {d : Dict} {k k' : String} {v : Value}
    (hk : k ∈ immutableSignedTransactionFields) (hk' : k' ∉ immutableSignedTransactionFields) :
    (d.set k' v).get? k = d.get? k :=
  Dict.get?_set_of_ne fun hsame => hk' (hsame ▸ hk)

theorem Carries.set (hd : Carries h networkName tx f) {k : String} (v : Value)
    (hk : k ∉ immutableSignedTransactionFields) : Carries h networkName (tx.set k v) f :=
  hd.congr fun _ hk' => get?_set_lifecycle hk' hk

/-- A pending record that moves to the mempool stays the same reservation. -/
theorem reads_update {s s' : NativeLedgerState} {id at' nowIso : String} {stored : Dict}
    (hr : Reads h networkName s.nativeTransactions es) (hid : IsHex64 id)
    (hpending : ∀ d, getNativeTransaction s.nativeTransactions (.str id) = some d →
      recordStatus h d ∉ nativeFinalizedStatuses)
    (hok : updateNativeTransactionStatus h networkName s (.str id) "mempool" none (some at')
      nowIso = .ok (stored, s')) : Reads h networkName s'.nativeTransactions es := by
  have hmempool : h.lower (strip "mempool") = "mempool" := by
    rw [← Value.trimmed_str h.toRuntime "mempool"]
    exact lower_of_mem_statuses (by decide)
  have hkeep : "mempool" ∉ ["rejected", "expired"] := by decide
  have hraise : "mempool" ∉ ["rejected", "failed", "expired"] := by decide
  unfold updateNativeTransactionStatus at hok
  simp only [hmempool, if_neg hkeep, if_neg hraise] at hok
  obtain ⟨d, hfound, hok⟩ := bind_eq_ok.mp hok
  obtain ⟨-, -, hok⟩ := bind_eq_ok.mp hok
  obtain ⟨stored', hstored, hok⟩ := bind_eq_ok.mp hok
  obtain ⟨records, hrecords, hok⟩ := bind_eq_ok.mp hok
  obtain ⟨key, -, hok⟩ := bind_eq_ok.mp hok
  obtain ⟨rfl, rfl⟩ := Prod.mk.inj (pure_eq_ok.mp hok)
  unfold replaceNativeTransaction at hrecords
  rw [orRaise_eq_ok] at hfound hrecords
  rw [exceptValueError_eq_ok (by simp)] at hstored
  obtain ⟨t, ht, hstored⟩ := bind_eq_ok.mp hstored
  obtain rfl := pure_eq_ok.mp hstored
  obtain ⟨hmem, htxId⟩ := txId_of_found hid hfound
  have hnot := hpending d hfound
  have hholds : ∀ e, Holds h networkName d e → Holds h networkName t.toDict e := by
    intro e hd
    have hcarries := carries_of_validate ((((hd.carries.set (.str "mempool") (by decide)).set
      (.str nowIso) (by decide)).set (.str at') (by decide)).set .null (by decide)) ht
    refine ⟨hcarries, t.status, rfl, ?_⟩
    have hstatus := (validateTransactionShape_eq_ok ht).2.2.2.status
    have hget : ((((d.set "status" (.str "mempool")).set "updated_at" (.str nowIso)).set
        "admitted_at" (.str at')).set "rejection_reason" .null).get "status" = .str "mempool" := by
      rw [Dict.get_set_of_ne (by decide), Dict.get_set_of_ne (by decide),
        Dict.get_set_of_ne (by decide), Dict.get_eq, Dict.get?_set, if_pos rfl]
      rfl
    have hword : normalizeTransactionStatus h (.str "mempool") = .ok "mempool" :=
      normalizeTransactionStatus_of_mem (by decide)
    rw [hget, hword] at hstatus
    rw [← Except.ok.inj hstatus]
    have hyes : e.pending = true := by
      by_contra hno
      exact hnot (hd.finalized_iff.mpr (by simpa using hno))
    rw [if_pos hyes]
    decide
  obtain ⟨e, -, hd⟩ := exists_right_of_forall₂ hr hmem
  have hsame : recordTxId h t.toDict = id := by
    rw [recordTxId_of_carries (hholds e hd).carries]
    have := tx_id_of_carries hd.carries
    rw [htxId] at this
    exact (Value.str.inj this).symm
  refine forall₂_replaceFirst hr (fun x hx => ?_)
    ((getNativeTransaction_str hid _).symm.trans hfound) hholds hrecords
  obtain ⟨e', -, hx'⟩ := exists_right_of_forall₂ hr hx
  rw [hsame, recordTxId_of_carries hx'.carries, tx_id_of_carries hx'.carries]
  by_cases hsame' : e'.transfer.txId = id
  · rw [hsame']
    simp [Value.pyEq]
  · simp [Value.pyEq, hsame']

/-! ## Calls -/

/-- A new record with the lifecycle of a pending one is a reservation. -/
theorem holds_pending {t : NativeTransaction} {nowIso : String}
    (hd : Carries h networkName t.toDict f) :
    Holds h networkName (t.toDict.update (pendingLifecycle "signed_pending" nowIso)) ⟨f, true⟩ := by
  have hkeys : (pendingLifecycle "signed_pending" nowIso).keys.Nodup := by
    show ["status", "created_at", "updated_at", "admitted_at", "included_block_hash",
      "included_block_height", "settled_at", "rejection_reason"].Nodup
    decide
  constructor
  · refine hd.congr fun k hk => ?_
    rw [Dict.get?_update _ _ _ hkeys]
    have hnone : Dict.get? (pendingLifecycle "signed_pending" nowIso) k = none := by
      refine Dict.get?_eq_none.mpr fun hmem => ?_
      have hlist : k ∈ ["status", "created_at", "updated_at", "admitted_at", "included_block_hash",
        "included_block_height", "settled_at", "rejection_reason"] := hmem
      revert hk hlist
      clear hd hmem
      revert k
      decide
    rw [hnone]
    rfl
  · have hmem : "signed_pending" ∈ nativeReservedStatuses := by decide
    refine ⟨"signed_pending", ?_, hmem⟩
    rw [Dict.get?_update _ _ _ hkeys]
    rfl

/-- The move to the mempool keeps the reservations, and has checked the record once more. -/
theorem reads_promote {s s' : NativeLedgerState} {current current' : Dict} {nowIso : String}
    (hr : Reads h networkName s.nativeTransactions es) (hid : IsHex64 f.txId)
    (htxId : current.get? "tx_id" = some (.str f.txId))
    (hfound : getNativeTransaction s.nativeTransactions (.str f.txId) = some current)
    (hpending : recordStatus h current ∉ nativeFinalizedStatuses)
    (hok : promoteToMempool h chain networkName s current nowIso = .ok (current', s')) :
    Reads h networkName s'.nativeTransactions es ∧
      ∃ r, validateAdmissionState h chain s.nativeTransactions current (.str f.txId) = .ok r := by
  have hindex : current.index "tx_id" = .ok (.str f.txId) := by rw [Dict.index, htxId]
  unfold promoteToMempool at hok
  rw [hindex, ok_bind] at hok
  obtain ⟨r, hstate, hok⟩ := bind_eq_ok.mp hok
  refine ⟨reads_update hr hid (fun d hd => ?_) hok, r, hstate⟩
  obtain rfl := Option.some.inj (hfound.symm.trans hd)
  exact hpending

variable {next : String → Int}

/-- What a call keeps: some list of reservations in order is what the ledger holds. -/
def Kept (h : Host) (networkName : String) (chain : List ChainBlock) (next : String → Int)
    (s : NativeLedgerState) : Prop :=
  ∃ es, Reads h networkName s.nativeTransactions es ∧ Book (finalBalance h chain) next es

/-- A new record at the end of the ledger. -/
theorem reads_append {d : Dict} (hr : Reads h networkName records es)
    (hd : Holds h networkName d ⟨f, true⟩) :
    Reads h networkName (records ++ [d]) (es ++ [⟨f, true⟩]) :=
  List.rel_append hr (.cons hd .nil)

theorem validateIdentity_carries {d : Dict} (hd : validateIdentity h networkName tx = .ok d) :
    ∃ t : NativeTransaction, d = t.toDict ∧ t.Valid h networkName := by
  obtain ⟨t, ht, ha, rfl⟩ := validateIdentity_eq_ok.mp hd
  exact ⟨t, rfl, validateIdentity_valid ht ha⟩

theorem kept_admitSignedTransfer {s s' : NativeLedgerState} {t : SignedTransfer}
    {admitToMempool : Bool} {transferId nowIso : String} {r : SignedAdmission}
    (hk : Kept h networkName chain next s)
    (hok : admitSignedTransfer h chain networkName s t admitToMempool transferId nowIso =
      .ok (r, s')) : Kept h networkName chain next s' := by
  obtain ⟨es, hr, hb⟩ := hk
  unfold admitSignedTransfer at hok
  obtain ⟨transaction, -, hok⟩ := bind_eq_ok.mp hok
  obtain ⟨validated, hvalidated, hok⟩ := bind_eq_ok.mp hok
  obtain ⟨⟨recorded, m⟩, hrecorded, hrest⟩ := bind_eq_ok.mp hok
  obtain ⟨v, rfl, hv⟩ := validateIdentity_carries hvalidated
  obtain ⟨f, hcarries, hfid⟩ := exists_carries hv
  have hhex : IsHex64 f.txId := hcarries.isTransfer.txId_hex
  have hindex : v.toDict.index "tx_id" = .ok (.str f.txId) := by
    rw [Dict.index, hcarries.isTransfer.txId]
  -- the record of the transfer, found or new
  have hstep : ∃ es', Reads h networkName m.nativeTransactions es' ∧
      Book (finalBalance h chain) next es' ∧
      getNativeTransaction m.nativeTransactions (.str f.txId) = some recorded.transaction ∧
      recordStatus h recorded.transaction ∉ nativeFinalizedStatuses := by
    unfold recordSignedTransfer at hrecorded
    rw [hindex, ok_bind] at hrecorded
    cases hfound : getNativeTransaction s.nativeTransactions (.str f.txId) with
    | some existing =>
      rw [hfound] at hrecorded
      obtain ⟨-, -, hrecorded⟩ := bind_eq_ok.mp hrecorded
      obtain ⟨_, hpending, hrecorded⟩ := bind_eq_ok.mp hrecorded
      obtain ⟨key, -, hrecorded⟩ := bind_eq_ok.mp hrecorded
      obtain ⟨intent, -, hrecorded⟩ := bind_eq_ok.mp hrecorded
      obtain ⟨rfl, rfl⟩ := Prod.mk.inj (pure_eq_ok.mp hrecorded)
      exact ⟨es, hr, hb, hfound, require_eq_ok.mp hpending⟩
    | none =>
      rw [hfound] at hrecorded
      obtain ⟨validated', hstate, hrecorded⟩ := bind_eq_ok.mp hrecorded
      obtain ⟨rfl, rfl⟩ := Prod.mk.inj (pure_eq_ok.mp hrecorded)
      have hothers : others f.txId es = es := others_of_not_found hr hhex hfound
      have hall : others (loweredText h .null) es = es := by
        refine List.filter_eq_self.mpr fun e he => decide_eq_true ?_
        obtain ⟨d, -, hd⟩ := exists_left_of_forall₂ hr he
        rw [lowered_blank (v := .null) rfl]
        exact hd.carries.isTransfer.txId_hex.ne_empty
      have hfresh : ∀ e ∈ others (loweredText h .null) es, e.transfer.txId ≠ f.txId := by
        rw [hall, ← hothers]
        exact fun e he => of_decide_eq_true (List.mem_filter.mp he).2
      obtain ⟨rfl, hadmissible⟩ := admissible_of_validateAdmissionState hr hcarries hfresh hstate
      rw [hall] at hadmissible
      have hholds := @holds_pending h networkName f _ nowIso hcarries
      refine ⟨es ++ [⟨f, true⟩], reads_append hr hholds, hb.admit hadmissible,
        getNativeTransaction_append hhex hfound (tx_id_of_carries hholds.carries), ?_⟩
      exact fun hfinal => Bool.noConfusion (hholds.finalized_iff.mp hfinal)
  obtain ⟨es', hr', hb', hfound, hpending⟩ := hstep
  dsimp only at hrest
  split at hrest
  · obtain ⟨rfl, rfl⟩ := Prod.mk.inj (pure_eq_ok.mp hrest)
    exact ⟨es', hr', hb'⟩
  split at hrest
  · obtain ⟨rfl, rfl⟩ := Prod.mk.inj (pure_eq_ok.mp hrest)
    exact ⟨es', hr', hb'⟩
  obtain ⟨⟨current, m'⟩, hpromote, hrest⟩ := bind_eq_ok.mp hrest
  obtain ⟨key, -, hrest⟩ := bind_eq_ok.mp hrest
  obtain ⟨rfl, rfl⟩ := Prod.mk.inj (pure_eq_ok.mp hrest)
  exact ⟨es', (reads_promote hr' hhex (get?_of_found hr' hhex hfound) hfound hpending
    hpromote).1, hb'⟩

/-- A recorded transaction is the known one, or a new pending one. -/
theorem recordNativeTransaction_eq_ok {payload stored : Dict} {duplicate : Bool}
    {records' : List Dict} {nowIso : String} (hr : Reads h networkName records es)
    (hok : recordNativeTransaction h networkName records payload "signed_pending" nowIso =
      .ok (stored, duplicate, records')) :
    ∃ f, IsHex64 f.txId ∧ getNativeTransaction records' (.str f.txId) = some stored ∧
      (records' = records ∨
        getNativeTransaction records (.str f.txId) = none ∧
          Reads h networkName records' (es ++ [⟨f, true⟩]) ∧
          Holds h networkName stored ⟨f, true⟩) := by
  have hword : h.lower (strip "signed_pending") = "signed_pending" := by
    rw [← Value.trimmed_str h.toRuntime "signed_pending"]
    exact lower_of_mem_statuses (by decide)
  unfold recordNativeTransaction at hok
  simp only [hword] at hok
  obtain ⟨identity, hidentity, hok⟩ := bind_eq_ok.mp hok
  obtain ⟨validated, hvalidated, hrest⟩ := bind_eq_ok.mp hok
  obtain ⟨v, rfl, hv⟩ := validateIdentity_carries hidentity
  obtain ⟨f, hcarries, -⟩ := exists_carries hv
  -- the second shape check reads the validated fields back
  have hcandidate : Carries h networkName
      (((payload.setdefault "created_at" (.str nowIso)).setdefault "updated_at"
        (.str nowIso)).update v.toDict) f := by
    refine hcarries.congr fun k hk => ?_
    refine Dict.get_update_of_mem (NativeTransaction.nodup_keys_toDict hv.fields) ?_
    rw [NativeTransaction.keys_toDict hv.fields]
    revert k
    decide
  have hcarries' := carries_of_validate hcandidate hvalidated
  have hhex : IsHex64 f.txId := hcarries'.isTransfer.txId_hex
  have hsame : validated.txId = f.txId := by
    have hid := hcarries'.isTransfer.txId
    have hown : validated.toDict.get? "tx_id" = some (.str validated.txId) := rfl
    exact Value.str.inj (Option.some.inj (hown.symm.trans hid))
  rw [hsame] at hrest
  refine ⟨f, hhex, ?_⟩
  cases hfound : getNativeTransaction records (.str f.txId) with
  | some existing =>
    rw [hfound] at hrest
    obtain ⟨-, -, hrest⟩ := bind_eq_ok.mp hrest
    obtain ⟨rfl, hpair⟩ := Prod.mk.inj (pure_eq_ok.mp hrest)
    obtain ⟨-, rfl⟩ := Prod.mk.inj hpair
    exact ⟨hfound, .inl rfl⟩
  | none =>
    rw [hfound] at hrest
    obtain ⟨-, -, hrest⟩ := bind_eq_ok.mp hrest
    obtain ⟨rfl, hpair⟩ := Prod.mk.inj (pure_eq_ok.mp hrest)
    obtain ⟨-, rfl⟩ := Prod.mk.inj hpair
    have hholds := @holds_pending h networkName f _ nowIso hcarries'
    exact ⟨getNativeTransaction_append hhex hfound (tx_id_of_carries hholds.carries),
      .inr ⟨rfl, reads_append hr hholds, hholds⟩⟩

theorem kept_admitReceivedNativeTransaction {s s' : NativeLedgerState} {payload : Dict}
    {transferId nowIso : String} {r : ReceivedAdmission} (hk : Kept h networkName chain next s)
    (hok : admitReceivedNativeTransaction h chain networkName s payload transferId nowIso =
      .ok (r, s')) : Kept h networkName chain next s' := by
  obtain ⟨es, hr, hb⟩ := hk
  unfold admitReceivedNativeTransaction at hok
  obtain ⟨⟨stored, duplicate, records⟩, hrecorded, hrest⟩ := bind_eq_ok.mp hok
  obtain ⟨f, hhex, hfound, hcases⟩ := recordNativeTransaction_eq_ok hr hrecorded
  dsimp only at hrest
  split at hrest
  · next hfinal =>
    obtain ⟨-, rfl⟩ := Prod.mk.inj (pure_eq_ok.mp hrest)
    obtain rfl | ⟨-, -, hholds⟩ := hcases
    · exact ⟨es, hr, hb⟩
    · exact Bool.noConfusion (hholds.finalized_iff.mp hfinal)
  · next hpending =>
    obtain ⟨⟨updated, m⟩, hpromote, hrest'⟩ := bind_eq_ok.mp hrest
    obtain ⟨-, rfl⟩ := Prod.mk.inj (pure_eq_ok.mp hrest')
    show Kept h networkName chain next m
    generalize (if duplicate = true then s.transferIntents else _) = intents at hpromote
    obtain rfl | ⟨hnone, hr', hholds⟩ := hcases
    · have hget := get?_of_found hr hhex hfound
      obtain ⟨hreads, -⟩ := reads_promote (s := ⟨intents, s.nativeTransactions⟩) hr hhex hget hfound
        hpending hpromote
      exact ⟨es, hreads, hb⟩
    · have hget := get?_of_found hr' hhex hfound
      obtain ⟨hreads, r, hstate⟩ := reads_promote (s := ⟨intents, records⟩) hr' hhex hget hfound
        hpending hpromote
      -- the new record is left out of its own check
      have hothersOld := others_of_not_found hr hhex hnone
      have hothers : others (loweredText h (.str f.txId)) (es ++ [⟨f, true⟩]) = es := by
        rw [lowered_hex hhex]
        exact others_append_self hothersOld
      have hfresh : ∀ e ∈ others (loweredText h (.str f.txId)) (es ++ [⟨f, true⟩]),
          e.transfer.txId ≠ f.txId := by
        rw [hothers, ← hothersOld]
        exact fun e he => of_decide_eq_true (List.mem_filter.mp he).2
      obtain ⟨-, hadmissible⟩ := admissible_of_validateAdmissionState hr' hholds.carries hfresh
        hstate
      rw [hothers] at hadmissible
      exact ⟨es ++ [⟨f, true⟩], hreads, hb.admit hadmissible⟩

/-- A call keeps the order of the reservations. -/
theorem kept_perform {s : NativeLedgerState} (hk : Kept h networkName chain next s)
    (call : AdmissionCall) :
    Kept h networkName chain next (s.perform h chain networkName call) := by
  unfold NativeLedgerState.perform
  cases hrun : call.run h chain networkName s with
  | error e => exact hk
  | ok s' =>
    cases call with
    | signed t admitToMempool transferId nowIso =>
      obtain ⟨⟨r, m⟩, hok, hrest⟩ := bind_eq_ok.mp hrun
      obtain rfl := pure_eq_ok.mp hrest
      exact kept_admitSignedTransfer hk hok
    | received payload transferId nowIso =>
      obtain ⟨⟨r, m⟩, hok, hrest⟩ := bind_eq_ok.mp hrun
      obtain rfl := pure_eq_ok.mp hrest
      exact kept_admitReceivedNativeTransaction hk hok

/-- So does a run of calls. -/
theorem kept_run {s : NativeLedgerState} (hk : Kept h networkName chain next s)
    (calls : List AdmissionCall) :
    Kept h networkName chain next
      (calls.foldl (NativeLedgerState.perform h chain networkName) s) := by
  induction calls generalizing s with
  | nil => exact hk
  | cons call calls ih => exact ih (kept_perform hk call)

/-! ## The ledger of a chain -/

/-- A record of a transaction of the chain, as settled. -/
def SettledAs (h : Host) (networkName : String) (transaction : Value) (record : Dict) : Prop :=
  ∃ tx identity, transaction = .dict tx ∧ validateIdentity h networkName tx = .ok identity ∧
    (∀ field ∈ immutableSignedTransactionFields, record.get? field = identity.get? field) ∧
    ∃ status ∈ nativeFinalizedStatuses, record.get? "status" = some (.str status)

/-- The records of the ledger are the settled transactions of the chain, in any order. -/
def SettledLedger (h : Host) (networkName : String) (chain : List ChainBlock)
    (s : NativeLedgerState) : Prop :=
  ∃ blocks records, chain.mapM ChainBlock.nativeTransactions = .ok blocks ∧
    records.Perm s.nativeTransactions ∧
    List.Forall₂ (SettledAs h networkName) blocks.flatten records

/-- A settled record is a reservation that is not pending. -/
theorem holds_of_settledAs {v : Value} {record : Dict}
    (hs : SettledAs h networkName v record) {tx : Dict} {f : Transfer} (hv : v = .dict tx)
    (hread : ReadsTransfer h tx f) :
    ∃ g, Holds h networkName record ⟨g, false⟩ ∧ g.sender = f.sender ∧ g.nonce = f.nonce := by
  obtain ⟨tx', identity, hv', hidentity, hfields, status, hstatus, hget⟩ := hs
  obtain rfl := Value.dict.inj (hv.symm.trans hv')
  obtain ⟨t, rfl, ht⟩ := validateIdentity_carries hidentity
  obtain ⟨g, hcarries, -⟩ := exists_carries ht
  have hread' := readsTransfer_of_validateIdentity hidentity hcarries.isTransfer
  exact ⟨g, ⟨hcarries.congr hfields, status, hget, hstatus⟩,
    Option.some.inj (hread'.sender.symm.trans hread.sender),
    Except.ok.inj (hread'.nonce.symm.trans hread.nonce)⟩

theorem reads_settled {txs : List Dict} {fs : List Transfer}
    (hreads : List.Forall₂ (ReadsTransfer h) txs fs)
    (hsettled : List.Forall₂ (SettledAs h networkName) (txs.map .dict) records) :
    ∃ gs : List Transfer, Reads h networkName records (gs.map fun g => ⟨g, false⟩) ∧
      ∀ wallet, noncesOf wallet gs = noncesOf wallet fs := by
  induction hreads generalizing records with
  | nil =>
    cases hsettled
    exact ⟨[], .nil, fun _ => rfl⟩
  | @cons tx f txs fs hread hreads ih =>
    cases hsettled with
    | cons hfirst hrest =>
      obtain ⟨gs, hgs, hnonces⟩ := ih hrest
      obtain ⟨g, hg, hsender, hnonce⟩ := holds_of_settledAs hfirst rfl hread
      refine ⟨g :: gs, .cons hg hgs, fun wallet => ?_⟩
      have hcons : ∀ (x : Transfer) xs, noncesOf wallet (x :: xs) =
          (if x.sender = wallet then [x.nonce] else []) ++ noncesOf wallet xs := by
        intro x xs
        unfold noncesOf
        rw [List.filter_cons]
        by_cases hx : x.sender = wallet <;> simp [hx]
      rw [hcons, hcons, hsender, hnonce, hnonces]

/-- The ledger of a chain that replays is in order. -/
theorem kept_settledLedger {s : ChainState} {ledger : NativeLedgerState}
    (hreplay : calculateBalancesFromChain h networkName (chainToDicts chain) = .ok s)
    (hledger : SettledLedger h networkName chain ledger) :
    Kept h networkName chain s.nextNonce ledger := by
  obtain ⟨blocks, records, hblocks, hperm, hsettled⟩ := hledger
  obtain ⟨blocks', txs, fs, hblocks', hflatten, hreads, hnonces⟩ := transfers_of_chain hreplay
  obtain rfl := Except.ok.inj (hblocks.symm.trans hblocks')
  rw [hflatten] at hsettled
  obtain ⟨gs, hgs, hsame⟩ := reads_settled hreads hsettled
  obtain ⟨es, hes, hpermEs⟩ := List.perm_comp_forall₂ hperm.symm hgs
  have hsettledOf : (settledOf es).Perm gs := by
    refine ((hpermEs.filter _).map _).trans ?_
    rw [List.filter_map, List.map_map]
    simp [Function.comp_def]
  have hpendingOf : pendingOf es = [] := by
    have hpending : es.filter (fun e => e.pending) = [] := by
      refine List.filter_eq_nil_iff.mpr fun e he => ?_
      obtain ⟨g, -, rfl⟩ := List.mem_map.mp (hpermEs.mem_iff.mp he)
      exact Bool.false_ne_true
    rw [pendingOf, hpending, List.map_nil]
  refine ⟨es, hes, fun wallet => ?_, fun wallet => ?_, fun wallet => ?_, fun wallet hne => ?_⟩
  · have hmem : ∀ n, n ∈ noncesOf wallet (settledOf es) ↔ n ∈ noncesOf wallet fs := fun n => by
      rw [← hsame]
      exact ((hsettledOf.filter _).map _).mem_iff
    exact ⟨(hnonces wallet).le, fun n => (hmem n).trans ((hnonces wallet).mem_iff n)⟩
  · rw [hpendingOf]
    exact ⟨_, Consumes.nil _⟩
  · rw [hpendingOf]
    exact List.nodup_nil
  · rw [hpendingOf] at hne
    exact absurd rfl hne

/-! ## What is pending of a wallet -/

/-- The pending records that a wallet sends. -/
def pendingRecords (h : Host) (wallet : String) (records : List Dict) : List Dict :=
  records.filter fun record =>
    decide (recordStatus h record ∈ nativeReservedStatuses) &&
      isParty h wallet record "from_address"

theorem lt_of_le {balance : Decimal} {x y : Rat} (hle : y ≤ x)
    (hlt : balance.lt (.finite x) = .ok false) : balance.lt (.finite y) = .ok false := by
  cases balance with
  | finite q =>
    simp only [Decimal.lt, Except.ok.injEq, decide_eq_false_iff_not, not_lt] at hlt ⊢
    exact hle.trans hlt
  | inf neg => cases neg <;> exact hlt
  | nan signaling => cases hlt

/-- The nonces and amounts of the pending records of a wallet. -/
theorem pendingRecords_of_reads (hr : Reads h networkName records es) (wallet : String) :
    (pendingRecords h wallet records).mapM (fun r => coerceNativeNonce h (r.get "nonce")) =
        .ok (noncesOf wallet (pendingOf es)) ∧
      ∃ amounts : List Rat,
        (pendingRecords h wallet records).mapM (fun r => amountOf h r "amount") =
          .ok (amounts.map Decimal.finite) ∧
        amounts.sum ≤ costOf wallet (pendingOf es) := by
  have hreads : Reads h networkName (pendingRecords h wallet records)
      (es.filter fun e => e.pending && decide (e.transfer.sender = wallet)) := by
    refine hr.filter fun d e hd => ?_
    rw [isParty_of_carries hd.carries, decide_eq_decide.mpr hd.reserved_iff, Bool.decide_coe]
  have hsent : ∀ {β : Type} (g : Transfer → β),
      ((pendingOf es).filter fun f => f.sender = wallet).map g =
        (es.filter fun e => e.pending && decide (e.transfer.sender = wallet)).map
          fun e => g e.transfer := by
    intro β g
    unfold pendingOf
    rw [List.filter_map, List.filter_filter, List.map_map]
    simp [Function.comp_def, Bool.and_comm]
  refine ⟨?_, (es.filter fun e => e.pending && decide (e.transfer.sender = wallet)).map
    (fun e => e.transfer.amount), ?_, ?_⟩
  · rw [noncesOf, hsent]
    exact mapM_nonce hreads
  · rw [List.map_map]
    refine mapM_of_forall₂ (List.forall₂_map_right_iff.mpr (hreads.imp fun d e hd => ?_))
    exact (amountOf_of_carries hd.carries).1
  · rw [costOf, hsent]
    refine List.sum_le_sum fun e he => ?_
    obtain ⟨d, -, hd⟩ := exists_left_of_forall₂ hreads he
    exact le_add_of_nonneg_right hd.carries.isTransfer.fee_nonneg

namespace SampleAdmission

/-- A ledger without records, which is that of a chain without native transactions. -/
def ledger : NativeLedgerState := ⟨[], []⟩

theorem settledLedger : SettledLedger (Host.sample none none) "zoidberg-testnet"
    SampleLedger.chain ledger :=
  ⟨[[], []], [], rfl, .refl _, .nil⟩

/-- The sender spends 5 that it does not have. -/
def overdrawn : List ChainBlock :=
  [.dict [("transactions", .list [.dict [("sender", .str SampleLedger.sender),
    ("recipient", .str SampleLedger.recipient), ("amount", .int 5), ("tip", .int 0)]])]
    (fun _ h => ⟨_, (Option.some.inj h).symm⟩)]

theorem settledLedger_overdrawn : SettledLedger (Host.sample none none) "zoidberg-testnet"
    overdrawn ledger :=
  ⟨[[]], [], rfl, .refl _, .nil⟩

end SampleAdmission

end ZoidbergChain
