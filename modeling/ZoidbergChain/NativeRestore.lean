import ZoidbergChain.NativeAdmission.Model
import ZoidbergChain.Python.Order
import ZoidbergChain.Python.Table
import ZoidbergChain.Scan.Clean

/-!
# Restoring the native ledger (native_ledger_service.py:658–685)

On a restart the stored transactions and transfer intents are read again: each record goes through
the validator, and what does not pass or collides with an earlier record is dropped.

- `scanTransaction_eq_ok`, `scanIntent_cases`: what one record does to either scan.
- `Restored`: what holds of the restored ledger.
- `restore_self`: a clean ledger is restored as it is.
- `raisesOnly_validateIdentity`: a validation raises a `ValueError` or an `OverflowError`.
- `restores_iff`: the ledger is restored exactly if no validation overflows.
-/

namespace ZoidbergChain

open Python Scan

namespace NativeRestore

section Model

variable (h : Host) (networkName : String)

/-! ## The transactions -/

/-- The loop over the transactions: what is kept, and the sets it is looked up in. -/
structure TransactionScan where
  transactions : List Dict := []
  seenIds : Finset String := ∅
  seenNonces : Table (Option String × Int) String := []
  changed : Bool := false
  removed : Nat := 0

/-- `changed = True; removed += 1; continue`. -/
def TransactionScan.drop (s : TransactionScan) : TransactionScan :=
  { s with changed := true, removed := s.removed + 1 }

/-- A validated record is kept. -/
def TransactionScan.keep (s : TransactionScan) (transaction validated : Dict) :
    TransactionScan :=
  { s with
    transactions := s.transactions ++ [validated]
    seenIds := insert (recordTxId h validated) s.seenIds
    changed := s.changed || !Value.pyEq (.dict transaction) (.dict validated) }

/-- `seen_nonces[key] = tx_id`. -/
def TransactionScan.reserve (s : TransactionScan) (key : Option String × Int) (txId : String) :
    TransactionScan :=
  { s with seenNonces := s.seenNonces.set key txId }

/-- The loop body behind the validation. -/
def scanValidated (s : TransactionScan) (transaction validated : Dict) : Py TransactionScan :=
  if recordTxId h validated ∈ s.seenIds then .ok s.drop
  else if recordStatus h validated ∈ nativeNonceUnavailableStatuses then do
    let nonce ← coerceNativeNonce h (validated.get "nonce")
    let key := (normalizeWalletIdentity h.toRuntime (validated.get "from_address"), nonce)
    if (s.seenNonces.get? key).any (· ≠ recordTxId h validated) then return s.drop
    return (s.reserve key (recordTxId h validated)).keep h transaction validated
  else .ok (s.keep h transaction validated)

/-- The loop body for a transaction. -/
def scanTransaction (s : TransactionScan) : Value → Py TransactionScan
  | .dict transaction =>
    match validateSignedNativeTransaction h networkName (.dict transaction) with
    | .ok validated => scanValidated h s transaction validated
    | .error e => if e.isValueError then .ok s.drop else .error e
  | _ => .ok s.drop

/-! ## The transfer intents -/

/-- `build_transfer_intent_record_from_transaction`, with an update time. -/
def rebuildTransferIntent (payload : Dict) (transferId : String)
    (signedAt createdAt updatedAt : Value) (nowIso : String) : Dict :=
  buildTransferIntentRecord h payload transferId signedAt createdAt nowIso ++
    if Value.isPresent updatedAt then [("updated_at", .str (updatedAt.text h.toRuntime))] else []

/-- The loop over the intents. -/
structure IntentScan where
  intents : List Dict := []
  transferIds : Finset String := ∅
  transferTxIds : Finset String := ∅
  changed : Bool
  removed : Nat

def IntentScan.drop (s : IntentScan) : IntentScan :=
  { s with changed := true, removed := s.removed + 1 }

/-- A rebuilt intent is kept. -/
def IntentScan.keep (s : IntentScan) (intent rebuilt : Dict) (transferId txId : String) :
    IntentScan :=
  { s with
    intents := s.intents ++ [rebuilt]
    transferIds := insert transferId s.transferIds
    transferTxIds := insert txId s.transferTxIds
    changed := s.changed || !Value.pyEq (.dict intent) (.dict rebuilt) }

/-- `str(intent.get("transfer_id") or "").strip()`. -/
def intentTransferId (intent : Dict) : String := (intent.get "transfer_id").trimmed h.toRuntime

/-- The intent that is kept for a raw one. -/
def rebuiltIntent (transaction intent : Dict) (nowIso : String) : Dict :=
  rebuildTransferIntent h transaction (intentTransferId h intent) (intent.get "signed_at")
    (intent.get "created_at") (intent.get "updated_at") nowIso

/-- The loop body for an intent. -/
def scanIntent (nowIso : String) (byId : Table String Dict) (s : IntentScan) : Value → IntentScan
  | .dict intent =>
    let transferId := intentTransferId h intent
    let txId := recordTxId h intent
    if transferId = "" ∨ transferId ∈ s.transferIds ∨ txId = "" ∨ txId ∈ s.transferTxIds then
      s.drop
    else
      match byId.get? txId with
      | none => s.drop
      | some transaction =>
        s.keep intent (rebuiltIntent h transaction intent nowIso) transferId txId
  | _ => s.drop

/-- The intents behind the last loop, with whether it added one and how many identifiers it has
drawn. -/
structure Completion where
  intents : List Dict
  changed : Bool
  drawn : Nat := 0

/-- The loop body that adds a missing intent. `ids` are the identifiers of `os.urandom`, in the
order in which they are drawn. -/
def completeIntent (ids : Nat → String) (nowIso : String) (transferTxIds : Finset String)
    (c : Completion) (transaction : Dict) : Completion :=
  if recordTxId h transaction ∈ transferTxIds then c
  else {
    intents := c.intents ++
      [rebuildTransferIntent h transaction (ids c.drawn) .null .null .null nowIso]
    changed := true
    drawn := c.drawn + 1 }

/-- The answer of the restoration. -/
structure RestoredState where
  nativeTransactions : List Dict
  transferIntents : List Dict
  changed : Bool
  removed : Nat

/-- `by_id`. -/
def transactionsById (transactions : List Dict) : Table String Dict :=
  transactions.foldl (fun byId transaction => byId.set (recordTxId h transaction) transaction) []

/-- `restore_native_transaction_state`. -/
def restoreNativeTransactionState (ids : Nat → String) (nowIso : String)
    (rawTransactions rawTransferIntents : List Value) : Py RestoredState := do
  let scan ← rawTransactions.foldlM (scanTransaction h networkName) {}
  let kept := rawTransferIntents.foldl
    (scanIntent h nowIso (transactionsById h scan.transactions))
    { changed := scan.changed, removed := scan.removed }
  let completion := scan.transactions.foldl (completeIntent h ids nowIso kept.transferTxIds)
    { intents := kept.intents, changed := kept.changed }
  return ⟨scan.transactions, completion.intents, completion.changed, kept.removed⟩

/-! ## What the restoration is for -/

/-- The record that a raw transaction stands for: a refused one stands for none. -/
def readTransaction : Value → Option Dict
  | .dict transaction =>
    (validateSignedNativeTransaction h networkName (.dict transaction)).toOption
  | _ => none

/-- A record has a status that reserves its nonce. -/
def Reserves (record : Dict) : Prop := recordStatus h record ∈ nativeNonceUnavailableStatuses

instance : DecidablePred (Reserves h) := fun _ => by
  unfold Reserves
  infer_instance

/-- The sender and the nonce of a record. -/
def nonceKey (record : Dict) : Option String × Option Int :=
  (normalizeWalletIdentity h.toRuntime (record.get "from_address"),
    (coerceNativeNonce h (record.get "nonce")).toOption)

/-- Two records reserve one nonce of one sender. -/
def SameNonce (a b : Dict) : Prop := Reserves h a ∧ Reserves h b ∧ nonceKey h a = nonceKey h b

/-- Two records collide. -/
def Collides (a b : Dict) : Prop := recordTxId h a = recordTxId h b ∨ SameNonce h a b

instance : DecidableRel (Collides h) := fun _ _ => by
  unfold Collides SameNonce
  infer_instance

/-- The intent that a raw one stands for, under the restored transactions. -/
def readIntent (nowIso : String) (transactions : List Dict) : Value → Option Dict
  | .dict intent =>
    if intentTransferId h intent = "" then none
    else
      (transactions.find? fun transaction => recordTxId h transaction = recordTxId h intent).map
        fun transaction => rebuiltIntent h transaction intent nowIso
  | _ => none

/-- Two intents collide. -/
def IntentsCollide (a b : Dict) : Prop :=
  intentTransferId h a = intentTransferId h b ∨ recordTxId h a = recordTxId h b

instance : DecidableRel (IntentsCollide h) := fun _ _ => by
  unfold IntentsCollide
  infer_instance

end Model

/-! ## Validated records -/

variable {h : Host} {networkName : String}

/-- A record that the validator has returned. -/
def IsRecord (h : Host) (networkName : String) (record : Dict) : Prop :=
  ∃ transaction, validateIdentity h networkName transaction = .ok record

theorem readTransaction_dict (transaction : Dict) :
    readTransaction h networkName (.dict transaction) =
      (validateIdentity h networkName transaction).toOption := by
  rw [readTransaction, validateSignedNativeTransaction_dict]

theorem isRecord_of_read {raw : Value} {record : Dict}
    (hread : readTransaction h networkName raw = some record) : IsRecord h networkName record := by
  cases raw with
  | dict transaction =>
    rw [readTransaction_dict] at hread
    exact ⟨transaction, eq_ok_of_toOption hread⟩
  | _ => nomatch hread

/-- The validator returns its own records unchanged. -/
theorem IsRecord.read_self {record : Dict} (hrecord : IsRecord h networkName record) :
    readTransaction h networkName (.dict record) = some record := by
  obtain ⟨transaction, hvalid⟩ := hrecord
  obtain ⟨t, ht, hauthentic, rfl⟩ := validateIdentity_eq_ok.mp hvalid
  have hshape := validateIdentity_valid ht hauthentic
  obtain ⟨-, -, -, hlifecycle⟩ := validateTransactionShape_eq_ok ht
  -- a record states its event times
  have htimes : withEventTimes t.toDict = t.toDict := by
    unfold withEventTimes
    dsimp only
    split
    · rfl
    · rfl
  have hagain : validateTransactionShape h networkName (withEventTimes t.toDict) = .ok t := by
    rw [htimes]
    exact validateTransactionShape_of_agrees hshape hlifecycle fun _ _ => rfl
  rw [readTransaction_dict, validateIdentity_eq_ok.mpr ⟨t, hagain, hauthentic, rfl⟩]
  rfl

/-- The entries of a record are `None`, an `int` or a `str`. -/
theorem IsRecord.exact {record : Dict} (hrecord : IsRecord h networkName record) :
    record.keys.Nodup ∧ ∀ x ∈ record, x.2.isExact = true := by
  obtain ⟨transaction, hvalid⟩ := hrecord
  obtain ⟨t, ht, hauthentic, rfl⟩ := validateIdentity_eq_ok.mp hvalid
  have hshape := validateIdentity_valid ht hauthentic
  refine ⟨NativeTransaction.nodup_keys_toDict hshape.fields, ?_⟩
  obtain ⟨id, -, hid⟩ := hauthentic.networkId
  have htext : ∀ s : Option String, (optionText s).isExact = true := fun s => by cases s <;> rfl
  have hint : ∀ n : Option Int, (optionInt n).isExact = true := fun n => by cases n <;> rfl
  simp only [NativeTransaction.toDict, hauthentic.transactionVersion, hauthentic.protocolVersion,
    hid, List.forall_mem_append, List.forall_mem_cons]
  have hnil : ∀ x ∈ ([] : Dict), x.2.isExact = true := List.forall_mem_nil _
  exact ⟨⟨⟨⟨rfl, rfl, rfl, rfl, rfl, rfl, rfl, rfl, rfl, rfl, rfl, rfl, rfl, rfl, rfl, rfl, htext _,
    htext _, htext _, hint _, htext _, htext _, hnil⟩, rfl, hnil⟩, rfl, hnil⟩, rfl, hnil⟩

/-- What the restoration reads of a record. -/
theorem IsRecord.fields {record : Dict} (hrecord : IsRecord h networkName record) :
    recordTxId h record ≠ "" ∧
      (∃ nonce, coerceNativeNonce h (record.get "nonce") = .ok nonce) ∧
      (∃ timestamp, record.get "timestamp" = .str timestamp ∧ timestamp ≠ "") ∧
      ∃ createdAt, record.get "created_at" = .str createdAt ∧ createdAt ≠ "" := by
  obtain ⟨transaction, hvalid⟩ := hrecord
  obtain ⟨f, hf⟩ := validateIdentity_isTransfer hvalid
  obtain ⟨t, ht, hauthentic, rfl⟩ := validateIdentity_eq_ok.mp hvalid
  have hshape := validateIdentity_valid ht hauthentic
  obtain ⟨-, -, -, hlifecycle⟩ := validateTransactionShape_eq_ok ht
  refine ⟨?_, ?_, ⟨_, rfl, hshape.fields.parsed.timestamp_ne⟩,
    ⟨_, rfl, (parseTransferTimestamp_stable hlifecycle.createdAt).2⟩⟩
  · rw [recordTxId, Dict.get_eq, hf.txId, Option.getD_some, loweredText, hf.txId_hex.lower_trimmed]
    exact hf.txId_hex.ne_empty
  · obtain ⟨v, hv, hnonce⟩ := hf.nonce
    rw [Dict.get_eq, hv, Option.getD_some]
    exact ⟨_, hnonce⟩

/-! ## The scan of the transactions -/

/-- The scan holds the clean records and the sets of their keys. -/
structure Tracks (h : Host) (networkName : String) (s : TransactionScan) (raws : List Value) :
    Prop where
  transactions : s.transactions = clean (readTransaction h networkName) (Collides h) raws
  seenIds : ∀ id, id ∈ s.seenIds ↔ ∃ record ∈ s.transactions, recordTxId h record = id
  seenNonces : ∀ key id, s.seenNonces.get? key = some id ↔ ∃ record ∈ s.transactions,
    Reserves h record ∧ nonceKey h record = (key.1, some key.2) ∧ recordTxId h record = id

theorem tracks_empty : Tracks h networkName {} [] where
  transactions := rfl
  seenIds _ := by simp
  seenNonces _ _ := by simp

variable {s : TransactionScan} {raws : List Value} {raw : Value} {transaction record : Dict}

theorem Tracks.drop (hs : Tracks h networkName s raws)
    (hraw : cleanStep (readTransaction h networkName) (Collides h) s.transactions raw =
      s.transactions) : Tracks h networkName s.drop (raws ++ [raw]) where
  transactions := by
    rw [clean_append, ← hs.transactions, hraw]
    rfl
  seenIds := hs.seenIds
  seenNonces := hs.seenNonces

/-- A record whose status reserves no nonce is kept. -/
theorem Tracks.keep (hs : Tracks h networkName s raws)
    (hread : readTransaction h networkName raw = some record)
    (hapart : ∀ other ∈ s.transactions, ¬Collides h other record) (hfree : ¬Reserves h record) :
    Tracks h networkName (s.keep h transaction record) (raws ++ [raw]) where
  transactions := by
    rw [clean_append, ← hs.transactions, cleanStep_of_apart hread hapart]
    rfl
  seenIds id := by
    have hids := hs.seenIds id
    simp only [TransactionScan.keep, Finset.mem_insert, List.mem_append, List.mem_singleton, hids]
    constructor
    · rintro (rfl | ⟨other, hother, rfl⟩)
      · exact ⟨record, Or.inr rfl, rfl⟩
      · exact ⟨other, Or.inl hother, rfl⟩
    · rintro ⟨other, hother | rfl, rfl⟩
      · exact Or.inr ⟨other, hother, rfl⟩
      · exact Or.inl rfl
  seenNonces key id := by
    have hnonces := hs.seenNonces key id
    simp only [TransactionScan.keep, List.mem_append, List.mem_singleton, hnonces]
    constructor
    · rintro ⟨other, hother, hrest⟩
      exact ⟨other, Or.inl hother, hrest⟩
    · rintro ⟨other, hother | rfl, hreserves, hrest⟩
      · exact ⟨other, hother, hreserves, hrest⟩
      · exact absurd hreserves hfree

/-- A record whose nonce is free is kept and reserves it. -/
theorem Tracks.keep_reserve (hs : Tracks h networkName s raws) {key : Option String × Int}
    (hread : readTransaction h networkName raw = some record)
    (hapart : ∀ other ∈ s.transactions, ¬Collides h other record) (hreserves : Reserves h record)
    (hkey : nonceKey h record = (key.1, some key.2)) :
    Tracks h networkName ((s.reserve key (recordTxId h record)).keep h transaction record)
      (raws ++ [raw]) where
  transactions := by
    rw [clean_append, ← hs.transactions, cleanStep_of_apart hread hapart]
    rfl
  seenIds id := by
    have hids := hs.seenIds id
    simp only [TransactionScan.keep, TransactionScan.reserve, Finset.mem_insert, List.mem_append,
      List.mem_singleton, hids]
    constructor
    · rintro (rfl | ⟨other, hother, rfl⟩)
      · exact ⟨record, Or.inr rfl, rfl⟩
      · exact ⟨other, Or.inl hother, rfl⟩
    · rintro ⟨other, hother | rfl, rfl⟩
      · exact Or.inr ⟨other, hother, rfl⟩
      · exact Or.inl rfl
  seenNonces key' id := by
    have hnonces := hs.seenNonces key' id
    simp only [TransactionScan.keep, TransactionScan.reserve, List.mem_append, List.mem_singleton,
      Table.get?_set_eq_some, hnonces]
    constructor
    · rintro (⟨rfl, rfl⟩ | ⟨-, other, hother, hrest⟩)
      · exact ⟨record, Or.inr rfl, hreserves, hkey, rfl⟩
      · exact ⟨other, Or.inl hother, hrest⟩
    · rintro ⟨other, hother | rfl, hother', hkey', rfl⟩
      · refine Or.inr ⟨?_, other, hother, hother', hkey', rfl⟩
        rintro rfl
        exact hapart other hother (Or.inr ⟨hother', hreserves, hkey'.trans hkey.symm⟩)
      · rw [hkey] at hkey'
        obtain ⟨hsender, hnonce⟩ := Prod.mk.inj hkey'
        exact Or.inl ⟨Prod.ext hsender.symm (Option.some.inj hnonce).symm, rfl⟩

/-- What one validated record does to the scan. -/
theorem scanValidated_eq_ok (hs : Tracks h networkName s raws)
    (hread : readTransaction h networkName raw = some record) :
    ∃ s', scanValidated h s transaction record = .ok s' ∧
      Tracks h networkName s' (raws ++ [raw]) ∧
      ((∃ other ∈ s.transactions, Collides h other record) ∧ s' = s.drop ∨
        (∀ other ∈ s.transactions, ¬Collides h other record) ∧
          s'.transactions = s.transactions ++ [record] ∧ s'.removed = s.removed ∧
          s'.changed = (s.changed || !Value.pyEq (.dict transaction) (.dict record))) := by
  obtain ⟨-, ⟨nonce, hnonce⟩, -⟩ := (isRecord_of_read hread).fields
  have hdrop : (∃ other ∈ s.transactions, Collides h other record) →
      Tracks h networkName s.drop (raws ++ [raw]) := fun hclash =>
    hs.drop (cleanStep_of_clash hread hclash)
  obtain ⟨key, hpair⟩ : ∃ key : Option String × Int,
      (normalizeWalletIdentity h.toRuntime (record.get "from_address"), nonce) = key := ⟨_, rfl⟩
  have hkey : nonceKey h record = (key.1, some key.2) := by
    rw [← hpair]
    simp only [nonceKey, hnonce, Except.toOption]
  unfold scanValidated
  by_cases hseen : recordTxId h record ∈ s.seenIds
  · obtain ⟨other, hother, hsame⟩ := (hs.seenIds _).mp hseen
    have hclash : ∃ other ∈ s.transactions, Collides h other record :=
      ⟨other, hother, Or.inl hsame⟩
    exact ⟨s.drop, if_pos hseen, hdrop hclash, Or.inl ⟨hclash, rfl⟩⟩
  · have hids : ∀ other ∈ s.transactions, recordTxId h other ≠ recordTxId h record :=
      fun other hother hsame => hseen ((hs.seenIds _).mpr ⟨other, hother, hsame⟩)
    rw [if_neg hseen]
    by_cases hreserves : recordStatus h record ∈ nativeNonceUnavailableStatuses
    · rw [if_pos hreserves, hnonce, ok_bind]
      dsimp only
      rw [hpair]
      split
      · -- the nonce is taken
        next htaken =>
        obtain ⟨id, hid, -⟩ := (Option.any_eq_true _ _).mp htaken
        obtain ⟨other, hother, hother', hsame, -⟩ := (hs.seenNonces key id).mp hid
        have hboth : SameNonce h other record := ⟨hother', hreserves, by rw [hsame, hkey]⟩
        have hclash : ∃ other ∈ s.transactions, Collides h other record :=
          ⟨other, hother, Or.inr hboth⟩
        exact ⟨s.drop, rfl, hdrop hclash, Or.inl ⟨hclash, rfl⟩⟩
      · next hfree =>
        have hapart : ∀ other ∈ s.transactions, ¬Collides h other record := by
          rintro other hother (hsame | ⟨hother', -, hsame⟩)
          · exact hids other hother hsame
          · refine hfree ((Option.any_eq_true _ _).mpr ⟨recordTxId h other, ?_, ?_⟩)
            · exact (hs.seenNonces key _).mpr ⟨other, hother, hother', by rw [hsame, hkey], rfl⟩
            · exact decide_eq_true (hids other hother)
        exact ⟨_, rfl, hs.keep_reserve hread hapart hreserves hkey,
          Or.inr ⟨hapart, rfl, rfl, rfl⟩⟩
    · rw [if_neg hreserves]
      have hapart : ∀ other ∈ s.transactions, ¬Collides h other record := by
        rintro other hother (hsame | ⟨-, hrecord, -⟩)
        · exact hids other hother hsame
        · exact hreserves hrecord
      exact ⟨_, rfl, hs.keep hread hapart hreserves, Or.inr ⟨hapart, rfl, rfl, rfl⟩⟩

/-- The validation of a raw transaction ends in a record or a `ValueError`. -/
def Settles (h : Host) (networkName : String) (raw : Value) : Prop :=
  ∀ transaction, raw = .dict transaction → RaisesOnly (fun e => e.isValueError = true)
    (validateSignedNativeTransaction h networkName (.dict transaction))

/-- What one raw transaction does to the scan. -/
theorem scanTransaction_eq_ok (hs : Tracks h networkName s raws)
    (hsettles : Settles h networkName raw) :
    ∃ s', scanTransaction h networkName s raw = .ok s' ∧
      Tracks h networkName s' (raws ++ [raw]) ∧
      (s' = s.drop ∧ (readTransaction h networkName raw = none ∨
          ∃ record, readTransaction h networkName raw = some record ∧
            ∃ other ∈ s.transactions, Collides h other record) ∨
        ∃ record, readTransaction h networkName raw = some record ∧
          s'.transactions = s.transactions ++ [record] ∧ s'.removed = s.removed ∧
          s'.changed = (s.changed || !Value.pyEq raw (.dict record))) := by
  have hnone : readTransaction h networkName raw = none →
      scanTransaction h networkName s raw = .ok s.drop → ∃ s', scanTransaction h networkName s raw =
        .ok s' ∧ Tracks h networkName s' (raws ++ [raw]) ∧ s' = s.drop := fun hread hdrop =>
    ⟨s.drop, hdrop, hs.drop (cleanStep_of_none hread), rfl⟩
  cases raw with
  | dict transaction =>
    cases hvalid : validateSignedNativeTransaction h networkName (.dict transaction) with
    | error e =>
      have hread : readTransaction h networkName (.dict transaction) = none := by
        rw [readTransaction, hvalid]
        rfl
      obtain ⟨s', hscan, htracks, hdrop⟩ := hnone hread (by
        rw [scanTransaction, hvalid]
        exact if_pos (hsettles transaction rfl e hvalid))
      exact ⟨s', hscan, htracks, Or.inl ⟨hdrop, Or.inl hread⟩⟩
    | ok record =>
      have hread : readTransaction h networkName (.dict transaction) = some record := by
        rw [readTransaction, hvalid]
        rfl
      obtain ⟨s', hscan, htracks, ⟨hclash, hdrop⟩ | ⟨-, hkept⟩⟩ :=
        @scanValidated_eq_ok _ _ s raws _ transaction record hs hread
      · refine ⟨s', ?_, htracks, Or.inl ⟨hdrop, Or.inr ⟨record, hread, hclash⟩⟩⟩
        rw [scanTransaction, hvalid]
        exact hscan
      · refine ⟨s', ?_, htracks, Or.inr ⟨record, hread, hkept⟩⟩
        rw [scanTransaction, hvalid]
        exact hscan
  | _ =>
    obtain ⟨s', hscan, htracks, hdrop⟩ := hnone rfl rfl
    exact ⟨s', hscan, htracks, Or.inl ⟨hdrop, Or.inl rfl⟩⟩

/-- The scan of all transactions. -/
theorem scanTransactions_eq_ok (hsettles : ∀ raw ∈ raws, Settles h networkName raw) :
    ∃ s, raws.foldlM (scanTransaction h networkName) {} = .ok s ∧ Tracks h networkName s raws := by
  induction raws using List.reverseRecOn with
  | nil => exact ⟨{}, rfl, tracks_empty⟩
  | append_singleton raws raw ih =>
    obtain ⟨s, hrun, htracks⟩ := ih fun x hx => hsettles x (List.mem_append_left _ hx)
    obtain ⟨s', hstep, htracks', -⟩ :=
      scanTransaction_eq_ok htracks (hsettles raw (List.mem_append_right _ (by simp)))
    refine ⟨s', ?_, htracks'⟩
    rw [foldlM_append_eq_ok]
    exact ⟨s, hrun, foldlM_cons_eq_ok.mpr ⟨s', hstep, rfl⟩⟩

/-- A scan that returns has settled every transaction. -/
theorem settles_of_scan {s s' : TransactionScan}
    (hrun : raws.foldlM (scanTransaction h networkName) s = .ok s') :
    ∀ raw ∈ raws, Settles h networkName raw := by
  induction raws generalizing s with
  | nil => simp
  | cons raw raws ih =>
    obtain ⟨m, hstep, hrest⟩ := foldlM_cons_eq_ok.mp hrun
    refine List.forall_mem_cons.mpr ⟨?_, ih hrest⟩
    rintro transaction rfl e he
    rw [scanTransaction, he] at hstep
    by_contra hvalue
    rw [Bool.not_eq_true] at hvalue
    simp only [hvalue] at hstep
    cases hstep

/-- Clean records pass the scan as they are. -/
theorem scanTransactions_self {records : List Dict}
    (hrecords : ∀ record ∈ records, IsRecord h networkName record)
    (hapart : records.Pairwise fun a b => ¬Collides h a b) :
    ∃ s, (records.map Value.dict).foldlM (scanTransaction h networkName) {} = .ok s ∧
      Tracks h networkName s (records.map Value.dict) ∧ s.transactions = records ∧
      s.changed = false ∧ s.removed = 0 := by
  induction records using List.reverseRecOn with
  | nil => exact ⟨{}, rfl, tracks_empty, rfl, rfl, rfl⟩
  | append_singleton records record ih =>
    obtain ⟨hbefore, -, hlast⟩ := List.pairwise_append.mp hapart
    obtain ⟨s, hrun, htracks, hkept, hchanged, hremoved⟩ :=
      ih (fun x hx => hrecords x (List.mem_append_left _ hx)) hbefore
    have hread := (hrecords record (by simp)).read_self
    have hsettles : Settles h networkName (.dict record) := by
      rintro _ ⟨⟩ e he
      rw [readTransaction, he] at hread
      cases hread
    obtain ⟨s', hstep, htracks', ⟨-, hnone | ⟨other, hother, hclash⟩⟩ |
      ⟨other, hother, htransactions, hremoved', hchanged'⟩⟩ :=
      scanTransaction_eq_ok htracks hsettles
    · rw [hread] at hnone
      cases hnone
    · obtain rfl := Option.some.inj (hread.symm.trans hother)
      obtain ⟨earlier, hearlier, hcollides⟩ := hclash
      rw [hkept] at hearlier
      exact absurd hcollides (hlast earlier hearlier record (List.mem_singleton_self record))
    · obtain rfl := Option.some.inj (hread.symm.trans hother)
      rw [List.map_append]
      refine ⟨s', ?_, htracks', by rw [htransactions, hkept], ?_, hremoved'.trans hremoved⟩
      · rw [foldlM_append_eq_ok]
        exact ⟨s, hrun, foldlM_cons_eq_ok.mpr ⟨s', hstep, rfl⟩⟩
      · obtain ⟨hkeys, hexact⟩ := (hrecords record (by simp)).exact
        rw [hchanged', hchanged, Dict.pyEq_self hkeys hexact]
        rfl

/-! ## The scan of the intents -/

/-- Records by their identifiers, which are distinct and not empty. -/
structure Identified (h : Host) (transactions : List Dict) : Prop where
  nodup : (transactions.map (recordTxId h)).Nodup
  ne_empty : ∀ transaction ∈ transactions, recordTxId h transaction ≠ ""

/-- The table holds the record of an identifier. -/
theorem get?_transactionsById {transactions : List Dict}
    (hnodup : (transactions.map (recordTxId h)).Nodup) (id : String) :
    (transactionsById h transactions).get? id =
      transactions.find? fun transaction => recordTxId h transaction = id := by
  induction transactions using List.reverseRecOn with
  | nil => rfl
  | append_singleton transactions last ih =>
    rw [List.map_append, List.nodup_append] at hnodup
    obtain ⟨hbefore, -, hlast⟩ := hnodup
    rw [transactionsById, List.foldl_append, List.find?_append, ← ih hbefore]
    show (Table.set (transactionsById h transactions) (recordTxId h last) last).get? id = _
    rw [Table.get?_set]
    by_cases hid : recordTxId h last = id
    · have hnone : (transactionsById h transactions).get? id = none := by
        rw [ih hbefore, List.find?_eq_none]
        rintro other hother hsame
        exact hlast _ (List.mem_map_of_mem hother) _ (List.mem_singleton_self _)
          ((of_decide_eq_true hsame).trans hid.symm)
      rw [if_pos hid, hnone, Option.none_or]
      exact (List.find?_cons_of_pos (p := fun other => recordTxId h other = id)
        (decide_eq_true hid)).symm
    · have hnone : [last].find? (fun other => recordTxId h other = id) = none :=
        List.find?_eq_none.mpr fun other hother => by
          obtain rfl := List.mem_singleton.mp hother
          simpa using hid
      rw [if_neg hid, hnone, Option.or_none]

variable {nowIso : String} {intent : Dict}

theorem intentTransferId_rebuild (transferId : String) (signedAt createdAt updatedAt : Value) :
    intentTransferId h (rebuildTransferIntent h transaction transferId signedAt createdAt updatedAt
      nowIso) = strip transferId := by
  have hget : (rebuildTransferIntent h transaction transferId signedAt createdAt updatedAt
      nowIso).get "transfer_id" = .str transferId := rfl
  rw [intentTransferId, hget, Value.trimmed_str]

theorem recordTxId_rebuild (transferId : String) (signedAt createdAt updatedAt : Value) :
    recordTxId h (rebuildTransferIntent h transaction transferId signedAt createdAt updatedAt
      nowIso) = recordTxId h transaction := rfl

theorem intentTransferId_rebuilt :
    intentTransferId h (rebuiltIntent h transaction intent nowIso) = intentTransferId h intent := by
  rw [rebuiltIntent, intentTransferId_rebuild]
  exact strip_strip _

/-- What a raw intent is read as. -/
theorem readIntent_eq_some {transactions : List Dict} {rebuilt : Dict} :
    readIntent h nowIso transactions (.dict intent) = some rebuilt ↔
      intentTransferId h intent ≠ "" ∧ ∃ transaction,
        transactions.find? (fun transaction => recordTxId h transaction = recordTxId h intent) =
          some transaction ∧ rebuilt = rebuiltIntent h transaction intent nowIso := by
  rw [readIntent]
  by_cases hid : intentTransferId h intent = ""
  · simp [hid]
  · rw [if_neg hid, Option.map_eq_some_iff]
    constructor
    · rintro ⟨transaction, hfind, rfl⟩
      exact ⟨hid, transaction, hfind, rfl⟩
    · rintro ⟨-, transaction, hfind, rfl⟩
      exact ⟨transaction, hfind, rfl⟩

/-- The scan holds the clean intents and the sets of their identifiers. -/
structure TracksIntents (h : Host) (nowIso : String) (transactions : List Dict) (s : IntentScan)
    (raws : List Value) : Prop where
  intents : s.intents = clean (readIntent h nowIso transactions) (IntentsCollide h) raws
  transferIds : ∀ id, id ∈ s.transferIds ↔ ∃ intent ∈ s.intents, intentTransferId h intent = id
  transferTxIds : ∀ id, id ∈ s.transferTxIds ↔ ∃ intent ∈ s.intents, recordTxId h intent = id

variable {transactions : List Dict} {s : IntentScan}

theorem tracksIntents_start (changed : Bool) (removed : Nat) :
    TracksIntents h nowIso transactions { changed, removed } [] where
  intents := rfl
  transferIds _ := by simp
  transferTxIds _ := by simp

theorem TracksIntents.drop (hs : TracksIntents h nowIso transactions s raws)
    (hraw : cleanStep (readIntent h nowIso transactions) (IntentsCollide h) s.intents raw =
      s.intents) : TracksIntents h nowIso transactions s.drop (raws ++ [raw]) where
  intents := by
    rw [clean_append, ← hs.intents, hraw]
    rfl
  transferIds := hs.transferIds
  transferTxIds := hs.transferTxIds

theorem TracksIntents.keep (hs : TracksIntents h nowIso transactions s raws)
    (hread : readIntent h nowIso transactions (.dict intent) = some record)
    (hapart : ∀ other ∈ s.intents, ¬IntentsCollide h other record)
    (hid : intentTransferId h record = intentTransferId h intent)
    (htx : recordTxId h record = recordTxId h intent) :
    TracksIntents h nowIso transactions
      (s.keep intent record (intentTransferId h intent) (recordTxId h intent))
      (raws ++ [.dict intent]) where
  intents := by
    rw [clean_append, ← hs.intents, cleanStep_of_apart hread hapart]
    rfl
  transferIds id := by
    have hids := hs.transferIds id
    simp only [IntentScan.keep, Finset.mem_insert, List.mem_append, List.mem_singleton, hids]
    constructor
    · rintro (rfl | ⟨other, hother, rfl⟩)
      · exact ⟨record, Or.inr rfl, hid⟩
      · exact ⟨other, Or.inl hother, rfl⟩
    · rintro ⟨other, hother | rfl, rfl⟩
      · exact Or.inr ⟨other, hother, rfl⟩
      · exact Or.inl hid
  transferTxIds id := by
    have hids := hs.transferTxIds id
    simp only [IntentScan.keep, Finset.mem_insert, List.mem_append, List.mem_singleton, hids]
    constructor
    · rintro (rfl | ⟨other, hother, rfl⟩)
      · exact ⟨record, Or.inr rfl, htx⟩
      · exact ⟨other, Or.inl hother, rfl⟩
    · rintro ⟨other, hother | rfl, rfl⟩
      · exact Or.inr ⟨other, hother, rfl⟩
      · exact Or.inl htx

/-- What one raw intent does to the scan. -/
theorem scanIntent_cases (hids : Identified h transactions)
    (hs : TracksIntents h nowIso transactions s raws) (raw : Value) :
    (scanIntent h nowIso (transactionsById h transactions) s raw = s.drop ∧
        (readIntent h nowIso transactions raw = none ∨
          ∃ rebuilt, readIntent h nowIso transactions raw = some rebuilt ∧
            ∃ other ∈ s.intents, IntentsCollide h other rebuilt)) ∨
      ∃ intent rebuilt, raw = .dict intent ∧
        readIntent h nowIso transactions raw = some rebuilt ∧
        (∀ other ∈ s.intents, ¬IntentsCollide h other rebuilt) ∧
        intentTransferId h rebuilt = intentTransferId h intent ∧
        recordTxId h rebuilt = recordTxId h intent ∧
        scanIntent h nowIso (transactionsById h transactions) s raw =
          s.keep intent rebuilt (intentTransferId h intent) (recordTxId h intent) := by
  cases raw with
  | dict intent =>
    have hfind := get?_transactionsById hids.nodup (recordTxId h intent)
    -- the keys of what the intent is read as
    have hkeys : ∀ transaction, transactions.find?
        (fun transaction => recordTxId h transaction = recordTxId h intent) = some transaction →
        recordTxId h (rebuiltIntent h transaction intent nowIso) = recordTxId h intent :=
      fun transaction hsome => by
        have hsame := List.find?_some hsome
        exact of_decide_eq_true hsame
    rw [scanIntent]
    split
    · next hbad =>
      refine Or.inl ⟨rfl, ?_⟩
      cases hread : readIntent h nowIso transactions (.dict intent) with
      | none => exact Or.inl rfl
      | some rebuilt =>
        obtain ⟨hid, transaction, hsome, rfl⟩ := readIntent_eq_some.mp hread
        refine Or.inr ⟨_, rfl, ?_⟩
        obtain hempty | hseen | hempty | hseen := hbad
        · exact absurd hempty hid
        · obtain ⟨other, hother, hsame⟩ := (hs.transferIds _).mp hseen
          exact ⟨other, hother, Or.inl (hsame.trans intentTransferId_rebuilt.symm)⟩
        · refine absurd ?_ (hids.ne_empty transaction (List.mem_of_find?_eq_some hsome))
          exact (hkeys transaction hsome).trans hempty
        · obtain ⟨other, hother, hsame⟩ := (hs.transferTxIds _).mp hseen
          exact ⟨other, hother, Or.inr (hsame.trans (hkeys transaction hsome).symm)⟩
    · next hgood =>
      rw [hfind]
      cases hsome : transactions.find?
          (fun transaction => recordTxId h transaction = recordTxId h intent) with
      | none =>
        refine Or.inl ⟨rfl, Or.inl ?_⟩
        rw [readIntent, hsome]
        split <;> rfl
      | some transaction =>
        have hid : intentTransferId h intent ≠ "" := fun hempty => hgood (Or.inl hempty)
        refine Or.inr ⟨intent, _, rfl, readIntent_eq_some.mpr ⟨hid, transaction, hsome, rfl⟩, ?_,
          intentTransferId_rebuilt, hkeys transaction hsome, rfl⟩
        rintro other hother (hsame | hsame)
        · refine hgood (Or.inr (Or.inl ((hs.transferIds _).mpr ⟨other, hother, ?_⟩)))
          exact hsame.trans intentTransferId_rebuilt
        · refine hgood (Or.inr (Or.inr (Or.inr ((hs.transferTxIds _).mpr ⟨other, hother, ?_⟩))))
          exact hsame.trans (hkeys transaction hsome)
  | _ => exact Or.inl ⟨rfl, Or.inl rfl⟩

theorem scanIntent_tracks (hids : Identified h transactions)
    (hs : TracksIntents h nowIso transactions s raws) (raw : Value) :
    TracksIntents h nowIso transactions
      (scanIntent h nowIso (transactionsById h transactions) s raw) (raws ++ [raw]) := by
  obtain ⟨hscan, hdropped⟩ | ⟨intent, rebuilt, rfl, hread, hapart, hid, htx, hscan⟩ :=
    scanIntent_cases hids hs raw
  · rw [hscan]
    refine hs.drop ?_
    obtain hnone | ⟨rebuilt, hread, hclash⟩ := hdropped
    · exact cleanStep_of_none hnone
    · exact cleanStep_of_clash hread hclash
  · rw [hscan]
    exact hs.keep hread hapart hid htx

/-- The scan of all intents. -/
theorem scanIntents_tracks (hids : Identified h transactions) (changed : Bool) (removed : Nat)
    (raws : List Value) :
    TracksIntents h nowIso transactions (raws.foldl
      (scanIntent h nowIso (transactionsById h transactions)) { changed, removed }) raws := by
  induction raws using List.reverseRecOn with
  | nil => exact tracksIntents_start changed removed
  | append_singleton raws raw ih =>
    rw [List.foldl_append]
    exact scanIntent_tracks hids ih raw

/-- An intent that is read as itself. -/
structure IsIntent (h : Host) (transactions : List Dict) (intent : Dict) : Prop where
  read_self : ∀ nowIso, readIntent h nowIso transactions (.dict intent) = some intent
  keys : intent.keys.Nodup
  exact : ∀ x ∈ intent, x.2.isExact = true

/-- Clean intents pass the scan as they are. -/
theorem scanIntents_self (hids : Identified h transactions) {intents : List Dict}
    (hintents : ∀ intent ∈ intents, IsIntent h transactions intent)
    (hapart : intents.Pairwise fun a b => ¬IntentsCollide h a b) (nowIso : String) :
    ∃ s, (intents.map Value.dict).foldl (scanIntent h nowIso (transactionsById h transactions))
        { changed := false, removed := 0 } = s ∧
      s.intents = intents ∧ s.changed = false ∧ s.removed = 0 := by
  induction intents using List.reverseRecOn with
  | nil => exact ⟨_, rfl, rfl, rfl, rfl⟩
  | append_singleton intents intent ih =>
    obtain ⟨hbefore, -, hlast⟩ := List.pairwise_append.mp hapart
    obtain ⟨s, hrun, hkept, hchanged, hremoved⟩ :=
      ih (fun x hx => hintents x (List.mem_append_left _ hx)) hbefore
    have htracks := @scanIntents_tracks h nowIso transactions hids false 0
      (intents.map Value.dict)
    rw [hrun] at htracks
    obtain ⟨hread, hkeys, hexact⟩ := hintents intent (by simp)
    rw [List.map_append, List.foldl_append, hrun]
    refine ⟨_, rfl, ?_⟩
    simp only [List.map_cons, List.map_nil, List.foldl_cons, List.foldl_nil]
    obtain ⟨-, hnone | ⟨rebuilt, hrebuilt, other, hother, hclash⟩⟩ |
      ⟨_, rebuilt, ⟨⟩, hrebuilt, -, -, -, hscan⟩ := scanIntent_cases hids htracks (.dict intent)
    · rw [hread] at hnone
      nomatch hnone
    · obtain rfl := Option.some.inj ((hread nowIso).symm.trans hrebuilt)
      rw [hkept] at hother
      exact absurd hclash (hlast other hother intent (List.mem_singleton_self intent))
    · obtain rfl := Option.some.inj ((hread nowIso).symm.trans hrebuilt)
      rw [hscan]
      refine ⟨by rw [IntentScan.keep, hkept], ?_, hremoved⟩
      rw [IntentScan.keep, hchanged, Dict.pyEq_self hkeys hexact]
      rfl

/-! ## Rebuilt intents -/

/-- `repr` of a `bytes`, a `list` or a `dict` has its brackets. -/
def ReprNonempty (rt : Runtime) : Prop := ∀ v, rt.repr v ≠ ""

theorem append_ne_empty {a b : String} (hab : a ≠ "" ∨ b ≠ "") : a ++ b ≠ "" := by
  intro hempty
  obtain ⟨ha, hb⟩ := String.append_eq_empty_iff.mp hempty
  exact hab.elim (· ha) (· hb)

theorem text_float_ne_empty (f : PyFloat) : f.text ≠ "" := by
  have hlist : ∀ cs : List Char, cs ≠ [] → String.ofList cs ≠ "" := fun cs hcs hempty =>
    hcs (by rw [← String.toList_ofList (l := cs), hempty]; rfl)
  cases f with
  | nan => decide
  | inf neg => cases neg <;> decide
  | finite x =>
    simp only [PyFloat.text]
    by_cases hzero : x.value = 0
    · rw [if_pos hzero]
      decide
    · rw [if_neg hzero]
      split
      · -- the positional text has a point
        refine append_ne_empty (Or.inr (hlist _ ?_))
        split
        · next hpoint => exact List.ne_nil_of_mem hpoint
        · simp
      · -- the other one has an exponent
        exact append_ne_empty (Or.inl (append_ne_empty (Or.inl (append_ne_empty
          (Or.inr (by decide))))))

/-- Only the empty text is written as one. -/
theorem text_ne_empty {rt : Runtime} (hrepr : ReprNonempty rt) {v : Value} (hv : v ≠ .str "") :
    v.text rt ≠ "" := by
  cases v with
  | null => exact (by decide : "None" ≠ "")
  | bool b => cases b <;> simp [Value.text]
  | int n =>
    show toString n ≠ ""
    obtain hn | hn := le_or_gt 0 n
    · intro hempty
      have hdigits := (parseInt_toString hn).2.1
      rw [hempty] at hdigits
      exact absurd hdigits (by decide)
    · obtain ⟨m, rfl⟩ : ∃ m : Nat, n = Int.negSucc m := ⟨(-n - 1).toNat, by omega⟩
      exact append_ne_empty (Or.inl (by decide : "-" ≠ ""))
  | float f => exact text_float_ne_empty f
  | str s => exact fun hempty => hv (congrArg Value.str hempty)
  | bytes b => exact hrepr _
  | list xs => exact hrepr _
  | dict d => exact hrepr _

theorem find?_of_identified (hids : Identified h transactions)
    (hmem : transaction ∈ transactions) :
    transactions.find? (fun other => recordTxId h other = recordTxId h transaction) =
      some transaction := by
  cases hfind : transactions.find?
      (fun other => recordTxId h other = recordTxId h transaction) with
  | none =>
    have hno := List.find?_eq_none.mp hfind transaction hmem
    exact absurd (decide_eq_true rfl) hno
  | some other =>
    have hsame := List.find?_some hfind
    exact congrArg some (List.inj_on_of_nodup_map hids.nodup (List.mem_of_find?_eq_some hfind) hmem
      (of_decide_eq_true hsame))

/-- The first present text of several is present. -/
theorem orElse_ne_empty {v : Value} {text : String} {rest : Value} (htext : text ≠ "") :
    v.orElse ((Value.str text).orElse rest) ≠ .str "" := by
  have hstr : (Value.str text).orElse rest = .str text :=
    Value.orElse_of_truthy (by simpa using htext)
  rw [hstr, Value.orElse]
  split
  · next htruthy =>
    rintro rfl
    nomatch htruthy
  · exact fun hempty => htext (Value.str.inj hempty)

/-- The times of an intent are texts that are not empty. -/
theorem intentTimes_ne_empty (hrepr : ReprNonempty h.toRuntime)
    (hrecord : IsRecord h networkName transaction) (v : Value) (now : String) :
    (v.orElse ((transaction.get "timestamp").orElse
        ((transaction.get "created_at").orElse (.str now)))).text h.toRuntime ≠ "" ∧
      (v.orElse ((transaction.get "created_at").orElse (.str now))).text h.toRuntime ≠ "" := by
  obtain ⟨-, -, ⟨timestamp, htimestamp, htimestamp_ne⟩, created, hcreated, hcreated_ne⟩ :=
    hrecord.fields
  rw [htimestamp, hcreated]
  exact ⟨text_ne_empty hrepr (orElse_ne_empty htimestamp_ne),
    text_ne_empty hrepr (orElse_ne_empty hcreated_ne)⟩

/-- A time that is a text is kept. -/
theorem text_orElse {text : String} (htext : text ≠ "") (rest : Value) :
    ((Value.str text).orElse rest).text h.toRuntime = text := by
  rw [Value.orElse_of_truthy (by simpa using htext)]
  rfl

theorem isPresent_str {text : String} : Value.isPresent (.str text) = true ↔ text ≠ "" := by
  simp [Value.isPresent, Value.isNone, Value.pyEq]

/-- Rebuilding an intent from its own fields changes nothing. -/
theorem rebuildTransferIntent_self (hrepr : ReprNonempty h.toRuntime)
    (hrecord : IsRecord h networkName transaction) (transferId : String)
    (signedAt createdAt updatedAt : Value) (nowIso now : String) :
    let rebuilt := rebuildTransferIntent h transaction transferId signedAt createdAt updatedAt
      nowIso
    rebuildTransferIntent h transaction transferId (rebuilt.get "signed_at")
      (rebuilt.get "created_at") (rebuilt.get "updated_at") now = rebuilt := by
  dsimp only
  have hsigned : (rebuildTransferIntent h transaction transferId signedAt createdAt updatedAt
      nowIso).get "signed_at" = .str _ := rfl
  have hcreated : (rebuildTransferIntent h transaction transferId signedAt createdAt updatedAt
      nowIso).get "created_at" = .str _ := rfl
  have hupdated : (rebuildTransferIntent h transaction transferId signedAt createdAt updatedAt
      nowIso).get "updated_at" =
        if Value.isPresent updatedAt then .str (updatedAt.text h.toRuntime) else .null := by
    unfold rebuildTransferIntent
    split <;> rfl
  rw [hsigned, hcreated, hupdated]
  have hbuild := @text_orElse h _ (intentTimes_ne_empty hrepr hrecord signedAt nowIso).1
  have hbuild' := @text_orElse h _ (intentTimes_ne_empty hrepr hrecord createdAt nowIso).2
  have hrecorded : ∀ text text' : String,
      (signedAt.orElse ((transaction.get "timestamp").orElse
        ((transaction.get "created_at").orElse (.str nowIso)))).text h.toRuntime = text →
      (createdAt.orElse ((transaction.get "created_at").orElse (.str nowIso))).text h.toRuntime =
        text' →
      buildTransferIntentRecord h transaction transferId (.str text) (.str text') now =
        buildTransferIntentRecord h transaction transferId signedAt createdAt nowIso := by
    rintro _ _ rfl rfl
    unfold buildTransferIntentRecord buildTransferIntentRecord.textOf
    rw [hbuild, hbuild']
  unfold rebuildTransferIntent
  rw [hrecorded _ _ rfl rfl]
  by_cases hpresent : Value.isPresent updatedAt = true
  · have htext : updatedAt.text h.toRuntime ≠ "" := text_ne_empty hrepr fun hempty => by
      rw [hempty] at hpresent
      exact isPresent_str.mp hpresent rfl
    rw [if_pos hpresent, if_pos hpresent, if_pos (isPresent_str.mpr htext)]
    rfl
  · rw [if_neg hpresent, if_neg hpresent]
    rfl

/-- The entries of a rebuilt intent are `None`, an `int` or a `str`. -/
theorem exact_rebuild (hrecord : IsRecord h networkName transaction) (transferId : String)
    (signedAt createdAt updatedAt : Value) (nowIso : String) :
    (rebuildTransferIntent h transaction transferId signedAt createdAt updatedAt
        nowIso).keys.Nodup ∧
      ∀ x ∈ rebuildTransferIntent h transaction transferId signedAt createdAt updatedAt nowIso,
        x.2.isExact = true := by
  have hget := Dict.isExact_get hrecord.exact.2
  unfold rebuildTransferIntent buildTransferIntentRecord
  split
  · constructor
    · exact (by decide +kernel : ["transfer_id", "tx_id", "from_address", "to_address", "amount",
        "fee", "memo", "network", "transaction_version", "protocol_version", "network_id",
        "signature_scheme", "signature", "signed_message", "signed_message_hash", "transfer_nonce",
        "signed_at", "status", "created_at", "updated_at"].Nodup)
    · simp only [List.forall_mem_append, List.forall_mem_cons]
      exact ⟨⟨rfl, hget _, hget _, hget _, hget _, hget _, hget _, hget _, hget _, hget _, hget _,
        hget _, hget _, hget _, hget _, hget _, rfl, hget _, rfl, nofun⟩, rfl, nofun⟩
  · constructor
    · exact (by decide +kernel : ["transfer_id", "tx_id", "from_address", "to_address", "amount",
        "fee", "memo", "network", "transaction_version", "protocol_version", "network_id",
        "signature_scheme", "signature", "signed_message", "signed_message_hash", "transfer_nonce",
        "signed_at", "status", "created_at"].Nodup)
    · simp only [List.append_nil, List.forall_mem_cons]
      exact ⟨rfl, hget _, hget _, hget _, hget _, hget _, hget _, hget _, hget _, hget _, hget _,
        hget _, hget _, hget _, hget _, hget _, rfl, hget _, rfl, nofun⟩

/-- An intent that was rebuilt from a record is read as itself. -/
theorem isIntent_rebuild (hrepr : ReprNonempty h.toRuntime) (hids : Identified h transactions)
    (hrecord : IsRecord h networkName transaction) (hmem : transaction ∈ transactions)
    {transferId : String} (hstrip : strip transferId = transferId) (hne : transferId ≠ "")
    (signedAt createdAt updatedAt : Value) (nowIso : String) :
    IsIntent h transactions (rebuildTransferIntent h transaction transferId signedAt createdAt
      updatedAt nowIso) := by
  obtain ⟨hkeys, hexact⟩ :=
    exact_rebuild hrecord transferId signedAt createdAt updatedAt nowIso
  refine ⟨fun now => readIntent_eq_some.mpr ⟨?_, transaction, find?_of_identified hids hmem, ?_⟩,
    hkeys, hexact⟩
  · rw [intentTransferId_rebuild, hstrip]
    exact hne
  · rw [rebuiltIntent, intentTransferId_rebuild, hstrip]
    exact (rebuildTransferIntent_self hrepr hrecord transferId signedAt createdAt updatedAt nowIso
      now).symm

/-! ## The missing intents -/

/-- The records without an intent. -/
def missingIntents (h : Host) (transferTxIds : Finset String) (transactions : List Dict) :
    List Dict :=
  transactions.filter fun transaction => recordTxId h transaction ∉ transferTxIds

/-- The intents that are added for records, from some identifier on. -/
def addedIntents (h : Host) (ids : Nat → String) (nowIso : String) (records : List Dict) :
    List Dict :=
  records.zipIdx.map fun record =>
    rebuildTransferIntent h record.1 (ids record.2) .null .null .null nowIso

/-- What the last loop adds. -/
theorem completeIntents_eq (ids : Nat → String) (nowIso : String) (transferTxIds : Finset String)
    (intents : List Dict) (changed : Bool) (transactions : List Dict) :
    transactions.foldl (completeIntent h ids nowIso transferTxIds) { intents, changed } =
      { intents := intents ++
          addedIntents h ids nowIso (missingIntents h transferTxIds transactions)
        changed := changed || !(missingIntents h transferTxIds transactions).isEmpty
        drawn := (missingIntents h transferTxIds transactions).length } := by
  induction transactions using List.reverseRecOn with
  | nil => simp [missingIntents, addedIntents]
  | append_singleton transactions transaction ih =>
    have hsplit : missingIntents h transferTxIds (transactions ++ [transaction]) =
        missingIntents h transferTxIds transactions ++
          [transaction].filter fun t => recordTxId h t ∉ transferTxIds := List.filter_append ..
    rw [List.foldl_append, ih, hsplit]
    simp only [List.foldl_cons, List.foldl_nil, completeIntent]
    by_cases hin : recordTxId h transaction ∈ transferTxIds
    · have hnone : [transaction].filter (fun t => recordTxId h t ∉ transferTxIds) = [] := by
        simpa using hin
      rw [if_pos hin, hnone, List.append_nil]
    · have hsome : [transaction].filter (fun t => recordTxId h t ∉ transferTxIds) =
          [transaction] := by
        simpa using hin
      rw [if_neg hin, hsome]
      simp [addedIntents, List.zipIdx_append]

theorem recordTxId_addedIntents (ids : Nat → String) (nowIso : String) (records : List Dict) :
    (addedIntents h ids nowIso records).map (recordTxId h) = records.map (recordTxId h) := by
  have hcomp : recordTxId h ∘ (fun record : Dict × Nat =>
      rebuildTransferIntent h record.1 (ids record.2) .null .null .null nowIso) =
      recordTxId h ∘ Prod.fst := rfl
  rw [addedIntents, List.map_map, hcomp, ← List.map_map, List.zipIdx_map_fst]

/-- The identifiers that a restoration may draw: hexadecimal digits, without a repetition and none
of them in use. -/
structure FreshIds (h : Host) (ids : Nat → String) (count : Nat) (rawTransferIntents : List Value) :
    Prop where
  hex : ∀ k, (ids k).toList.length = 32 ∧ (ids k).toList.all isLowerHex = true
  distinct : ∀ j < count, ∀ k < count, ids j = ids k → j = k
  unused : ∀ intent, .dict intent ∈ rawTransferIntents → ∀ k < count,
    intentTransferId h intent ≠ ids k

variable {ids : Nat → String} {count : Nat} {rawTransferIntents : List Value}

theorem FreshIds.strip_eq (hfresh : FreshIds h ids count rawTransferIntents) (k : Nat) :
    strip (ids k) = ids k ∧ ids k ≠ "" := by
  obtain ⟨hlength, hhex⟩ := hfresh.hex k
  constructor
  · exact strip_of_forall fun c hc =>
      not_isSpace_of_isHex (isHex_of_isLowerHex (List.all_eq_true.mp hhex c hc))
  · intro hempty
    rw [hempty] at hlength
    exact absurd hlength (by decide)

theorem intentTransferId_addedIntents (hfresh : FreshIds h ids count rawTransferIntents)
    (nowIso : String) (records : List Dict) :
    (addedIntents h ids nowIso records).map (intentTransferId h) =
      (List.range records.length).map ids := by
  have hcomp : intentTransferId h ∘ (fun record : Dict × Nat =>
      rebuildTransferIntent h record.1 (ids record.2) .null .null .null nowIso) =
      ids ∘ Prod.snd := funext fun record => by
    rw [Function.comp_apply, intentTransferId_rebuild, (hfresh.strip_eq record.2).1]
    rfl
  rw [addedIntents, List.map_map, hcomp, ← List.map_map, List.zipIdx_map_snd, List.range_eq_range']

/-! ## The restored ledger -/

/-- What holds of the restored ledger. -/
structure Restored (h : Host) (networkName nowIso : String)
    (rawTransactions rawTransferIntents : List Value) (out : RestoredState) : Prop where
  txIds : (out.nativeTransactions.map (recordTxId h)).Nodup
  nonces : out.nativeTransactions.Pairwise fun a b => ¬SameNonce h a b
  /-- Every record has one intent, and every intent has a record. -/
  intents : (out.transferIntents.map (recordTxId h)).Perm
    (out.nativeTransactions.map (recordTxId h))
  transferIds : (out.transferIntents.map (intentTransferId h)).Nodup
  /-- A transaction that is dropped is refused or loses to an earlier one. -/
  transactions_dropped : ∀ before raw after, rawTransactions = before ++ raw :: after →
    readTransaction h networkName raw = none ∨
      ∃ record, readTransaction h networkName raw = some record ∧
        (record ∈ out.nativeTransactions ∨ ∃ earlier ∈ before, ∃ other ∈ out.nativeTransactions,
          readTransaction h networkName earlier = some other ∧ Collides h other record)
  /-- An intent that is dropped has no record or loses to an earlier one. -/
  intents_dropped : ∀ before raw after, rawTransferIntents = before ++ raw :: after →
    readIntent h nowIso out.nativeTransactions raw = none ∨
      ∃ intent, readIntent h nowIso out.nativeTransactions raw = some intent ∧
        (intent ∈ out.transferIntents ∨ ∃ earlier ∈ before, ∃ other ∈ out.transferIntents,
          readIntent h nowIso out.nativeTransactions earlier = some other ∧
            IntentsCollide h other intent)
  /-- Restored again, the ledger stays as it is. -/
  again : ∀ ids nowIso, restoreNativeTransactionState h networkName ids nowIso
    (out.nativeTransactions.map .dict) (out.transferIntents.map .dict) =
      .ok ⟨out.nativeTransactions, out.transferIntents, false, 0⟩

/-- Records that do not collide are told apart by their identifiers. -/
theorem identified_of_pairwise (hrecords : ∀ record ∈ transactions, IsRecord h networkName record)
    (hapart : transactions.Pairwise fun a b => ¬Collides h a b) : Identified h transactions where
  nodup := List.pairwise_map.mpr (hapart.imp fun hno hsame => hno (Or.inl hsame))
  ne_empty record hrecord := (hrecords record hrecord).fields.1

/-- A ledger whose records and intents are clean is restored as it is. -/
theorem restore_self (hrecords : ∀ record ∈ transactions, IsRecord h networkName record)
    (hapart : transactions.Pairwise fun a b => ¬Collides h a b) {intents : List Dict}
    (hintents : ∀ intent ∈ intents, IsIntent h transactions intent)
    (hintentsApart : intents.Pairwise fun a b => ¬IntentsCollide h a b)
    (hfull : ∀ record ∈ transactions, ∃ intent ∈ intents, recordTxId h intent = recordTxId h record)
    (ids : Nat → String) (nowIso : String) :
    restoreNativeTransactionState h networkName ids nowIso (transactions.map .dict)
      (intents.map .dict) = .ok ⟨transactions, intents, false, 0⟩ := by
  have hids := identified_of_pairwise hrecords hapart
  obtain ⟨s, hscan, -, hkept, hchanged, hremoved⟩ := scanTransactions_self hrecords hapart
  obtain ⟨t, hrun, hkeptIntents, hchangedIntents, hremovedIntents⟩ :=
    scanIntents_self hids hintents hintentsApart nowIso
  have htracks := @scanIntents_tracks h nowIso transactions hids false 0 (intents.map Value.dict)
  rw [hrun] at htracks
  have hmissing : missingIntents h t.transferTxIds transactions = [] := by
    refine List.filter_eq_nil_iff.mpr fun record hrecord => ?_
    obtain ⟨intent, hintent, hsame⟩ := hfull record hrecord
    have hin : recordTxId h record ∈ t.transferTxIds :=
      (htracks.transferTxIds _).mpr ⟨intent, hkeptIntents ▸ hintent, hsame⟩
    simpa using hin
  rw [restoreNativeTransactionState, hscan, ok_bind]
  dsimp only
  rw [hkept, hchanged, hremoved, hrun, completeIntents_eq, hmissing, hkeptIntents, hchangedIntents,
    hremovedIntents]
  simp [addedIntents, pure, Except.pure]

/-- Intents with distinct identifiers of both kinds do not collide. -/
theorem pairwise_of_nodup {intents : List Dict}
    (hids : (intents.map (intentTransferId h)).Nodup) (htx : (intents.map (recordTxId h)).Nodup) :
    intents.Pairwise fun a b => ¬IntentsCollide h a b :=
  ((List.pairwise_map.mp hids).and (List.pairwise_map.mp htx)).imp
    fun ⟨hid, htxId⟩ hcollide => hcollide.elim hid htxId

theorem nodup_of_pairwise {intents : List Dict}
    (hapart : intents.Pairwise fun a b => ¬IntentsCollide h a b) :
    (intents.map (intentTransferId h)).Nodup ∧ (intents.map (recordTxId h)).Nodup :=
  ⟨List.pairwise_map.mpr (hapart.imp fun hno hsame => hno (Or.inl hsame)),
    List.pairwise_map.mpr (hapart.imp fun hno hsame => hno (Or.inr hsame))⟩

/-- The kept and the added intents have distinct identifiers. -/
theorem nodup_transferIds (hkept : TracksIntents h nowIso transactions s rawTransferIntents)
    (hfresh : FreshIds h ids count rawTransferIntents) {records : List Dict}
    (hcount : records.length ≤ count) :
    ((s.intents ++ addedIntents h ids nowIso records).map (intentTransferId h)).Nodup := by
  have hapart := @pairwise_clean _ _ (readIntent h nowIso transactions) (IntentsCollide h) _
    rawTransferIntents
  rw [← hkept.intents] at hapart
  rw [List.map_append, intentTransferId_addedIntents hfresh, List.nodup_append]
  refine ⟨(nodup_of_pairwise hapart).1, ?_, ?_⟩
  · refine List.Nodup.map_on (fun j hj k hk hjk => ?_) List.nodup_range
    rw [List.mem_range] at hj hk
    exact hfresh.distinct j (by omega) k (by omega) hjk
  · rintro _ hid _ hdrawn rfl
    obtain ⟨intent, hintent, hsame⟩ := List.mem_map.mp hid
    obtain ⟨k, hk, hdraws⟩ := List.mem_map.mp hdrawn
    rw [hkept.intents] at hintent
    obtain ⟨raw, hraw, hread⟩ := mem_clean hintent
    cases raw with
    | dict stated =>
      obtain ⟨-, transaction, -, rfl⟩ := readIntent_eq_some.mp hread
      rw [intentTransferId_rebuilt] at hsame
      have hk := List.mem_range.mp hk
      exact hfresh.unused stated hraw k (by omega) (hsame.trans hdraws.symm)
    | _ => nomatch hread

/-- Every record has one intent among the kept and the added ones. -/
theorem perm_intents (hids : Identified h transactions)
    (hkept : TracksIntents h nowIso transactions s rawTransferIntents) (ids : Nat → String) :
    ((s.intents ++ addedIntents h ids nowIso
      (missingIntents h s.transferTxIds transactions)).map (recordTxId h)).Perm
        (transactions.map (recordTxId h)) := by
  have hapart := @pairwise_clean _ _ (readIntent h nowIso transactions) (IntentsCollide h) _
    rawTransferIntents
  rw [← hkept.intents] at hapart
  have hsub : (missingIntents h s.transferTxIds transactions).Sublist transactions :=
    List.filter_sublist
  rw [List.map_append, recordTxId_addedIntents]
  refine (List.perm_ext_iff_of_nodup ?_ hids.nodup).mpr fun id => ?_
  · refine List.nodup_append.mpr ⟨(nodup_of_pairwise hapart).2,
      hids.nodup.sublist (hsub.map _), ?_⟩
    rintro _ hid _ hmissing rfl
    obtain ⟨record, hrecord, hsame⟩ := List.mem_map.mp hmissing
    obtain ⟨intent, hintent, hintentId⟩ := List.mem_map.mp hid
    have hno := of_decide_eq_true (List.mem_filter.mp hrecord).2
    exact hno ((hkept.transferTxIds _).mpr ⟨intent, hintent, hintentId.trans hsame.symm⟩)
  · rw [List.mem_append]
    constructor
    · rintro (hid | hid)
      · -- a kept intent was read from a record
        obtain ⟨intent, hintent, rfl⟩ := List.mem_map.mp hid
        rw [hkept.intents] at hintent
        obtain ⟨raw, -, hread⟩ := mem_clean hintent
        cases raw with
        | dict stated =>
          obtain ⟨-, transaction, hfind, rfl⟩ := readIntent_eq_some.mp hread
          exact List.mem_map.mpr ⟨transaction, List.mem_of_find?_eq_some hfind, rfl⟩
        | _ => nomatch hread
      · exact (hsub.map _).subset hid
    · intro hid
      obtain ⟨record, hrecord, rfl⟩ := List.mem_map.mp hid
      by_cases hin : recordTxId h record ∈ s.transferTxIds
      · obtain ⟨intent, hintent, hsame⟩ := (hkept.transferTxIds _).mp hin
        exact Or.inl (List.mem_map.mpr ⟨intent, hintent, hsame⟩)
      · exact Or.inr (List.mem_map_of_mem
          (List.mem_filter.mpr ⟨hrecord, decide_eq_true hin⟩))

/-- The kept and the added intents are read as themselves. -/
theorem isIntent_of_restored (hrepr : ReprNonempty h.toRuntime)
    (hrecords : ∀ record ∈ transactions, IsRecord h networkName record)
    (hids : Identified h transactions)
    (hkept : TracksIntents h nowIso transactions s rawTransferIntents)
    (hfresh : FreshIds h ids count rawTransferIntents) :
    ∀ intent ∈ s.intents ++ addedIntents h ids nowIso
      (missingIntents h s.transferTxIds transactions), IsIntent h transactions intent := by
  intro intent hintent
  obtain hintent | hintent := List.mem_append.mp hintent
  · rw [hkept.intents] at hintent
    obtain ⟨raw, -, hread⟩ := mem_clean hintent
    cases raw with
    | dict stated =>
      obtain ⟨hne, transaction, hfind, rfl⟩ := readIntent_eq_some.mp hread
      have hmem := List.mem_of_find?_eq_some hfind
      exact isIntent_rebuild hrepr hids (hrecords _ hmem) hmem (strip_strip _) hne _ _ _ _
    | _ => nomatch hread
  · obtain ⟨⟨record, k⟩, hrecord, rfl⟩ := List.mem_map.mp hintent
    have hmem : record ∈ transactions :=
      List.filter_sublist.subset (List.fst_mem_of_mem_zipIdx hrecord)
    obtain ⟨hstrip, hne⟩ := hfresh.strip_eq k
    exact isIntent_rebuild hrepr hids (hrecords _ hmem) hmem hstrip hne _ _ _ _

/-- A ledger whose validations settle is restored. -/
theorem restores_of_settles (hrepr : ReprNonempty h.toRuntime) {rawTransactions : List Value}
    (hfresh : FreshIds h ids rawTransactions.length rawTransferIntents) (nowIso : String)
    (hsettles : ∀ raw ∈ rawTransactions, Settles h networkName raw) :
    ∃ out, restoreNativeTransactionState h networkName ids nowIso rawTransactions
        rawTransferIntents = .ok out ∧
      Restored h networkName nowIso rawTransactions rawTransferIntents out := by
  obtain ⟨s, hscan, htracks⟩ := scanTransactions_eq_ok hsettles
  have hclean := htracks.transactions
  have hapart : s.transactions.Pairwise fun a b => ¬Collides h a b := by
    rw [hclean]
    exact pairwise_clean rawTransactions
  have hrecords : ∀ record ∈ s.transactions, IsRecord h networkName record := by
    intro record hrecord
    rw [hclean] at hrecord
    obtain ⟨raw, -, hread⟩ := mem_clean hrecord
    exact isRecord_of_read hread
  have hids := identified_of_pairwise hrecords hapart
  have hkept := @scanIntents_tracks h nowIso s.transactions hids s.changed s.removed
    rawTransferIntents
  obtain ⟨t, hrun⟩ : ∃ t, rawTransferIntents.foldl
      (scanIntent h nowIso (transactionsById h s.transactions))
      { changed := s.changed, removed := s.removed } = t := ⟨_, rfl⟩
  rw [hrun] at hkept
  have hcount : (missingIntents h t.transferTxIds s.transactions).length ≤
      rawTransactions.length := by
    refine (List.length_filter_le _ _).trans ?_
    rw [hclean]
    exact length_clean_le rawTransactions
  have hperm := perm_intents hids hkept ids
  have hnodup := nodup_transferIds hkept hfresh hcount
  have hpairwise := pairwise_of_nodup hnodup (hperm.nodup_iff.mpr hids.nodup)
  have hintents := isIntent_of_restored hrepr hrecords hids hkept hfresh
  refine ⟨⟨s.transactions, t.intents ++ addedIntents h ids nowIso
    (missingIntents h t.transferTxIds s.transactions),
    t.changed || !(missingIntents h t.transferTxIds s.transactions).isEmpty, t.removed⟩, ?_, ?_⟩
  · rw [restoreNativeTransactionState, hscan, ok_bind]
    dsimp only
    rw [hrun, completeIntents_eq]
    rfl
  · exact {
      txIds := hids.nodup
      nonces := hapart.imp fun hno hsame => hno (Or.inr hsame)
      intents := hperm
      transferIds := hnodup
      transactions_dropped := fun before raw after hsplit => by
        dsimp only
        rw [hclean]
        exact kept_or_dropped hsplit
      intents_dropped := fun before raw after hsplit => by
        dsimp only
        obtain hnone | ⟨intent, hread, hkeptIntent | ⟨earlier, hearlier, other, hother, hlost⟩⟩ :=
          @kept_or_dropped _ _ (readIntent h nowIso s.transactions) (IntentsCollide h) _ _ _ _ _
            hsplit
        · exact Or.inl hnone
        · rw [← hkept.intents] at hkeptIntent
          exact Or.inr ⟨intent, hread, Or.inl (List.mem_append_left _ hkeptIntent)⟩
        · rw [← hkept.intents] at hother
          exact Or.inr ⟨intent, hread, Or.inr ⟨earlier, hearlier, other,
            List.mem_append_left _ hother, hlost⟩⟩
      again := restore_self hrecords hapart hintents hpairwise fun record hrecord => by
        have hid := hperm.mem_iff.mpr (List.mem_map_of_mem (f := recordTxId h) hrecord)
        exact List.mem_map.mp hid }

/-! ## What a validation raises -/

/-- A `ValueError`, or the `OverflowError` of a time or of a number. -/
def IsRefusal (e : PyError) : Prop := e.isValueError = true ∨ e.exc = .overflowError

theorem raisesOnly_value {α : Type} (message : String) :
    RaisesOnly IsRefusal (.error (.value message) : Py α) := raisesOnly_error (Or.inl rfl)

theorem raisesOnly_requireValue {c : Prop} [Decidable c] (message : String) :
    RaisesOnly IsRefusal (require c (.value message)) := raisesOnly_require (Or.inl rfl)

theorem raisesOnly_parseTransferTimestamp (v : Value) :
    RaisesOnly IsRefusal (parseTransferTimestamp h v) := by
  unfold parseTransferTimestamp
  refine (raisesOnly_requireValue _).bind fun _ _ => ?_
  dsimp only
  split
  · exact raisesOnly_value _
  · exact raisesOnly_value _
  · exact raisesOnly_error (Or.inr rfl)
  · exact raisesOnly_ok _

theorem raisesOnly_parseNativeZoidAmount (v : Value) (allowZero : Bool) :
    RaisesOnly IsRefusal (parseNativeZoidAmount h v allowZero) := by
  unfold parseNativeZoidAmount
  split
  · exact raisesOnly_value _
  · refine (raisesOnly_requireValue _).bind fun _ _ => ?_
    refine (raisesOnly_requireValue _).bind fun _ _ => ?_
    refine (raisesOnly_requireValue _).bind fun _ _ => ?_
    split
    · exact raisesOnly_value _
    · refine (raisesOnly_requireValue _).bind fun _ _ => ?_
      refine (raisesOnly_requireValue _).bind fun _ _ => ?_
      exact (raisesOnly_requireValue _).bind fun _ _ => raisesOnly_ok _
    · exact raisesOnly_value _

theorem raisesOnly_toInt (v : Value) :
    RaisesOnly (fun e => e.exc = .typeError ∨ IsRefusal e) v.toInt := by
  have hvalue : ∀ message, RaisesOnly (fun e => e.exc = .typeError ∨ IsRefusal e)
      (.error (.value message) : Py Int) := fun _ => raisesOnly_error (Or.inr (Or.inl rfl))
  unfold Value.toInt
  split
  · exact raisesOnly_ok _
  · exact raisesOnly_ok _
  · exact raisesOnly_ok _
  · exact raisesOnly_error (Or.inr (Or.inr rfl))
  · exact hvalue _
  · split
    · exact raisesOnly_ok _
    · exact hvalue _
  · split
    · exact raisesOnly_ok _
    · exact hvalue _
  · exact raisesOnly_error (Or.inl rfl)

/-- The height of a block, for which a `TypeError` is caught. -/
theorem raisesOnly_readIncludedBlockHeight (v : Value) :
    RaisesOnly IsRefusal (readIncludedBlockHeight v) := by
  have hread : RaisesOnly IsRefusal (includedBlockHeightInt v) := by
    unfold includedBlockHeightInt
    cases hint : v.toInt with
    | ok n => exact raisesOnly_ok _
    | error e =>
      dsimp only
      split
      · exact raisesOnly_value _
      · next hcaught =>
        refine raisesOnly_error ?_
        obtain htype | hrefusal := raisesOnly_toInt v e hint
        · exact absurd (Or.inl htype) hcaught
        · exact hrefusal
  unfold readIncludedBlockHeight
  split
  · refine hread.bind fun _ _ => ?_
    exact (raisesOnly_requireValue _).bind fun _ _ => raisesOnly_ok _
  · exact raisesOnly_ok _

theorem raisesOnly_parseTransferNonce (v : Value) :
    RaisesOnly IsRefusal (parseTransferNonce h v) := by
  have hread : ∀ text, RaisesOnly IsRefusal (Value.str text).toInt := by
    intro text e he
    obtain htype | hrefusal := raisesOnly_toInt _ e he
    · unfold Value.toInt at he
      dsimp only at he
      split at he
      · nomatch he
      · exact Or.inl (Except.error.inj he ▸ rfl)
    · exact hrefusal
  unfold parseTransferNonce
  split
  · exact raisesOnly_value _
  · exact (raisesOnly_requireValue _).bind fun _ _ => raisesOnly_ok _
  · refine (raisesOnly_requireValue _).bind fun _ _ => ?_
    refine (raisesOnly_requireValue _).bind fun _ _ => ?_
    refine (hread _).bind fun _ _ => ?_
    exact (raisesOnly_requireValue _).bind fun _ _ => raisesOnly_ok _

theorem raisesOnly_normalizeTransferMemo (v : Value) :
    RaisesOnly IsRefusal (normalizeTransferMemo h v) := by
  unfold normalizeTransferMemo
  split
  · exact raisesOnly_ok _
  · dsimp only
    split
    · exact raisesOnly_ok _
    · exact (raisesOnly_requireValue _).bind fun _ _ => raisesOnly_ok _

theorem raisesOnly_normalizeNetworkId (v : Value) :
    RaisesOnly IsRefusal (normalizeNetworkId h v) := by
  unfold normalizeNetworkId
  split
  · dsimp only
    split
    · exact raisesOnly_ok _
    · exact raisesOnly_value _
  · exact raisesOnly_value _

theorem raisesOnly_resolveProtocolV1NetworkId :
    RaisesOnly IsRefusal (resolveProtocolV1NetworkId h networkName) := by
  have hresolve : RaisesOnly IsRefusal (resolveNetworkId networkName) := by
    unfold resolveNetworkId
    dsimp only
    split
    · exact raisesOnly_value _
    · split
      · exact raisesOnly_ok _
      · exact raisesOnly_value _
  refine hresolve.exceptValueError fun e he => ?_
  split
  · exact raisesOnly_normalizeNetworkId _
  · exact raisesOnly_error he

theorem raisesOnly_readSignedParts (payload : Dict) (network : String) :
    RaisesOnly IsRefusal (readSignedParts h payload network) := by
  unfold readSignedParts
  split
  · exact raisesOnly_value _
  · split
    · exact raisesOnly_value _
    · refine (raisesOnly_requireValue _).bind fun _ _ => ?_
      refine (raisesOnly_requireValue _).bind fun _ _ => ?_
      refine (raisesOnly_requireValue _).bind fun _ _ => ?_
      refine (raisesOnly_requireValue _).bind fun _ _ => ?_
      exact (raisesOnly_requireValue _).bind fun _ _ => raisesOnly_ok _

theorem raisesOnly_readSignedMessageHash (payload : Dict) (message : String) :
    RaisesOnly IsRefusal (readSignedMessageHash h payload message) := by
  unfold readSignedMessageHash
  refine (raisesOnly_requireValue _).bind fun _ _ => ?_
  refine (raisesOnly_requireValue _).bind fun _ _ => ?_
  exact (raisesOnly_requireValue _).bind fun _ _ => raisesOnly_ok _

theorem raisesOnly_readParsedFields (payload : Dict) (parts : SignedParts)
    (version : Option (Int × Int × String)) (hash : String) :
    RaisesOnly IsRefusal (readParsedFields h payload parts version hash) := by
  unfold readParsedFields
  refine (raisesOnly_parseNativeZoidAmount _ _).bind fun _ _ => ?_
  refine (raisesOnly_parseNativeZoidAmount _ _).bind fun _ _ => ?_
  refine (raisesOnly_parseTransferNonce _).bind fun _ _ => ?_
  refine (raisesOnly_normalizeTransferMemo _).bind fun _ _ => ?_
  exact (raisesOnly_parseTransferTimestamp _).bind fun _ _ => raisesOnly_ok _

theorem raisesOnly_readNetwork (payload : Dict) : RaisesOnly IsRefusal (readNetwork h payload) := by
  unfold readNetwork
  refine (raisesOnly_requireValue _).bind fun _ _ => ?_
  exact (raisesOnly_requireValue _).bind fun _ _ => raisesOnly_ok _

theorem raisesOnly_canonicalTransactionFieldsLegacy (payload : Dict) :
    RaisesOnly IsRefusal (canonicalTransactionFieldsLegacy h payload) := by
  unfold canonicalTransactionFieldsLegacy
  refine (raisesOnly_readNetwork _).bind fun _ _ => ?_
  refine (raisesOnly_readSignedParts _ _).bind fun _ _ => ?_
  refine (raisesOnly_readSignedMessageHash _ _).bind fun _ _ => ?_
  exact (raisesOnly_requireValue _).bind fun _ _ => raisesOnly_readParsedFields _ _ _ _

theorem raisesOnly_readVersion (v : Value) (supported : Int) (field : String) :
    RaisesOnly IsRefusal (readVersion v supported field) := by
  unfold readVersion
  split
  · exact (raisesOnly_requireValue _).bind fun _ _ => raisesOnly_ok _
  · exact raisesOnly_value _

theorem raisesOnly_canonicalTransactionFieldsV1 (payload : Dict) :
    RaisesOnly IsRefusal (canonicalTransactionFieldsV1 h payload) := by
  have hnetwork : RaisesOnly IsRefusal (readNetworkId h payload) := by
    unfold readNetworkId
    split
    · exact raisesOnly_value _
    · exact raisesOnly_normalizeNetworkId _
  unfold canonicalTransactionFieldsV1
  refine (raisesOnly_readNetwork _).bind fun _ _ => ?_
  refine (raisesOnly_readVersion _ _ _).bind fun _ _ => ?_
  refine (raisesOnly_readVersion _ _ _).bind fun _ _ => ?_
  refine hnetwork.bind fun _ _ => ?_
  refine (raisesOnly_readSignedParts _ _).bind fun _ _ => ?_
  refine (raisesOnly_requireValue _).bind fun _ _ => ?_
  exact (raisesOnly_readSignedMessageHash _ _).bind fun _ _ => raisesOnly_readParsedFields _ _ _ _

theorem raisesOnly_requireActiveNetwork (f : CanonicalFields) :
    RaisesOnly IsRefusal (requireActiveNetwork h networkName f) := by
  unfold requireActiveNetwork
  refine (raisesOnly_requireValue _).bind fun _ _ => ?_
  split
  · exact raisesOnly_resolveProtocolV1NetworkId.bind fun _ _ => raisesOnly_requireValue _
  · exact raisesOnly_ok _

mutual

theorem raisesOnly_canonicalJsonData : ∀ v : Value, RaisesOnly IsRefusal (canonicalJsonData v)
  | .null | .bool _ | .int _ | .str _ | .bytes _ => raisesOnly_ok _
  | .float .nan | .float (.inf _) | .float (.finite _) => raisesOnly_value _
  | .list xs => by
    rw [canonicalJsonData]
    exact (raisesOnly_canonicalJsonItems xs).bind fun _ _ => raisesOnly_ok _
  | .dict es => by
    rw [canonicalJsonData]
    refine (raisesOnly_requireValue _).bind fun _ _ => ?_
    exact (raisesOnly_canonicalJsonEntries es).bind fun _ _ => raisesOnly_ok _

theorem raisesOnly_canonicalJsonItems :
    ∀ xs : List Value, RaisesOnly IsRefusal (canonicalJsonItems xs)
  | [] => raisesOnly_ok _
  | x :: xs => by
    rw [canonicalJsonItems]
    refine (raisesOnly_canonicalJsonData x).bind fun _ _ => ?_
    exact (raisesOnly_canonicalJsonItems xs).bind fun _ _ => raisesOnly_ok _

theorem raisesOnly_canonicalJsonEntries :
    ∀ es : List (String × Value), RaisesOnly IsRefusal (canonicalJsonEntries es)
  | [] => raisesOnly_ok _
  | (_, v) :: es => by
    rw [canonicalJsonEntries]
    refine (raisesOnly_canonicalJsonData v).bind fun _ _ => ?_
    exact (raisesOnly_canonicalJsonEntries es).bind fun _ _ => raisesOnly_ok _

end

theorem raisesOnly_buildProtocolV1NativeTransferPayload
    (fromAddress toAddress amount fee nonce timestamp memo : Value) :
    RaisesOnly IsRefusal (buildProtocolV1NativeTransferPayload h fromAddress toAddress amount fee
      nonce timestamp memo) := by
  unfold buildProtocolV1NativeTransferPayload
  split
  · exact raisesOnly_value _
  · split
    · exact raisesOnly_value _
    · refine (raisesOnly_requireValue _).bind fun _ _ => ?_
      refine (raisesOnly_parseNativeZoidAmount _ _).bind fun _ _ => ?_
      refine (raisesOnly_parseNativeZoidAmount _ _).bind fun _ _ => ?_
      refine (raisesOnly_parseTransferNonce _).bind fun _ _ => ?_
      refine (raisesOnly_parseTransferTimestamp _).bind fun _ _ => ?_
      refine (raisesOnly_normalizeTransferMemo _).bind fun _ _ => ?_
      exact raisesOnly_canonicalJsonData _

theorem raisesOnly_buildDomainEnvelope (payload networkId : Value) (objectType : ObjectType) :
    RaisesOnly IsRefusal (buildDomainEnvelope h payload objectType networkId) := by
  unfold buildDomainEnvelope
  refine (raisesOnly_normalizeNetworkId _).bind fun _ _ => ?_
  exact (raisesOnly_canonicalJsonData _).bind fun _ _ => raisesOnly_ok _

theorem raisesOnly_canonicalJsonText (v : Value) : RaisesOnly IsRefusal (canonicalJsonText v) :=
  (raisesOnly_canonicalJsonData v).bind fun _ _ => raisesOnly_ok _

theorem raisesOnly_canonicalDomainHash (payload networkId : Value) (objectType : ObjectType) :
    RaisesOnly IsRefusal (canonicalDomainHash h payload objectType networkId) := by
  unfold canonicalDomainHash canonicalDomainBytes canonicalJsonBytes
  refine RaisesOnly.bind ?_ fun _ _ => raisesOnly_ok _
  refine (raisesOnly_buildDomainEnvelope _ _ _).bind fun _ _ => ?_
  exact (raisesOnly_canonicalJsonText _).bind fun _ _ => raisesOnly_ok _

theorem raisesOnly_computeTransactionId (f : CanonicalFields) :
    RaisesOnly IsRefusal (computeTransactionId h f) := by
  unfold computeTransactionId
  split
  · refine (raisesOnly_canonicalTransactionFieldsLegacy _).bind fun fields _ => ?_
    have hdumps : RaisesOnly IsRefusal (Json.dumps true (.dict fields.toDict)) := by
      have hserializable : Json.serializable (.dict fields.toDict) = true := by
        unfold CanonicalFields.toDict optionText
        cases fields.memo <;> rfl
      rw [Json.dumps, if_pos hserializable]
      exact raisesOnly_ok _
    exact hdumps.bind fun _ _ => raisesOnly_ok _
  · refine (raisesOnly_requireValue _).bind fun _ _ => ?_
    split
    · exact raisesOnly_value _
    · unfold calculateProtocolV1TransactionId buildProtocolV1TransactionIdentityPayload
      refine (raisesOnly_buildProtocolV1NativeTransferPayload _ _ _ _ _ _ _).bind fun _ _ => ?_
      refine (raisesOnly_normalizeNetworkId _).bind fun _ _ => ?_
      exact raisesOnly_canonicalDomainHash _ _ _

theorem raisesOnly_readTxId (payload : Dict) (f : CanonicalFields) :
    RaisesOnly IsRefusal (readTxId h payload f) := by
  unfold readTxId
  dsimp only
  split
  · split
    · exact raisesOnly_value _
    · refine (raisesOnly_computeTransactionId f).bind fun _ _ => ?_
      exact (raisesOnly_requireValue _).bind fun _ _ => raisesOnly_ok _
  · exact raisesOnly_computeTransactionId f

theorem raisesOnly_parseOptionalTimestamp (v : Value) :
    RaisesOnly IsRefusal (parseOptionalTimestamp h v) := by
  unfold parseOptionalTimestamp
  split
  · exact (raisesOnly_parseTransferTimestamp _).bind fun _ _ => raisesOnly_ok _
  · exact raisesOnly_ok _

theorem raisesOnly_validateTransactionShape (payload : Dict) :
    RaisesOnly IsRefusal (validateTransactionShape h networkName payload) := by
  have hfields : RaisesOnly IsRefusal (readCanonicalFields h payload) := by
    unfold readCanonicalFields
    split
    · exact (raisesOnly_requireValue _).bind fun _ _ =>
        raisesOnly_canonicalTransactionFieldsLegacy _
    · exact raisesOnly_canonicalTransactionFieldsV1 _
  have hstatus : RaisesOnly IsRefusal (normalizeTransactionStatus h (payload.get "status")) := by
    unfold normalizeTransactionStatus
    exact (raisesOnly_requireValue _).bind fun _ _ => raisesOnly_ok _
  unfold validateTransactionShape
  refine hfields.bind fun f _ => ?_
  refine (raisesOnly_requireActiveNetwork f).bind fun _ _ => ?_
  refine hstatus.bind fun _ _ => ?_
  refine (raisesOnly_readTxId payload f).bind fun _ _ => ?_
  refine (raisesOnly_parseTransferTimestamp _).bind fun _ _ => ?_
  refine (raisesOnly_parseTransferTimestamp _).bind fun _ _ => ?_
  refine (raisesOnly_parseOptionalTimestamp _).bind fun _ _ => ?_
  refine (raisesOnly_readIncludedBlockHeight _).bind fun _ _ => ?_
  exact (raisesOnly_parseOptionalTimestamp _).bind fun _ _ => raisesOnly_ok _

theorem raisesOnly_transactionError {c : Prop} [Decidable c] (code message : String) :
    RaisesOnly IsRefusal (require c (transactionError code message)) :=
  raisesOnly_require (Or.inl rfl)

theorem raisesOnly_verifyTransferSignature (message signature expected : String) :
    RaisesOnly IsRefusal (verifyTransferSignature h message signature expected) := by
  have hrecover : RaisesOnly IsRefusal (recoverSignedWalletAddress h message signature) := by
    unfold recoverSignedWalletAddress
    split
    · exact raisesOnly_value _
    · split
      · exact raisesOnly_value _
      · exact raisesOnly_ok _
  unfold verifyTransferSignature
  split
  · exact raisesOnly_value _
  · refine (raisesOnly_requireValue _).bind fun _ _ => ?_
    refine (raisesOnly_requireValue _).bind fun _ _ => ?_
    exact hrecover.bind fun _ _ => raisesOnly_requireValue _

/-- A validation raises a `ValueError` or an `OverflowError`. -/
theorem raisesOnly_validateIdentity (transaction : Dict) :
    RaisesOnly IsRefusal (validateIdentity h networkName transaction) := by
  have hcheck : RaisesOnly IsRefusal (checkIdentity h networkName transaction) := by
    unfold checkIdentity buildProtocolV1NativeTransferMessage
    refine (raisesOnly_validateTransactionShape _).bind fun _ _ => ?_
    refine (raisesOnly_transactionError _ _).bind fun _ _ => ?_
    refine (raisesOnly_transactionError _ _).bind fun _ _ => ?_
    refine raisesOnly_resolveProtocolV1NetworkId.bind fun _ _ => ?_
    refine (raisesOnly_transactionError _ _).bind fun _ _ => ?_
    refine (raisesOnly_transactionError _ _).bind fun _ _ => ?_
    refine (raisesOnly_transactionError _ _).bind fun _ _ => ?_
    refine RaisesOnly.bind ?_ fun _ _ => ?_
    · refine (raisesOnly_buildProtocolV1NativeTransferPayload _ _ _ _ _ _ _).bind fun _ _ => ?_
      refine (raisesOnly_normalizeNetworkId _).bind fun _ _ => ?_
      refine (raisesOnly_buildDomainEnvelope _ _ _).bind fun _ _ => ?_
      exact raisesOnly_canonicalJsonText _
    · refine (raisesOnly_transactionError _ _).bind fun _ _ => ?_
      refine RaisesOnly.bind ?_ fun _ _ => raisesOnly_ok _
      exact (raisesOnly_verifyTransferSignature _ _ _).exceptValueError fun _ _ =>
        raisesOnly_error (Or.inl rfl)
  refine hcheck.exceptValueError fun e he => raisesOnly_error ?_
  split
  · exact he
  · exact Or.inl rfl

/-! ## When the ledger is restored -/

/-- No validation of a transaction raises `OverflowError`. -/
def NoOverflow (h : Host) (networkName : String) (rawTransactions : List Value) : Prop :=
  ∀ transaction, .dict transaction ∈ rawTransactions → ∀ e,
    validateSignedNativeTransaction h networkName (.dict transaction) = .error e →
      e.exc ≠ .overflowError

theorem settles_iff_noOverflow {rawTransactions : List Value} :
    (∀ raw ∈ rawTransactions, Settles h networkName raw) ↔
      NoOverflow h networkName rawTransactions := by
  constructor
  · intro hsettles transaction hmem e he hoverflow
    have hvalue := hsettles _ hmem transaction rfl e he
    simp [PyError.isValueError, hoverflow] at hvalue
  · rintro hno _ hmem transaction rfl e he
    have hrefusal := raisesOnly_validateIdentity transaction e
      (validateSignedNativeTransaction_dict transaction ▸ he)
    exact hrefusal.resolve_right (hno transaction hmem e he)

/-- A host whose calendar begins with the first day of year 1 in UTC. -/
def sampleHost : Host where
  toRuntime := { asciiRuntime with repr := fun _ => "[]" }
  sha256Hex := (Host.sample none none).sha256Hex
  sha256Hex_isHex64 := (Host.sample none none).sha256Hex_isHex64
  recoverMessage _ _ := none
  fromIsoformat s := if s = "0001-01-01T00:00:00+01:00" then .outOfRange else .malformed
  fromIsoformat_utc s t h := by split at h <;> cases h
  fromTimestamp _ := .ok ""
  jsonLoads _ := none

def sampleIds (_ : Nat) : String := "0123456789abcdef0123456789abcdef"

theorem reprNonempty_sample : ReprNonempty sampleHost.toRuntime :=
  fun _ => (by decide : "[]" ≠ "")

theorem freshIds_sample : FreshIds sampleHost sampleIds 1 [.null] where
  hex _ := (by decide +kernel : (sampleIds 0).toList.length = 32 ∧
    (sampleIds 0).toList.all isLowerHex = true)
  distinct j hj k hk _ := by omega
  unused _ hmem := by simp at hmem

/-- A record in front of the calendar: its time is one hour before the first day in UTC. -/
def earlyTransaction : Dict :=
  [("network", .str "zoidberg-testnet"), ("transaction_type", .str "native_transfer"),
    ("from_address", .str "0x1111111111111111111111111111111111111111"),
    ("to_address", .str "0x2222222222222222222222222222222222222222"), ("amount", .str "1"),
    ("fee", .str "0"), ("nonce", .str "1"), ("timestamp", .str "0001-01-01T00:00:00+01:00"),
    ("signature", .str "0x00"), ("signature_scheme", .str "personal_sign"),
    ("signed_message", .str "hello"),
    ("signed_message_hash",
      .str "aaaaaaaaaaaaaaaaaaaaaaaaaaaaaaaaaaaaaaaaaaaaaaaaaaaaaaaaaaaaaaaa")]

end NativeRestore

end ZoidbergChain
