import ZoidbergChain.CanonicalV3.Finality
import ZoidbergChain.CanonicalV3.Media
import ZoidbergChain.Python.Table

/-!
# The store of canonical blocks

canonical_v3/storage.py: the tables of a store, and its operations. The block bytes and the
finality evidence are what the store holds for good; the indexes and the selected chain are
derived from them.

- `insert`, `selectChain`, `finalize` and `rebuildIndexes` change the tables.
- `get`, the look-ups, `isFinalized` and `checkIntegrity` read them.

A database error leaves the tables as they were, so an operation is its result and the next
tables.
-/

namespace ZoidbergChain

open Python

namespace CanonicalV3

theorem lawfulBEq_entry : LawfulBEq (Int × String) := inferInstance

attribute [local instance] lawfulBEq_entry

/-! ## Exceptions -/

/-- What an operation of a store raises. -/
inductive StoreError where
  /-- `V3Error`, and what reading a malformed proof raises. -/
  | raised (e : PyError)
  /-- `MediaRejected`. -/
  | mediaRejected (outcome : Outcome)
  /-- `StorageCorruption`. -/
  | corruption (message : String)
  /-- `StorageUnavailable`. -/
  | unavailable (message : String) (outcome : Outcome)
  /-- `RecordConflict`. -/
  | conflict (message : String)
  /-- `ChainSelectionError`. -/
  | selection (message : String)
  deriving DecidableEq

/-- What an operation ends in. -/
abbrev Stored := Except StoreError

/-- A call that may raise outside the store. -/
def lift {α : Type} (x : Py α) : Stored α :=
  match x with
  | .ok a => .ok a
  | .error e => .error (.raised e)

/-- `if not p: raise e`. -/
def check (p : Prop) [Decidable p] (e : StoreError) : Stored Unit := if p then .ok () else .error e

/-! ## Tables -/

/-- A row of `block_index`. -/
structure IndexRow where
  hash : String
  height : Int
  previousHash : String
  originalHash : String
  deriving DecidableEq

/-- A row of `transaction_index`. -/
structure TransactionRow where
  blockHash : String
  position : Nat
  txId : String
  deriving DecidableEq

/-- A row of `finality`. -/
structure FinalityRow where
  hash : String
  proof : ByteArray
  trust : ByteArray
  deriving DecidableEq

/-- The tables of a store. -/
structure Tables where
  blocks : Table String ByteArray := []
  blockIndex : List IndexRow := []
  transactionIndex : List TransactionRow := []
  canonicalChain : List (Int × String) := []
  finality : List FinalityRow := []
  selectedTip : Option String := none
  deriving DecidableEq

/-- The context and the anchor of a store, with the checks of `__init__`. -/
structure StoreConfig where
  ctx : Context
  anchorHeight : Int
  anchorHash : String
  anchorHeight_valid : 0 ≤ anchorHeight ∧ anchorHeight ≤ maxUint
  anchorHash_valid : isHexAfter "" 64 anchorHash = true
  genesis : anchorHeight = 0 → anchorHash = ctx.genesisHash

/-! ## Records -/

/-- `record['hash']`. -/
def recordHash (record : Value) : String := record.textAt "hash"

/-- `record['envelope']['payload']`. -/
def recordPayload (record : Value) : Value := (record.field "envelope").field "payload"

/-- `_derived`. -/
def derived (record : Value) : IndexRow :=
  { hash := recordHash record
    height := (recordPayload record).intAt "index"
    previousHash := (recordPayload record).textAt "previous_hash"
    originalHash := ((recordPayload record).field "media").textAt "original_sha256" }

/-- `_transactions`. -/
def transactionRows (record : Value) : List TransactionRow :=
  ((recordPayload record).field "native_transactions").items.zipIdx.map fun (tx, position) =>
    { blockHash := recordHash record, position, txId := tx.textAt "tx_id" }

variable (crypto : Crypto) (store : StoreConfig) (workers : Workers)

/-- `_verify`. -/
def verify (raw : ByteArray) (stored : Bool) : Stored Value :=
  match parseRecord crypto store.ctx raw with
  | .error e =>
    if stored ∧ e.exc = .v3Error then
      .error (.corruption ("stored canonical record: " ++ e.code.getD ""))
    else .error (.raised e)
  | .ok record =>
    let outcome := reconstruct crypto workers ((recordPayload record).field "media")
    match outcome.status with
    | .indeterminate => .error (.unavailable "isolated decoder local failure" outcome)
    | .invalid =>
      if stored then .error (.corruption "stored media failed integrity verification")
      else .error (.mediaRejected outcome)
    | .valid => .ok record

variable (db : Tables)

/-- `_load`: the bytes and the record of a block, if it is stored. -/
def load (hash : String) (indexes : Bool) : Stored (Option (ByteArray × Value)) :=
  match db.blocks.get? hash with
  | none => .ok none
  | some raw => do
    check (1 ≤ raw.size ∧ raw.size ≤ maxRecord) (.corruption "stored canonical BLOB type/size")
    let record ← verify crypto store workers raw true
    check (recordHash record = hash)
      (.corruption "block primary key disagrees with authenticated hash")
    check (indexes = true →
        db.blockIndex.find? (·.hash = hash) = some (derived record) ∧
        (db.transactionIndex.filter (·.blockHash = hash)).insertionSort
          (fun a b => a.position ≤ b.position) = transactionRows record)
      (.corruption "derived block/transaction index mismatch")
    .ok (some (raw, record))

/-- The database raises `IntegrityError`. -/
def integrityError : StoreError := .corruption "local SQLite operation failed"

/-- `_put_indexes`, with the primary keys of the two tables. -/
def putIndexes (record : Value) : Stored Tables := do
  check (db.blockIndex.all fun row => row.hash ≠ recordHash record) integrityError
  check (db.transactionIndex.all fun row => (transactionRows record).all fun new =>
    ¬ (row.blockHash = new.blockHash ∧ row.position = new.position)) integrityError
  .ok { db with
    blockIndex := db.blockIndex ++ [derived record]
    transactionIndex := db.transactionIndex ++ transactionRows record }

/-- `insert`: whether the block is new. -/
def insert (raw : ByteArray) : Stored (Bool × Tables) := do
  let record ← verify crypto store workers raw false
  match db.blocks.get? (recordHash record) with
  | some existing =>
    check (existing = raw)
      (.conflict "same block hash has different canonical bytes; preserved existing record")
    let _ ← load crypto store workers db (recordHash record) true
    .ok (false, db)
  | none =>
    let db ← putIndexes { db with blocks := db.blocks ++ [(recordHash record, raw)] } record
    .ok (true, db)

/-! ## Look-ups -/

/-- `get`. -/
def get (hash : String) : Stored (Option ByteArray) := do
  let _ ← lift (h64 (.str hash))
  let loaded ← load crypto store workers db hash true
  .ok (loaded.map Prod.fst)

/-- The stored bytes of blocks that an index names. -/
def loadAll (hashes : List String) (message : String) : Stored (List ByteArray) :=
  hashes.mapM fun hash => do
    match ← load crypto store workers db hash true with
    | none => .error (.corruption message)
    | some (raw, _) => .ok raw

/-- `_lookup`, for the rows that a column selects. -/
def lookup (column : IndexRow → Bool) : Stored (List ByteArray) :=
  loadAll crypto store workers db
    (((db.blockIndex.filter column).map IndexRow.hash).insertionSort (· ≤ ·))
    "index points to missing block"

/-- `candidates_at_height`. -/
def candidatesAtHeight (height : Int) : Stored (List ByteArray) := do
  let _ ← lift (uint (.int height) 1 maxUint)
  lookup crypto store workers db fun row => row.height = height

/-- `by_previous_hash`. -/
def byPreviousHash (previousHash : String) : Stored (List ByteArray) := do
  let _ ← lift (h64 (.str previousHash))
  lookup crypto store workers db fun row => row.previousHash = previousHash

/-- `by_original_hash`. -/
def byOriginalHash (originalHash : String) : Stored (List ByteArray) := do
  let _ ← lift (h64 (.str originalHash))
  lookup crypto store workers db fun row => row.originalHash = originalHash

/-- `by_transaction`. -/
def byTransaction (txId : String) : Stored (List ByteArray) := do
  let _ ← lift (h64 (.str txId))
  loadAll crypto store workers db
    (Bft.sortedSet ((db.transactionIndex.filter (·.txId = txId)).map TransactionRow.blockHash))
    "transaction index points to missing block"

/-! ## The selected chain -/

theorem mem_of_load {hash : String} {indexes : Bool} {loaded : ByteArray × Value}
    (h : load crypto store workers db hash indexes = .ok (some loaded)) :
    hash ∈ db.blocks.keys := by
  by_contra hnone
  rw [load, Table.get?_eq_none.mpr hnone] at h
  cases h

/-- The walk of `_lineage`: `chain` holds what has been read, the last block first. -/
def walk (indexes : Bool) (chain : List (Int × String)) (seen : List String) (cursor : String) :
    Stored (List (Int × String)) :=
  if cursor = store.anchorHash then .ok chain
  else if _ : cursor ∈ seen then .error (.selection "cyclic candidate lineage")
  else
    match _ : load crypto store workers db cursor indexes with
    | .error e => .error e
    | .ok none => .error (.selection "missing candidate ancestor")
    | .ok (some (_, record)) =>
      let row := derived record
      if row.height ≤ store.anchorHeight ∨ ∃ e ∈ chain.head?, row.height ≠ e.1 - 1 then
        .error (.selection "noncontiguous candidate heights")
      else walk indexes ((row.height, cursor) :: chain) (cursor :: seen) row.previousHash
termination_by (db.blocks.keys.filter (· ∉ seen)).length
decreasing_by
  have hseen : cursor ∉ seen := ‹_›
  have hmem : cursor ∈ db.blocks.keys := mem_of_load crypto store workers db ‹_›
  have hsub : (db.blocks.keys.filter (· ∉ cursor :: seen)) =
      (db.blocks.keys.filter (· ∉ seen)).filter (· ≠ cursor) := by
    rw [List.filter_filter]
    exact List.filter_congr fun x _ => by simp [not_or]
  rw [hsub]
  exact List.length_filter_lt_length_iff_exists.mpr
    ⟨cursor, List.mem_filter.mpr ⟨hmem, by simpa using hseen⟩, by simp⟩

/-- `_lineage`. -/
def lineage (tip : Option String) (indexes : Bool) : Stored (List (Int × String)) :=
  match tip with
  | none => .ok []
  | some tip => do
    let chain ← walk crypto store workers db indexes [] [] tip
    check (chain.head?.map Prod.fst = some (store.anchorHeight + 1))
      (.selection "candidate does not descend from trusted anchor")
    .ok chain

/-- The texts of a list. -/
def texts (v : Value) : Py (List String) :=
  match v with
  | .list xs => xs.mapM fun x => pattern x fun _ => true
  | _ => .error (.type "a list of texts")

/-- The trusted validators and the equivocators that a proof is kept with. Every exception ends
in one `StorageCorruption`, so a value of a wrong type may raise any of them. -/
def trustContext (trust : Value) : Py (List String × List String) := do
  let _ ← closed trust ["validators", "equivocators"] []
  let validators ← texts (trust.field "validators")
  let equivocators ← texts (trust.field "equivocators")
  require (equivocators = Bft.sortedSet equivocators)
    { exc := .valueError, message := "noncanonical retained trust context" }
  .ok (validators, equivocators)

/-- The height of the block that retained evidence finalizes. -/
def retained (row : FinalityRow) : Py Int := do
  let proof ← parse row.proof maxProof
  let trust ← parse row.trust 32768
  let (validators, equivocators) ← trustContext trust
  let height ← proof.item "block_height"
  validateFinalityProof crypto store.ctx proof validators equivocators height (.str row.hash)
  .ok (proof.intAt "block_height")

/-- `_proofs`. -/
def proofs : Stored (List (Int × String)) :=
  db.finality.mapM fun row => do
    check (1 ≤ row.proof.size ∧ row.proof.size ≤ maxProof ∧
      1 ≤ row.trust.size ∧ row.trust.size ≤ 32768) (.corruption "finality evidence size")
    let height ← (retained crypto store row).mapError fun _ =>
      StoreError.corruption "retained finality evidence is invalid"
    .ok (height, row.hash)

/-- The handler of `ChainSelectionError` in `_selected`. -/
def historyError (e : StoreError) : StoreError :=
  match e with
  | .selection _ => .corruption "selected history is missing or damaged"
  | e => e

/-- `_selected`. -/
def selected (indexes compare : Bool) : Stored (List (Int × String)) := do
  let chain ← (lineage crypto store workers db db.selectedTip indexes).mapError historyError
  check (compare = true → db.canonicalChain.insertionSort (fun a b => a.1 ≤ b.1) = chain)
    (.corruption "canonical membership index mismatch")
  let proofs ← proofs crypto store db
  check (∀ e ∈ proofs, e ∈ chain) (.corruption "finalized target missing from selected history")
  .ok chain

/-- `selected_tip`. -/
def selectedTip : Stored (Option String) := do
  let chain ← selected crypto store workers db true true
  .ok (chain.getLast?.map Prod.snd)

/-- `get_by_height`. -/
def getByHeight (height : Int) : Stored (Option ByteArray) := do
  let _ ← lift (uint (.int height) 1 maxUint)
  let chain ← selected crypto store workers db true true
  match chain.find? (·.1 = height) with
  | none => .ok none
  | some (_, hash) => do
    match ← load crypto store workers db hash true with
    | none => .error (.raised (.type "'NoneType' object is not subscriptable"))
    | some (raw, _) => .ok (some raw)

/-- `if tip is not None: h64(tip)`. -/
def checkTip (tip : Option String) : Stored Unit :=
  match tip with
  | none => .ok ()
  | some tip => (lift (h64 (.str tip))).map fun _ => ()

/-- `select_chain`. -/
def selectChain (tip expectedTip : Option String) : Stored Tables := do
  checkTip tip
  let old ← selected crypto store workers db true true
  check (old.getLast?.map Prod.snd = expectedTip) (.selection "stale selected tip")
  let chain ← lineage crypto store workers db tip true
  let proofs ← proofs crypto store db
  check (∀ e ∈ proofs, e ∈ chain) (.selection "cannot replace finalized history")
  .ok { db with canonicalChain := chain, selectedTip := tip }

/-! ## Finality -/

/-- `canonical(dict(validators=..., equivocators=...))`. -/
def trustBytes (trusted equivocators : List String) : Py ByteArray :=
  canonical (.dict [("validators", .list (trusted.map .str)),
    ("equivocators", .list ((Bft.sortedSet equivocators).map .str))])

/-- `finalize`, for texts as the trusted validators and as the elements of the set of
equivocators: whether the evidence is new. -/
def finalize (proofRaw : ByteArray) (trusted equivocators : List String) :
    Stored (Bool × Tables) := do
  let proof ← lift (parse proofRaw maxProof)
  let height ← lift (proof.item "block_height")
  let hash ← lift (proof.item "block_hash")
  lift (validateFinalityProof crypto store.ctx proof trusted equivocators height hash)
  let trust ← lift (trustBytes trusted equivocators)
  let chain ← selected crypto store workers db true true
  let hash := proof.textAt "block_hash"
  check ((proof.intAt "block_height", hash) ∈ chain) (.selection "finality target is not selected")
  match db.finality.find? (·.hash = hash) with
  | some existing => do
    check (existing.proof = proofRaw ∧ existing.trust = trust)
      (.conflict "different retained proof/context for finalized target")
    .ok (false, db)
  | none => do
    -- the CHECK of the table
    check (trust.size ≤ 32768) integrityError
    .ok (true, { db with finality := db.finality ++ [⟨hash, proofRaw, trust⟩] })

/-- `max(heights, default=anchor_height)`. -/
def boundary (heights : List Int) : Int :=
  match heights with
  | [] => store.anchorHeight
  | height :: heights => heights.foldl max height

/-- `is_finalized`. -/
def isFinalized (hash : String) : Stored Bool := do
  let _ ← lift (h64 (.str hash))
  let chain ← selected crypto store workers db true true
  let proofs ← proofs crypto store db
  .ok (chain.any fun e => e.2 = hash ∧ e.1 ≤ boundary store (proofs.map Prod.fst))

/-! ## Integrity -/

/-- The references of the tables, as `foreign_key_check` follows them. -/
def ForeignKeys : Prop :=
  (∀ row ∈ db.blockIndex, row.hash ∈ db.blocks.keys) ∧
  (∀ row ∈ db.transactionIndex, row.blockHash ∈ db.blocks.keys) ∧
  (∀ e ∈ db.canonicalChain, e.2 ∈ db.blocks.keys) ∧
  (∀ row ∈ db.finality, row.hash ∈ db.blocks.keys) ∧
  ∀ tip ∈ db.selectedTip, tip ∈ db.blocks.keys

instance : Decidable (ForeignKeys db) := inferInstanceAs (Decidable (_ ∧ _))

/-- The result of `_integrity`. -/
structure Integrity where
  blocks : Nat
  nativeTransactionReferences : Nat
  selectedBlocks : Nat
  finalityProofs : Nat
  deriving DecidableEq

/-- The transactions of a stored block. -/
def countTransactions (hash : String) : Stored Nat := do
  match ← load crypto store workers db hash true with
  | none => .error (.raised (.type "'NoneType' object is not subscriptable"))
  | some (_, record) => .ok (transactionRows record).length

/-- `_integrity`. -/
def checkIntegrity : Stored Integrity := do
  check (ForeignKeys db) (.corruption "SQLite foreign_key_check failed")
  let counts ← db.blocks.keys.mapM (countTransactions crypto store workers db)
  check (db.blockIndex.length = counts.length ∧ db.transactionIndex.length = counts.sum)
    (.corruption "orphaned derived rows")
  let chain ← selected crypto store workers db true true
  let proofs ← proofs crypto store db
  .ok ⟨counts.length, counts.sum, chain.length, proofs.length⟩

/-- The loop of `rebuild_indexes`, over the stored blocks. -/
def reindex (hashes : List String) (db : Tables) : Stored Tables :=
  hashes.foldlM (fun db hash => do
    match ← load crypto store workers db hash false with
    | none => .error (.raised (.type "'NoneType' object is not subscriptable"))
    | some (_, record) => putIndexes db record) db

/-- `rebuild_indexes`. -/
def rebuildIndexes : Stored (Integrity × Tables) := do
  let chain ← selected crypto store workers db false false
  let db ← reindex crypto store workers db.blocks.keys
    { db with blockIndex := [], transactionIndex := [] }
  let db := { db with canonicalChain := chain }
  let report ← checkIntegrity crypto store workers db
  .ok (report, db)

end CanonicalV3

end ZoidbergChain
