import ZoidbergChain.Python.Control
import ZoidbergChain.Python.Table
import ZoidbergChain.Python.Text

/-!
# The native transaction tables

The tables `native_transaction_records` and `native_transaction_lifecycle_transitions` of
`storage.py`, and the save of a whole document into them.

- `upsert` writes one record: the primary key, the partial unique index on the active
  (sender, nonce) and the lifecycle trigger raise, and a change of state appends to the audit
  table.
- `synchronize` brings the tables to a list of records. Given the previous list it writes the
  records that differ from it, without one it writes them all.

A record states its status and its signing time, as every record of the ledger does. The
signed fields that no statement reads are one canonical text, and the columns that only repeat
a field of the record are left out. `maxVariables` is the number of parameters that the SQLite
library binds in one statement.
-/

namespace ZoidbergChain

open Python

namespace NativeLifecycle

/-! ## Lifecycle states -/

/-- `NATIVE_TRANSACTION_LIFECYCLE_STATES`. -/
inductive LifecycleState where
  | signedPending
  | validatedPending
  | mempool
  | included
  | settled
  | finalized
  | rejected
  | failed
  | expired
  deriving DecidableEq

/-- `NATIVE_TRANSACTION_ACTIVE_STATES`. -/
def LifecycleState.isActive : LifecycleState → Bool
  | .signedPending | .validatedPending | .mempool | .included | .settled | .finalized => true
  | .rejected | .failed | .expired => false

/-- `native_transaction_lifecycle_transitions` of the ledger service. -/
def transitions : LifecycleState → List LifecycleState
  | .signedPending => [.validatedPending, .mempool, .settled, .rejected, .failed, .expired]
  | .validatedPending => [.mempool, .settled, .rejected, .failed, .expired]
  | .mempool => [.validatedPending, .settled, .rejected, .failed, .expired]
  | .included => [.settled, .validatedPending, .mempool, .rejected, .finalized]
  | .settled => [.validatedPending, .mempool, .rejected, .finalized]
  | .rejected => [.settled]
  | .failed => [.settled]
  | .expired => [.settled]
  | .finalized => []

/-- `validate_native_transaction_lifecycle_transition` passes. -/
def allowsTransition (current target : LifecycleState) : Bool :=
  current = target || target ∈ transitions current

/-- The condition of the trigger `native_transaction_lifecycle_guard`, negated. -/
def guardAllows (old new : LifecycleState) : Bool :=
  new = old ||
    (old = .signedPending && (new = .validatedPending || new = .mempool || new = .settled ||
      new = .rejected || new = .failed || new = .expired)) ||
    (old = .validatedPending && (new = .mempool || new = .settled || new = .rejected ||
      new = .failed || new = .expired)) ||
    (old = .mempool && (new = .validatedPending || new = .settled || new = .rejected ||
      new = .failed || new = .expired)) ||
    (old = .included && (new = .settled || new = .validatedPending || new = .mempool ||
      new = .rejected || new = .finalized)) ||
    (old = .settled && (new = .validatedPending || new = .mempool || new = .rejected ||
      new = .finalized)) ||
    (old = .rejected && new = .settled) ||
    (old = .failed && new = .settled) ||
    (old = .expired && new = .settled)

/-- The trigger and the service allow the same changes. -/
theorem guardAllows_eq (old new : LifecycleState) :
    guardAllows old new = allowsTransition old new := by
  cases old <;> cases new <;> rfl

/-! ## Records and rows -/

/-- A native transaction of the document. -/
structure NativeRecord where
  txId : String
  fromAddress : String
  nonce : String
  timestamp : String
  /-- The canonical text of the other signed fields. -/
  signed : String
  status : LifecycleState
  rejectionReason : Option String := none
  createdAt : Option String := none
  updatedAt : Option String := none
  admittedAt : Option String := none
  includedBlockHash : Option String := none
  includedBlockHeight : Option Int := none
  settledAt : Option String := none
  deriving DecidableEq

/-- `_native_transaction_immutable_payload`. -/
structure ImmutablePayload where
  txId : String
  fromAddress : String
  nonce : String
  timestamp : String
  signed : String
  deriving DecidableEq

def NativeRecord.immutablePayload (r : NativeRecord) : ImmutablePayload :=
  { txId := r.txId, fromAddress := r.fromAddress, nonce := r.nonce, timestamp := r.timestamp,
    signed := r.signed }

/-- `str(value or "").strip().lower()`. -/
def normalize (s : String) : String := (strip s).toLower

def NativeRecord.id (r : NativeRecord) : String := normalize r.txId

/-- `value or other`. -/
def orText (s : Option String) (other : String) : String := (s.filter (· != "")).getD other

/-- A row, with the whole record as its `transaction_json`. -/
structure Row where
  txId : String
  immutablePayload : ImmutablePayload
  record : NativeRecord
  sender : String
  nonce : String
  state : LifecycleState
  createdAt : String
  updatedAt : String
  deriving DecidableEq

/-- The columns of a record; `clock` is what `_utc_now_iso` reads. -/
def columns (clock : String) (r : NativeRecord) : Row :=
  let createdAt := orText r.createdAt (orText (some r.timestamp) clock)
  { txId := r.id
    immutablePayload := r.immutablePayload
    record := r
    sender := normalize r.fromAddress
    nonce := strip r.nonce
    state := r.status
    createdAt
    updatedAt := orText r.updatedAt createdAt }

def corruption (message : String) : PyError := { exc := .storageCorruptionError, message }

def integrity (message : String) : PyError := { exc := .integrityError, message }

def incomplete : PyError :=
  corruption "Native transaction record is missing tx_id, sender, or nonce."

/-- `_native_record_values`. -/
def nativeRecordValues (clock : String) (r : NativeRecord) : Py Row := do
  require (r.id ≠ "" ∧ normalize r.fromAddress ≠ "" ∧ strip r.nonce ≠ "") incomplete
  .ok (columns clock r)

/-- A row of `native_transaction_lifecycle_transitions`. -/
structure AuditRow where
  txId : String
  sequence : Nat
  fromState : Option LifecycleState
  toState : LifecycleState
  transitionedAt : String
  rejectionReason : Option String
  deriving DecidableEq

/-- The two tables; the records by their primary key. -/
structure Tables where
  records : Table String Row := []
  audit : List AuditRow := []
  deriving DecidableEq

/-! ## One record -/

/-- The unique index `active_native_transaction_sender_nonce`. -/
def requireFreeNonce (records : Table String Row) (row : Row) : Py Unit :=
  require (row.state.isActive → ∀ e ∈ records, e.2.state.isActive → e.2.sender = row.sender →
      e.2.nonce = row.nonce → e.1 = row.txId)
    (integrity ("UNIQUE constraint failed: native_transaction_records.sender, " ++
      "native_transaction_records.nonce"))

/-- `INSERT INTO native_transaction_lifecycle_transitions`. -/
def insertAudit (audit : List AuditRow) (a : AuditRow) : Py (List AuditRow) := do
  require (∀ b ∈ audit, b.txId = a.txId → b.sequence ≠ a.sequence)
    (integrity ("UNIQUE constraint failed: native_transaction_lifecycle_transitions.tx_id, " ++
      "native_transaction_lifecycle_transitions.transition_sequence"))
  .ok (audit ++ [a])

/-- `SELECT COALESCE(MAX(transition_sequence), 0) + 1`. -/
def nextSequence (audit : List AuditRow) (txId : String) : Nat :=
  ((audit.filter fun a => a.txId = txId).map AuditRow.sequence).foldr max 0 + 1

/-- `_upsert_native_transaction_record`. -/
def upsert (clock : String) (t : Tables) (r : NativeRecord) : Py Tables := do
  let row ← nativeRecordValues clock r
  match t.records.get? row.txId with
  | none => do
    requireFreeNonce t.records row
    let audit ← insertAudit t.audit
      { txId := row.txId, sequence := 1, fromState := none, toState := row.state
        transitionedAt := row.createdAt, rejectionReason := r.rejectionReason }
    .ok { records := t.records.set row.txId row, audit }
  | some old => do
    require (old.immutablePayload = row.immutablePayload)
      { exc := .storageUniquenessError
        message := "Native transaction " ++ row.txId ++
          " conflicts with its durable signed identity." }
    require (guardAllows old.state row.state)
      (integrity "illegal native transaction lifecycle transition")
    requireFreeNonce t.records row
    if old.state = row.state then .ok { t with records := t.records.set row.txId row }
    else do
      let audit ← insertAudit t.audit
        { txId := row.txId, sequence := nextSequence t.audit row.txId
          fromState := some old.state, toState := row.state
          transitionedAt := row.updatedAt, rejectionReason := r.rejectionReason }
      .ok { records := t.records.set row.txId row, audit }

/-! ## One document -/

/-- One pass of the loop that drops repeated records, after the record's own check. -/
def addNormalized (check : NativeRecord → Py Unit) (normalized : List NativeRecord)
    (r : NativeRecord) : Py (List NativeRecord) := do
  check r
  match normalized.find? fun q => q.id = r.id with
  | some existing => do
    require (existing.immutablePayload = r.immutablePayload)
      { exc := .storageUniquenessError
        message := "Native transaction " ++ r.id ++
          " appears with conflicting signed payloads." }
    .ok normalized
  | none => .ok (normalized ++ [r])

def tooManyVariables : PyError :=
  { exc := .operationalError, message := "too many SQL variables" }

/-- The writes of the changed records: the inactive ones first, to release their nonces. -/
def writeChanged (clock : String) (t : Tables) (changed : List NativeRecord) : Py Tables :=
  (changed.filter (fun r => !r.status.isActive) ++ changed.filter fun r => r.status.isActive).foldlM
    (upsert clock) t

/-- `DELETE FROM native_transaction_records WHERE` the id is not kept. -/
def Tables.keep (t : Tables) (p : String → Bool) : Tables :=
  { t with records := t.records.filter fun e => p e.1 }

/-- The path of a save that knows the previous records. -/
def synchronizeFast (maxVariables : Nat) (clock : String) (t : Tables)
    (source previous : List NativeRecord) : Py Tables := do
  let normalized ← source.foldlM (addNormalized fun r => require (r.id ≠ "") incomplete) []
  let stale := ((previous.map NativeRecord.id).filter (· != "")).dedup.filter
    fun id => id ∉ normalized.map NativeRecord.id
  require (stale.length ≤ maxVariables) tooManyVariables
  let changed := normalized.filter fun r => previous.reverse.find? (·.id = r.id) ≠ some r
  writeChanged clock (t.keep fun id => id ∉ stale) changed

/-- The path of a save that does not. -/
def synchronizeSlow (maxVariables : Nat) (clock : String) (t : Tables)
    (source : List NativeRecord) : Py Tables := do
  let normalized ← source.foldlM
    (addNormalized fun r => do let _ ← nativeRecordValues clock r; .ok ()) []
  require (source.length ≤ maxVariables) tooManyVariables
  writeChanged clock (t.keep fun id => id ∈ source.map NativeRecord.id) normalized

/-- `_synchronize_native_transaction_records`. -/
def synchronize (maxVariables : Nat) (clock : String) (t : Tables) (source : List NativeRecord)
    (previous : Option (List NativeRecord)) : Py Tables :=
  match previous with
  | some previous => synchronizeFast maxVariables clock t source previous
  | none => synchronizeSlow maxVariables clock t source

/-- `_load_native_transaction_records`: the records by `created_at` and `tx_id`. -/
def Tables.load (t : Tables) : List NativeRecord :=
  (t.records.values.mergeSort fun a b =>
    decide (toLex (a.createdAt, a.txId) ≤ toLex (b.createdAt, b.txId))).map Row.record

/-! ## Runs -/

/-- A whole-document save: whether it passes the loaded records, its clock and its records. -/
structure Save where
  fast : Bool
  clock : String
  target : List NativeRecord

def Save.apply (maxVariables : Nat) (t : Tables) (s : Save) : Py Tables :=
  synchronize maxVariables s.clock t s.target (if s.fast then some t.load else none)

/-- The saves in order, up to the first that raises. -/
def run (maxVariables : Nat) (t : Tables) (saves : List Save) : Py Tables :=
  saves.foldlM (Save.apply maxVariables) t

end NativeLifecycle

end ZoidbergChain
