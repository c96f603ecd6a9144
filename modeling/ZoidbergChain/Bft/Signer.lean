import ZoidbergChain.Bft.Journal
import ZoidbergChain.Python.Program

/-!
# The durable signer

isolated_bft717j/signer.py and custody.py: reserve, witness, sign, store, witness, release. The
journal and the witness are two files that are committed separately; the signer holds a lock on
its identity while it is alive.

- `World` is what the files hold, what is left of the owner in memory, and a log of what the key
  has been applied to and what has been handed out.
- Every point where a process can end or a call can fail takes the next of the `faults`: before
  and after each commit, and at each hook.
- `Operation.act` is a call; `run` is any sequence of calls, between which the journal file may
  be replaced by any other.
-/

namespace ZoidbergChain

open Python CanonicalV3

namespace Bft

/-! ## The world -/

/-- What ends a call early: an exception, or the end of the process. -/
inductive Stop where
  | raised (e : PyError)
  | crash

/-- The row of the witness file. -/
structure Witness where
  namespaceId : String
  publicKey : String
  generation : Int
  head : ByteArray

/-- A signer that holds the lock. -/
structure Owner where
  generation : Option Int := none
  available : Bool := false

inductive Action where
  /-- The private key signs a payload. -/
  | applied (coord : Coord) (payload : ByteArray)
  /-- Signed bytes are published or returned. -/
  | released (coord : Coord) (raw : ByteArray)

structure World where
  /-- The journals that have been in place, the present one first. -/
  journals : List Journal := []
  witness : Option Witness := none
  owner : Option Owner := none
  log : List Action := []
  faults : List (Option Stop) := []

abbrev Act := Program World Stop

/-- A computation that touches no file. -/
def py {α : Type} (x : Py α) : Act α := Program.ofExcept (x.mapError .raised)

/-- A point where the call may end early. -/
def point : Act Unit := fun w =>
  match w.faults with
  | [] => (.ok (), w)
  | none :: rest => (.ok (), { w with faults := rest })
  | some stop :: rest => (.error stop, { w with faults := rest })

def unavailable (message : String) : PyError := { exc := .unavailable, message }

def staleState (message : String) : PyError := { exc := .staleState, message }

def cryptoFailure (message : String) : PyError := { exc := .cryptoFailure, message }

/-- What SQLite raises for a file that is not there. -/
def noFile : PyError := { exc := .operationalError, message := "unable to open database file" }

/-- The journal that is in place. -/
def journal : Act Journal := do
  let w ← Program.get
  py (orRaise w.journals.head? noFile)

/-- A committed transaction on the journal. -/
def commit (j : Journal) : Act Unit := do
  point
  Program.modify fun w => { w with journals := j :: w.journals }
  point

def setOwner (owner : Option Owner) : Act Unit := Program.modify fun w => { w with owner := owner }

def record (action : Action) : Act Unit :=
  Program.modify fun w => { w with log := w.log ++ [action] }

/-! ## The witness -/

variable (id : Identity)

/-- The largest generation. -/
def maxGeneration : Int := 9007199254740991

/-- `TestWitness.read`. -/
def readWitness : Act (Witness × Value) := do
  let w ← Program.get
  let witness ← py (orRaise w.witness noFile)
  py (require (witness.namespaceId = id.ns ∧ witness.publicKey = id.pub)
    (staleState "witness namespace/key mismatch"))
  py (require (1 ≤ witness.generation ∧ witness.generation ≤ maxGeneration)
    { exc := .corruptState, message := "witness generation" })
  let head ← py (parse witness.head 16384)
  pure (witness, head)

/-- A committed transaction on the witness. -/
def commitWitness (witness : Witness) : Act Unit := do
  point
  Program.modify fun w => { w with witness := some witness }
  point

/-- The head that the witness has seen is one of the journal's. -/
def Continues (heads : List Head) (old : Value) : Prop :=
  match old.item "sequence" with
  | .ok (.int n) => 1 ≤ n ∧ n ≤ heads.length ∧
      ∃ h ∈ heads[(n - 1).toNat]?, h.toValue.pyEq old = true
  | _ => False

instance (heads : List Head) (old : Value) : Decidable (Continues heads old) := by
  unfold Continues
  split <;> infer_instance

/-- `TestWitness.reconcile`. -/
def reconcile (heads : List Head) : Act Int := do
  let (witness, old) ← readWitness id
  py (require (Continues heads old)
    (staleState "signer is behind or diverges from surviving test witness"))
  let head ← py (orRaise heads.getLast? (staleState "no head"))
  let raw ← py (J head.toValue)
  commitWitness { witness with head := raw }
  pure witness.generation

/-- `TestWitness.claim`. -/
def claimGeneration : Act Int := do
  let (witness, _) ← readWitness id
  py (require (witness.generation ≠ maxGeneration) (unavailable "generation exhausted"))
  commitWitness { witness with generation := witness.generation + 1 }
  pure (witness.generation + 1)

/-- `TestWitness.authorize`. -/
def authorize (head : Head) (generation : Int) (raw : ByteArray) : Act String := do
  let (witness, stored) ← readWitness id
  py (require (witness.generation = generation ∧ head.toValue.pyEq stored = true)
    (staleState "fence lost or head not witnessed"))
  pure (id.sha raw)

/-! ## The signer -/

/-- `self`, for a signer that has not been closed. -/
def self : Act Owner := do
  let w ← Program.get
  py (orRaise w.owner (unavailable "signer unavailable; explicit validated recovery required"))

/-- `_ready`. -/
def ready : Act Unit := do
  let owner ← self
  py (require (owner.available = true)
    (unavailable "signer unavailable; explicit validated recovery required"))

/-- The claim of a generation, with the event that records it. -/
def fence (j : Journal) (loaded : Loaded) : Act (Int × Loaded) := do
  let generation ← claimGeneration id
  let (_, j) ← py (append id j loaded.state { loaded.state with fenceGeneration := generation }
    "FENCE" [] .null (some loaded.head.eventId))
  commit j
  let loaded ← py (load id j)
  let _ ← reconcile id loaded.heads
  pure (generation, loaded)

/-- `_recover`. -/
def recover (claim : Bool) : Act Loaded := do
  let j ← journal
  let loaded ← py (load id j)
  let generation ← reconcile id loaded.heads
  py (require (loaded.state.fenceGeneration ≤ generation)
    (staleState "journal generation ahead of custody"))
  let owner ← self
  py (require (claim = true ∨ ∀ g ∈ owner.generation, g = generation)
    (staleState "existing owner cannot adopt another generation"))
  let (generation, loaded) ← (if claim then fence id j loaded else do
    py (require (loaded.state.fenceGeneration = generation)
      (staleState "generation differs; reopen under exclusive ownership"))
    pure (generation, loaded))
  point
  setOwner (some { generation := some generation, available := true })
  pure loaded

/-- `_witness`. -/
def witnessed (loaded : Loaded) : Act Int := do
  let generation ← reconcile id loaded.heads
  let owner ← self
  py (require (owner.generation = some generation) (staleState "owner generation revoked"))
  pure generation

/-- What is left of the signer that an exception ends: a refusal does not make it unavailable. -/
def disable (stop : Stop) (w : World) : World :=
  match stop with
  | .crash => w
  | .raised e =>
    if e.exc = .v3Error then w
    else { w with owner := w.owner.map fun o => { o with available := false } }

/-- `except V3Error: raise`, and every other exception disables the signer. -/
def guarded {α : Type} (x : Act α) : Act α :=
  x.handle fun stop => do
    Program.modify (disable stop)
    Program.raise stop

/-- `_release`. -/
def release (coord : Coord) (raw : ByteArray) (publish : Bool) : Act ByteArray := do
  point
  record (.released coord raw)
  if publish then point
  pure raw

/-- The reservation of a free slot. -/
def reserve (j : Journal) (loaded : Loaded) (e : Dict) (coord : Coord)
    (proposal pv : Option ByteArray) : Act Dict := do
  let planned ← py (plan id loaded.state e proposal pv)
  let row ← py (slotRecord id e loaded.state planned)
  let rowRaw ← py (J (.dict row))
  let slot ← py (slotKey e)
  let (_, j) ← py (append id j loaded.state planned.draft.state planned.rule.name
    (planned.draft.deps ++ [⟨"slot", rowRaw⟩]) slot.toValue (some loaded.head.eventId))
  py (require ((j.slots.get? coord).isNone = true) { exc := .integrityError, message := "slots" })
  point
  commit { j with slots := j.slots ++ [(coord, id.sha rowRaw)] }
  pure row

/-- `TestKey._sign_reserved`. -/
def signReserved (coord : Coord) (raw : ByteArray) (grant : String)
    (key : ByteArray → Option String) : Act String := do
  py (require (grant = id.sha raw) (cryptoFailure "no exact reservation authorization"))
  record (.applied coord raw)
  py (orRaise (key raw) (cryptoFailure "test key failed"))

/-- The signature of a reserved slot: signed, stored and witnessed. -/
def signSlot (raw : ByteArray) (coord : Coord) (slot : Slot) (row : Dict)
    (key : ByteArray → Option String) : Act ByteArray := do
  let loaded ← recover id false
  let owner ← self
  let generation ← py (orRaise owner.generation (.attribute "generation"))
  let grant ← authorize id loaded.head generation raw
  let signature ← signReserved id coord raw grant key
  point
  let row' := (row.set "status" (.str "signed")).set "signature" (.str signature)
  let (after, deps, result) ← py (match storedState id loaded.state row' with
    | .ok stored => .ok stored
    | .error e => if e.exc = .v3Error then
        .error (cryptoFailure "produced signature failed exact-key verification") else .error e)
  let j ← journal
  let current ← py (load id j)
  let _ ← witnessed id current
  py (require (current.head = loaded.head ∧
    ∃ stored ∈ current.slots.get? coord, (Value.dict stored).pyEq (.dict row) = true)
    (v3Error "reservation_changed"))
  let rowRaw ← py (J (.dict row'))
  let (_, j) ← py (append id j current.state after "SIGN_STORED"
    (deps ++ [⟨"slot", rowRaw⟩]) slot.toValue (some current.head.eventId))
  py (require ((j.outbox.get? coord).isNone = true) { exc := .integrityError, message := "outbox" })
  point
  commit { j with
    slots := j.slots.set coord (id.sha rowRaw), outbox := j.outbox ++ [(coord, id.sha result)] }
  let final ← recover id false
  py (require (final.outbox.get? coord = some result) (v3Error "outbox_changed"))
  pure result

/-- `sign`. -/
def sign (raw : ByteArray) (proposal pv : Option ByteArray) (publish : Bool)
    (key : ByteArray → Option String) : Act ByteArray := do
  let e ← py (envelope raw id.ctx)
  let p ← py (objectItem (.dict e) "payload")
  py (require (isText (p.get "validator_id") id.validatorId) (v3Error "signer_identity"))
  let slot ← py (slotKey e)
  let coord := slot.coord id.ns
  ready
  guarded do
    let j ← journal
    let loaded ← py (load id j)
    let _ ← witnessed id loaded
    match loaded.slots.get? coord with
    | some row =>
      py (require (isText (row.get "payload_hex") (toHex raw)) (v3Error "CONFLICTING_SLOT"))
      if isText (row.get "status") "signed" then do
        let result ← py (orRaise (loaded.outbox.get? coord) { exc := .keyError, message := "" })
        commit j
        release coord result publish
      else do
        commit j
        let result ← signSlot id raw coord slot row key
        release coord result publish
    | none =>
      let row ← reserve id j loaded e coord proposal pv
      let result ← signSlot id raw coord slot row key
      release coord result publish

/-- `start`. -/
def start : Act Unit := do
  ready
  guarded do
    let j ← journal
    let loaded ← py (load id j)
    let _ ← witnessed id loaded
    let (s, deps) ← py (startNonproposer id loaded.state)
    let (_, j) ← py (append id j loaded.state s "START" deps .null (some loaded.head.eventId))
    commit j
    let _ ← recover id false

/-- `recover`. -/
def recoverOwner : Act Unit := do
  let owner ← self
  setOwner (some { owner with available := false })
  let _ ← recover id false

/-- The first event of a new journal. -/
def bootstrapJournal : Py Journal := do
  let base := initial id.ns id.ctx.genesisHash 1
  let (_, j) ← append id
    { authority := some (id.namespaceRaw, id.manifestBytes, id.agreementBytes, id.catalogueRaw) }
    base base "INIT" [⟨"manifest", id.manifestBytes⟩, ⟨"agreement", id.agreementBytes⟩,
      ⟨"policy", id.catalogueRaw⟩] .null none
  .ok j

/-- The constructor of a signer, for files that do not exist yet. -/
def bootstrap : Act Unit := do
  let w ← Program.get
  py (require (w.journals = [] ∧ w.witness.isNone = true) (v3Error "already_initialized"))
  commit {}
  let j ← py (bootstrapJournal id)
  commit j
  let loaded ← py (load id j)
  let raw ← py (J loaded.head.toValue)
  commitWitness { namespaceId := id.ns, publicKey := id.pub, generation := 1, head := raw }
  setOwner (some { generation := some 1, available := true })

/-- The constructor of a signer: it takes the lock, and gives it back when it fails. -/
def construct (x : Act Unit) : Act Unit := do
  let w ← Program.get
  py (require (w.owner.isNone = true) (unavailable "test identity already owned"))
  setOwner (some {})
  x.handle fun stop => do
    setOwner none
    Program.raise stop

/-! ## Runs -/

/-- What can happen: the calls of a signer, the end of its process, and a journal file that is
put in the place of the present one. -/
inductive Operation where
  | bootstrap
  | reopen
  | start
  | sign (raw : ByteArray) (proposal pv : Option ByteArray) (publish : Bool)
      (key : ByteArray → Option String)
  | recover
  | close
  | crash
  | replace (j : Journal)

def Operation.act : Operation → Act Unit
  | .bootstrap => construct (Bft.bootstrap id)
  | .reopen => construct do
      let _ ← Bft.recover id true
  | .start => Bft.start id
  | .sign raw proposal pv publish key => do
      let _ ← Bft.sign id raw proposal pv publish key
  | .recover => recoverOwner id
  | .close => setOwner none
  | .crash => Program.raise .crash
  | .replace j => Program.modify fun w => { w with journals := j :: w.journals }

/-- The world behind a call: a process that ends leaves no owner. -/
def step (w : World) (op : Operation × List (Option Stop)) : World :=
  match op.1.act id { w with faults := op.2 } with
  | (.error .crash, w') => { w' with owner := none }
  | (_, w') => w'

/-- The world behind a sequence of calls, each with its faults. -/
def run (ops : List (Operation × List (Option Stop))) (w : World) : World := ops.foldl (step id) w

end Bft

end ZoidbergChain
