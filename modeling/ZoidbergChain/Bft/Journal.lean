import ZoidbergChain.Bft.Reducer

/-!
# The journal of the signer

The database of isolated_bft717j/signer.py: records by their digest, a chain of events, and the
indexes that are derived from it.

- `append` writes one event; `slotRecord` and `storedState` are what the events of a reservation
  and of its signature rest on.
- `replay` rebuilds the state and the indexes from the events and compares them with the tables.
- `load` is `replay` for a signer: whatever is wrong with a journal is corruption.

A `Journal` is a file that SQLite opens, passes its own check, and has the tables of the schema.
-/

namespace ZoidbergChain

open Python CanonicalV3

namespace Bft

/-! ## Tables -/

/-- `coordinates`: the key of a slot. -/
structure Coord where
  namespaceId : String
  height : Int
  round : Int
  purpose : String
  deriving DecidableEq

def Slot.coord (ns : String) (s : Slot) : Coord := ⟨ns, s.height, s.round, s.purpose⟩

/-- A row of `events`. -/
structure EventRow where
  sequence : Int
  eventId : String
  stateId : String
  deriving DecidableEq

structure Journal where
  /-- The namespace, the manifest, the agreement and the catalogue. -/
  authority : Option (ByteArray × ByteArray × ByteArray × ByteArray) := none
  /-- The kind and the bytes behind a digest. -/
  blobs : Table String (String × ByteArray) := []
  /-- In the order of their sequence numbers. -/
  events : List EventRow := []
  head : Option ByteArray := none
  slots : Table Coord String := []
  outbox : Table Coord String := []

/-- What `head` says. -/
structure Head where
  namespaceId : String
  sequence : Int
  eventId : String
  stateId : String
  deriving DecidableEq

def Head.toValue (h : Head) : Value :=
  .dict [("event_id", .str h.eventId), ("namespace_id", .str h.namespaceId),
    ("record_version", .int 1), ("sequence", .int h.sequence), ("state_id", .str h.stateId)]

/-- The foreign keys of the schema. -/
def Journal.ForeignKeys (j : Journal) : Prop :=
  (∀ row ∈ j.events, (j.blobs.get? row.eventId).isSome ∧ (j.blobs.get? row.stateId).isSome) ∧
  (∀ e ∈ j.slots, (j.blobs.get? e.2).isSome) ∧
  ∀ e ∈ j.outbox, (j.blobs.get? e.2).isSome ∧ (j.slots.get? e.1).isSome

instance (j : Journal) : Decidable j.ForeignKeys := inferInstanceAs (Decidable (_ ∧ _ ∧ _))

/-! ## Records -/

variable (id : Identity)

/-- The kinds and digests of some records, in order. -/
def refs (deps : List Dep) : List (String × String) :=
  (deps.dedup.map fun d => (d.kind, id.sha d.raw)).insertionSort fun a b =>
    a.1 < b.1 ∨ a.1 = b.1 ∧ a.2 ≤ b.2

/-- `refs`. -/
def refsValue (deps : List Dep) : Value :=
  .list ((refs id deps).map fun r => .dict [("digest", .str r.2), ("kind", .str r.1)])

/-- `raw.hex()`. -/
def toHex (raw : ByteArray) : String := hexText raw.data.toList

/-- `bytes.fromhex(v)`, for the digits that `toHex` writes. -/
def fromHex (v : Value) : Py ByteArray :=
  match v with
  | .str s => (orRaise (readHex s.toList) (.value "non-hexadecimal number")).map List.toByteArray
  | _ => .error (.type "fromhex() argument must be str")

/-- `slot_record`. -/
def slotRecord (e : Dict) (s : State) (planned : Planned) : Py Dict := do
  let raw ← J (.dict e)
  let slot ← slotKey e
  .ok [("after_revision", .int (s.revision + 1)), ("before_revision", .int s.revision),
    ("block_record_id", optionText planned.blockId),
    ("evidence", refsValue id planned.draft.deps),
    ("fence_generation", .int s.fenceGeneration), ("height", .int slot.height),
    ("message_id", .str (id.sha raw)), ("namespace_id", .str id.ns),
    ("payload_hex", .str (toHex raw)), ("purpose", .str slot.purpose),
    ("round", .int slot.round), ("signature", .null), ("slot_version", .int 1),
    ("status", .str "reserved"), ("validation_id", optionText planned.validationId)]

/-- `stored_state`: the state behind a signature, what it rests on, and the signed bytes. -/
def storedState (s : State) (row : Dict) : Py (State × List Dep × ByteArray) := do
  let payload ← fromHex (row.get "payload_hex")
  let envelope ← parse payload 2048
  let raw ← J (.dict [("envelope", envelope), ("signature", row.get "signature"),
    ("signature_scheme", .str "personal_sign")])
  let _ ← signed id.crypto raw id.ctx
  let receipt ← J (receiptValue s.inboxTip (id.sha raw))
  .ok ({ s with inboxTip := some (id.sha receipt), pendingSlot := none },
    [⟨"signed", raw⟩, ⟨"receipt", receipt⟩], raw)

/-- The record of an event. -/
def eventRecord (sequence : Int) (previous : Option String) (rule before after : String)
    (evidence slot : Value) : Value :=
  .dict [("after_state", .str after), ("before_state", .str before), ("evidence", evidence),
    ("namespace_id", .str id.ns), ("previous", optionText previous), ("record_version", .int 1),
    ("rule", .str rule), ("sequence", .int sequence), ("slot", slot)]

/-! ## Appending -/

/-- `_put`. -/
def putBlob (j : Journal) (kind : String) (raw : ByteArray) : Py (String × Journal) :=
  match j.blobs.get? (id.sha raw) with
  | none => .ok (id.sha raw, { j with blobs := j.blobs ++ [(id.sha raw, kind, raw)] })
  | some blob => do
    require (blob = (kind, raw)) (v3Error "blob_collision")
    .ok (id.sha raw, j)

/-- The largest revision that can be followed. -/
def maxRevision : Int := 9007199254740990

/-- `_append`. -/
def append (j : Journal) (before after : State) (rule : String) (deps : List Dep) (slot : Value)
    (previous : Option String) : Py (Head × Journal) := do
  require (0 ≤ before.revision ∧ before.revision ≤ maxRevision) (v3Error "integer_range")
  let after := { after with revision := before.revision + 1 }
  let j ← deps.foldlM (fun j d => (putBlob id j d.kind d.raw).map Prod.snd) j
  let (beforeId, j) ← putBlob id j "state" (← J before.toValue)
  let (afterId, j) ← putBlob id j "state" (← J after.toValue)
  let event := eventRecord id after.revision previous rule beforeId afterId (refsValue id deps) slot
  let (eventId, j) ← putBlob id j "event" (← J event)
  require ((∀ row ∈ j.events, row.sequence ≠ after.revision) ∧
    ∀ row ∈ j.events, row.eventId ≠ eventId) { exc := .integrityError, message := "events" }
  let head : Head := ⟨id.ns, after.revision, eventId, afterId⟩
  let raw ← J head.toValue
  .ok (head, { j with
    events := j.events ++ [⟨after.revision, eventId, afterId⟩], head := some raw })

/-! ## Replaying -/

/-- `get` of `_replay`: the bytes of a kind behind a digest. -/
abbrev Source := String → Value → Py ByteArray

def Journal.source (j : Journal) : Source := fun kind digest =>
  match digest with
  | .str d => do
    let blob ← orRaise (j.blobs.get? d) (v3Error "missing_source")
    require (blob.1 = kind) (v3Error "missing_source")
    .ok blob.2
  | _ => .error (v3Error "missing_source")

/-- A text, or an exception. -/
def asText (v : Value) : Py String :=
  match v with
  | .str s => .ok s
  | _ => .error (v3Error "missing_source")

/-- A record that an event refers to. -/
def depFor (get : Source) (r : Value) : Py Dep := do
  let kind ← asText (← r.item "kind")
  let raw ← get kind (← r.item "digest")
  .ok ⟨kind, raw⟩

/-- `deps_for`. -/
def depsFor (get : Source) (evidence : Value) : Py (List Dep) := do
  let items ← listBetween evidence 0 16 "evidence_bound"
  let deps ← items.mapM (depFor get)
  require ((refsValue id deps).pyEq evidence = true) (v3Error "evidence_order")
  .ok deps

/-- What is known behind some events. -/
structure Replay where
  state : State
  previous : Option String := none
  slots : Table Coord Dict := []
  outbox : Table Coord String := []
  heads : List Head := []

/-- `slot[key]`, as a key of a dictionary: a truth value is a number. -/
def coordNumber (v : Value) : Py Int :=
  match v with
  | .int n => .ok n
  | .bool b => .ok (if b then 1 else 0)
  | _ => .error (v3Error "slot_coordinates")

/-- `coordinates`, for the slot of an event. -/
def coordinates (ns : String) (slot : Value) : Py Coord := do
  let height ← coordNumber (← slot.item "height")
  let round ← coordNumber (← slot.item "round")
  let purpose ← asText (← slot.item "purpose")
  .ok ⟨ns, height, round, purpose⟩

/-- The only record of the kind `slot`. -/
def slotDep (deps : List Dep) (code : String) : Py Dict :=
  match deps.filter fun d => d.kind = "slot" with
  | [d] => do asObject (← parse d.raw 16384) code
  | _ => .error (v3Error code)

/-- The bytes of a kind, if there are any. -/
def supportOf (deps : List Dep) (kind : String) (keep : ByteArray → Py Bool) :
    Py (Option ByteArray) := do
  let raws ← filterPy keep ((deps.filter fun d => d.kind = kind).map Dep.raw)
  require (raws.length ≤ 1) (v3Error "support_count")
  .ok raws.head?

/-- `parse(raw)["envelope"]["payload"]["step"] == "propose"`. -/
def isProposal (raw : ByteArray) : Py Bool := do
  let envelope ← (← parse raw 16384).item "envelope"
  let step ← (← envelope.item "payload").item "step"
  .ok (decide (isText step "propose"))

/-- What an event makes of the state and the indexes, and what it rests on. -/
structure Transition where
  state : State
  deps : List Dep := []
  slots : Table Coord Dict
  outbox : Table Coord String

/-- The reservation of a slot: the plan is made again from the records that it rests on. -/
def reservation (get : Source) (acc : Replay) (rule slot : Value) (deps : List Dep) :
    Py Transition := do
  let row ← slotDep deps "reservation_slot"
  let coord ← coordinates id.ns slot
  require ((acc.slots.get? coord).isNone = true) (v3Error "slot_reuse")
  let e ← envelope (← fromHex (← row.index "payload_hex")) id.ctx
  let key ← slotKey e
  require (key.toValue.pyEq slot = true) (v3Error "slot_coordinates")
  let supporting ← depsFor id get (← row.index "evidence")
  let proposal ← supportOf supporting "signed" isProposal
  let pv ← supportOf supporting "pv" fun _ => .ok true
  let planned ← plan id acc.state e proposal pv
  let record ← slotRecord id e acc.state planned
  let expected ← J (.dict record)
  let actual ← J (.dict row)
  require (isText rule planned.rule.name ∧ actual = expected) (v3Error "reservation_guard")
  .ok { state := planned.draft.state, deps := planned.draft.deps ++ [⟨"slot", actual⟩]
        slots := acc.slots.set coord row, outbox := acc.outbox }

/-- The signature of a reserved slot. -/
def signatureStored (acc : Replay) (slot : Value) (deps : List Dep) : Py Transition := do
  let coord ← coordinates id.ns slot
  require ((slotValue acc.state.pendingSlot).pyEq slot = true) (v3Error "pending_slot")
  let old ← orRaise (acc.slots.get? coord) (v3Error "pending_slot")
  require (isText (← old.index "status") "reserved") (v3Error "signature_overwrite")
  let row ← slotDep deps "signed_slot"
  let signature ← row.index "signature"
  require ((Value.dict row).pyEq
    (.dict ((old.set "status" (.str "signed")).set "signature" signature)) = true)
    (v3Error "signed_row")
  let (state, deps, raw) ← storedState id acc.state row
  let record ← J (.dict row)
  .ok { state, deps := deps ++ [⟨"slot", record⟩], slots := acc.slots.set coord row
        outbox := acc.outbox.set coord (id.sha raw) }

/-- The transition of an event. -/
def transition (get : Source) (acc : Replay) (sequence : Int) (rule slot after : Value)
    (deps : List Dep) : Py Transition :=
  if isText rule "INIT" then do
    require (sequence = 1 ∧ slot = .null) (v3Error "init")
    .ok { state := acc.state, slots := acc.slots, outbox := acc.outbox
          deps := [⟨"manifest", id.manifestBytes⟩, ⟨"agreement", id.agreementBytes⟩,
            ⟨"policy", id.catalogueRaw⟩] }
  else if isText rule "FENCE" then do
    require (slot = .null) (v3Error "fence_slot")
    let generation ← uint (← after.item "fence_generation") 1 maxUint
    require (acc.state.fenceGeneration < generation) (v3Error "fence_generation")
    .ok { state := { acc.state with fenceGeneration := generation }
          slots := acc.slots, outbox := acc.outbox }
  else if isText rule "START" ∧ slot = .null then do
    let (state, deps) ← startNonproposer id acc.state
    .ok { state, deps, slots := acc.slots, outbox := acc.outbox }
  else if isText rule "START" ∨ isText rule "L22" ∨ isText rule "L36" ∨ isText rule "L44" then
    reservation id get acc rule slot deps
  else if isText rule "SIGN_STORED" then signatureStored id acc slot deps
  else .error { exc := .corruptState, message := "unsupported agreement transition" }

/-- One event of `_replay`. -/
def replayStep (get : Source) (acc : Replay) (row : EventRow) : Py Replay := do
  let event ← parse (← get "event" (.str row.eventId)) 65536
  let after ← parse (← get "state" (.str row.stateId)) 65536
  require (row.sequence = acc.state.revision + 1 ∧
    (← event.item "sequence").pyEq (.int row.sequence) = true) (v3Error "sequence")
  let before ← J acc.state.toValue
  let beforeId ← event.item "before_state"
  require (isText beforeId (id.sha before)) (v3Error "before_state")
  let stored ← get "state" beforeId
  require (stored = before) (v3Error "before_state")
  let evidence ← event.item "evidence"
  let deps ← depsFor id get evidence
  let rule ← event.item "rule"
  let slot ← event.item "slot"
  let t ← transition id get acc row.sequence rule slot after deps
  let state := { t.state with revision := row.sequence }
  let expected ← J state.toValue
  let actual ← J after
  require (expected = actual ∧ (refsValue id t.deps).pyEq evidence = true) (v3Error "transition")
  let ruleText ← asText rule
  require (event.pyEq (eventRecord id row.sequence acc.previous ruleText (id.sha before)
    row.stateId (refsValue id t.deps) slot) = true) (v3Error "event_schema")
  .ok { state, previous := some row.eventId, slots := t.slots, outbox := t.outbox
        heads := acc.heads ++ [⟨id.ns, row.sequence, row.eventId, row.stateId⟩] }

/-- What a replay starts from. -/
def Replay.start : Replay where
  state := initial id.ns id.ctx.genesisHash 1

/-- What a signer knows of its journal. -/
structure Loaded where
  state : State
  head : Head
  heads : List Head
  slots : Table Coord Dict
  outbox : Table Coord ByteArray

/-- A stored record is what its digest says. -/
def checkBlob (e : String × String × ByteArray) : Py Unit := do
  require (e.2.2.size ≤ 65536 ∧ id.sha e.2.2 = e.1) (v3Error "blob_digest")
  let _ ← parse e.2.2 65536

/-- The rows of two tables are the same, as sets. -/
def SameRows (a b : Table Coord String) : Prop := (∀ e ∈ a, e ∈ b) ∧ ∀ e ∈ b, e ∈ a

instance (a b : Table Coord String) : Decidable (SameRows a b) :=
  inferInstanceAs (Decidable (_ ∧ _))

/-- The digest of the row of a slot. -/
def slotRow (e : Coord × Dict) : Py (Coord × String) := do
  let raw ← J (.dict e.2)
  .ok (e.1, id.sha raw)

/-- The signed bytes of a row of the outbox. -/
def outboxRow (get : Source) (e : Coord × String) : Py (Coord × ByteArray) := do
  let raw ← get "signed" (.str e.2)
  .ok (e.1, raw)

/-- `_replay`. -/
def replay (j : Journal) : Py Loaded := do
  require j.ForeignKeys (v3Error "sqlite_integrity")
  require (j.authority = some (id.namespaceRaw, id.manifestBytes, id.agreementBytes,
    id.catalogueRaw)) (v3Error "authority")
  j.blobs.forM (checkBlob id)
  let acc ← j.events.foldlM (replayStep id j.source) (.start id)
  let head ← orRaise acc.heads.getLast? (v3Error "head")
  let raw ← J head.toValue
  require (j.head = some raw) (v3Error "head")
  let slots ← acc.slots.mapM (slotRow id)
  require (SameRows j.slots slots) (v3Error "slot_index")
  require (SameRows j.outbox acc.outbox) (v3Error "outbox_index")
  let outbox ← acc.outbox.mapM (outboxRow j.source)
  .ok { state := acc.state, head, heads := acc.heads, slots := acc.slots, outbox }

/-- `except (V3Error, KeyError, IndexError, TypeError, ValueError)`. -/
def isReplayError (e : PyError) : Bool :=
  e.isValueError || decide (e.exc = .keyError ∨ e.exc = .indexError ∨ e.exc = .typeError)

/-- `_load`. -/
def load (j : Journal) : Py Loaded :=
  match replay id j with
  | .ok loaded => .ok loaded
  | .error e =>
    if isReplayError e then .error
      { exc := .corruptState, message := "signer journal integrity/reducer validation failed" }
    else .error e

end Bft

end ZoidbergChain
