import ZoidbergChain.Bft.Wire
import ZoidbergChain.Tendermint.Model

/-!
# The bounded reducer of the signer

isolated_bft717j/reducer.py: what a signer may reserve next, from its state and the evidence
that it is shown. Only the first round of the first height is enabled: the start of a round, a
prevote on a fresh proposal, a precommit on a polka, and a precommit on a nil polka.

- `plan` computes a reservation: the rule, the state behind it and what it rests on.
- `Draft` is the state with the records that `plan` collects on the way.
- `startNonproposer` starts the round of a validator that does not propose.

The state is a record; `State.toValue` is the dictionary that the source keeps.
-/

namespace ZoidbergChain

open Python CanonicalV3

namespace Bft

/-! ## States -/

/-- A locked or a valid value. -/
structure Lock where
  blockHash : Option String := none
  round : Int := -1
  proposalId : Option String := none
  prevoteCertificateId : Option String := none
  deriving DecidableEq

def Lock.toValue (l : Lock) : Value :=
  .dict [("block_hash", optionText l.blockHash),
    ("prevote_certificate_id", optionText l.prevoteCertificateId),
    ("proposal_id", optionText l.proposalId), ("round", .int l.round)]

/-- `slot_key`: what a validator signs once. -/
structure Slot where
  height : Int
  round : Int
  purpose : String
  deriving DecidableEq

def Slot.toValue (s : Slot) : Value :=
  .dict [("height", .int s.height), ("purpose", .str s.purpose), ("round", .int s.round)]

/-- A phase and a reservation to come have the words of `Tendermint.Phase`. -/
def phaseName : Tendermint.Phase → String
  | .propose => "propose"
  | .prevote => "prevote"
  | .precommit => "precommit"

structure State where
  namespaceId : String
  revision : Int
  fenceGeneration : Int
  height : Int := 1
  round : Int := 0
  phase : Tendermint.Phase := .propose
  started : Bool := false
  locked : Lock := {}
  valid : Lock := {}
  finalizedHeight : Int := 0
  finalizedHash : String
  finalizedProofId : Option String := none
  appliedHeight : Int := 0
  appliedHash : String
  inboxTip : Option String := none
  markersTip : Option String := none
  pendingSlot : Option Slot := none
  fault : Option String := none
  deriving DecidableEq

def slotValue (s : Option Slot) : Value := (s.map Slot.toValue).getD .null

def State.toValue (s : State) : Value :=
  .dict [("applied", .dict [("block_hash", .str s.appliedHash), ("height", .int s.appliedHeight)]),
    ("fault", optionText s.fault), ("fence_generation", .int s.fenceGeneration),
    ("finalized", .dict [("block_hash", .str s.finalizedHash), ("height", .int s.finalizedHeight),
      ("proof_id", optionText s.finalizedProofId)]),
    ("height", .int s.height), ("inbox_tip", optionText s.inboxTip), ("locked", s.locked.toValue),
    ("markers_tip", optionText s.markersTip), ("namespace_id", .str s.namespaceId),
    ("pending_slot", slotValue s.pendingSlot), ("phase", .str (phaseName s.phase)),
    ("revision", .int s.revision), ("round", .int s.round), ("started", .bool s.started),
    ("state_version", .int 1), ("valid", s.valid.toValue)]

/-- `initial`. -/
def initial (ns genesis : String) (generation : Int) : State where
  namespaceId := ns
  revision := 0
  fenceGeneration := generation
  finalizedHash := genesis
  appliedHash := genesis

/-- `slot_key`. -/
def slotKey (e : Dict) : Py Slot := do
  let p ← objectItem (.dict e) "payload"
  match p.get "block_height", p.get "round", p.get "step" with
  | .int height, .int round, .str purpose => .ok { height, round, purpose }
  | _, _, _ => .error (.type "not a slot")

/-- `commitment`. -/
def commitment (e : Dict) : Py Dict := do
  let p ← objectItem (.dict e) "payload"
  .ok (without p ["validator_id"])

/-! ## The pinned blocks -/

/-- A flag of a block. -/
def readFlag (b : Dict) (key : String) : Py Bool :=
  match b.get key with
  | .bool x => .ok x
  | _ => .error (v3Error "test_block_flags")

/-- An entry of the catalogue. -/
def readBlock (ctx : Context) (v : Value) : Py Tendermint.Block := do
  let b ← closed v ["id", "height", "parent", "protocol", "canonical", "original", "admission",
    "transactions", "resources"] []
  let id ← h64 (b.get "id")
  let height ← uint (b.get "height") 1 maxUint
  require (height = 1 ∧ isText (b.get "parent") ctx.genesisHash) (v3Error "test_block_context")
  let protocol ← readFlag b "protocol"
  let canonical ← readFlag b "canonical"
  let original ← readFlag b "original"
  let admission ← readFlag b "admission"
  let transactions ← readFlag b "transactions"
  let resources ← readFlag b "resources"
  .ok { id, height, parent := ctx.genesisHash, protocol, canonical, original, admission,
        transactions, resources }

/-- `catalogue`: the blocks in the order of their hashes. -/
def catalogue (raw : ByteArray) (ctx : Context) : Py (List Tendermint.Block) := do
  let v ← parse raw 65536
  let entries ← listBetween v 1 32 "test_catalogue"
  let blocks ← entries.mapM (readBlock ctx)
  require (blocks.map Tendermint.Block.id = sortedSet (blocks.map Tendermint.Block.id))
    (v3Error "test_catalogue_order")
  .ok blocks

/-- The dictionary of a block. -/
def blockValue (b : Tendermint.Block) : Value :=
  .dict [("admission", .bool b.admission), ("canonical", .bool b.canonical),
    ("height", .int b.height), ("id", .str b.id), ("original", .bool b.original),
    ("parent", .str b.parent), ("protocol", .bool b.protocol),
    ("resources", .bool b.resources), ("transactions", .bool b.transactions)]

/-- All flags of a block are set. -/
def allFlags (b : Tendermint.Block) : Bool :=
  b.protocol && b.canonical && b.original && b.admission && b.transactions && b.resources

/-- `validation`, with the digest of the block. -/
def validation (b : Tendermint.Block) (ns blockRecordId : String) : Value :=
  .dict [("admission", .bool b.admission), ("block_hash", .str b.id),
    ("block_record_id", .str blockRecordId), ("canonical", .bool b.canonical),
    ("height", .int b.height), ("namespace_id", .str ns), ("original", .bool b.original),
    ("parent_hash", .str b.parent), ("profile", .str "task717h-symbolic-v1"),
    ("protocol", .bool b.protocol), ("record_version", .int 1), ("resources", .bool b.resources),
    ("result", .str (if allFlags b = true then "VALID" else "INVALID")),
    ("source_revision", .int 0), ("transactions", .bool b.transactions)]

/-! ## The signer that plans -/

/-- `Context.namespace`. -/
def namespaceValue (ctx : Context) (validatorId pub : String) : Value :=
  .dict [("agreement_profile_digest", .str ctx.profileDigest),
    ("genesis_hash", .str ctx.genesisHash), ("network_id", .str ctx.network),
    ("protocol", .str "zoidbergchain"), ("protocol_version", .int 2), ("validator_epoch", .int 0),
    ("validator_id", .str validatorId), ("validator_public_key", .str pub),
    ("validator_set_commitment", .str ctx.setCommitment)]

/-- What the constructor of a signer has checked: the context with the bytes that it has been
read from, the identity of the signer among its members, and the pinned blocks. -/
structure Identity where
  crypto : Crypto
  ctx : Context
  manifestBytes : ByteArray
  agreementBytes : ByteArray
  catalogueRaw : ByteArray
  blocks : List Tendermint.Block
  validatorId : String
  pub : String
  namespaceRaw : ByteArray
  namespace_eq : J (namespaceValue ctx validatorId pub) = .ok namespaceRaw
  member : (validatorId, pub) ∈ ctx.members
  blocks_eq : catalogue catalogueRaw ctx = .ok blocks

namespace Identity

/-- The digest of the namespace. -/
def ns (id : Identity) : String := id.crypto.sha256Hex id.namespaceRaw

def sha (id : Identity) (raw : ByteArray) : String := id.crypto.sha256Hex raw

/-- `blocks[value]`, if it is pinned. -/
def block? (id : Identity) (value : Value) : Option Tendermint.Block :=
  match value with
  | .str hash => id.blocks.find? fun b => b.id = hash
  | _ => none

end Identity

/-! ## Drafts -/

/-- A record that a reservation rests on. -/
structure Dep where
  kind : String
  raw : ByteArray
  deriving DecidableEq

/-- A state under change, with the records and the messages collected so far. -/
structure Draft where
  state : State
  deps : List Dep := []
  messages : List Value := []

/-- A record of the chain of once-flags. -/
def markerValue (s : State) (kind status : String) : Value :=
  .dict [("height", .int s.height), ("kind", .str kind),
    ("previous", optionText s.markersTip), ("record_version", .int 1), ("round", .int s.round),
    ("status", .str status)]

/-- A record of the chain of received messages. -/
def receiptValue (tip : Option String) (signedId : String) : Value :=
  .dict [("previous", optionText tip), ("record_version", .int 1), ("signed_id", .str signedId)]

namespace Draft

variable (id : Identity)

/-- A record is collected once. -/
def putRaw (d : Draft) (kind : String) (raw : ByteArray) : Draft :=
  if ⟨kind, raw⟩ ∈ d.deps then d else { d with deps := d.deps ++ [⟨kind, raw⟩] }

/-- `put`: the digest of the record, and the draft with it. -/
def put (d : Draft) (kind : String) (v : Value) : Py (String × Draft) := do
  let raw ← J v
  .ok (id.sha raw, d.putRaw kind raw)

/-- `mark`. -/
def mark (d : Draft) (kind status : String) : Py Draft := do
  let (tip, d) ← d.put id "marker" (markerValue d.state kind status)
  .ok { d with state := { d.state with markersTip := some tip } }

/-- `block`: the digests of a pinned block and of its validation, and whether it is valid. -/
def block (d : Draft) (value : Value) : Py (String × String × Tendermint.Block × Draft) := do
  let b ← orRaise (id.block? value) (v3Error "INCOMPLETE_DATA")
  let (bid, d) ← d.put id "block" (blockValue b)
  let (vid, d) ← d.put id "validation" (validation b d.state.namespaceId bid)
  .ok (bid, vid, b, d)

/-- A message that enters the inbox. -/
def receive (d : Draft) (raw : ByteArray) : Py Draft := do
  let d := d.putRaw "signed" raw
  let (tip, d) ← d.put id "receipt" (receiptValue d.state.inboxTip (id.sha raw))
  .ok { d with state := { d.state with inboxTip := some tip } }

/-- The collected messages enter the inbox once each, in the order of their digests. -/
def receiveAll (d : Draft) : Py Draft := do
  let raws ← d.messages.mapM J
  (raws.reverse.dedup.reverse.insertionSort fun a b => id.sha a ≤ id.sha b).foldlM (receive id) d

end Draft

/-! ## Planning -/

/-- The rules of the journal that reserve a slot. -/
inductive Rule where
  | start
  | l22
  | l36
  | l44
  deriving DecidableEq

def Rule.name : Rule → String
  | .start => "START"
  | .l22 => "L22"
  | .l36 => "L36"
  | .l44 => "L44"

/-- A reservation: its rule, the draft, and the digests of its block and validation. -/
structure Planned where
  rule : Rule
  draft : Draft
  blockId : Option String := none
  validationId : Option String := none

/-- The code of every step that the reducer does not know. -/
def incomplete : PyError := v3Error "INCOMPLETE_AGREEMENT_CONTEXT"

variable (id : Identity)

/-- `plan` for a proposal. -/
def planPropose (s : State) (p : Dict) (proposalRaw pvRaw : Option ByteArray) : Py Planned := do
  require (s.started = false ∧ s.phase = .propose ∧
    (p.get "valid_round").pyEq (.int (-1)) = true) incomplete
  require (proposalRaw = none ∧ pvRaw = none) (v3Error "unused_evidence")
  let (bid, vid, b, d) ← Draft.block id { state := s } (p.get "block_hash")
  require (allFlags b = true) (v3Error "invalid_get_value")
  .ok { rule := .start, draft := { d with state := { d.state with started := true } },
        blockId := some bid, validationId := some vid }

/-- A certificate of prevotes for the value that the envelope precommits. -/
def polka (e : Dict) (pvRaw : ByteArray) (code : String) : Py Dict := do
  let pv ← proof id.crypto pvRaw id.ctx .pv
  let c ← commitment e
  require ((pv.get "commitment").pyEq (.dict (c.set "step" (.str "prevote"))) = true)
    (v3Error code)
  .ok pv

/-- `pv["votes"]`. -/
def certifiedVotes (pv : Dict) : Py (List Value) := do
  let votes ← pv.index "votes"
  votes.iter

/-- `plan` for a nil precommit. -/
def planNilPrecommit (s : State) (e : Dict) (proposalRaw pvRaw : Option ByteArray) :
    Py Planned := do
  require (s.phase = .prevote ∧ proposalRaw = none) incomplete
  let pvRaw ← orRaise pvRaw incomplete
  let pv ← polka id e pvRaw "nil_polka"
  let (_, d) ← Draft.put id { state := s } "pv" (.dict pv)
  let votes ← certifiedVotes pv
  let d := { d with messages := votes, state := { d.state with phase := .precommit } }
  let d ← d.mark id "precommit" "once"
  .ok { rule := .l44, draft := d }

/-- The proposal that a vote answers, with the payload of its envelope. -/
def readProposal (e : Dict) (proposalRaw : ByteArray) : Py (Dict × Dict) := do
  let prop ← signed id.crypto proposalRaw id.ctx
  let pe ← objectItem (.dict prop) "envelope"
  let pp ← objectItem (.dict pe) "payload"
  require (isText (pp.get "step") "propose" ∧ (pp.get "valid_round").pyEq (.int (-1)) = true)
    incomplete
  let target ← commitment e
  let context ← commitment pe
  require ((Value.dict (without context ["block_hash", "step", "valid_round"])).pyEq
    (.dict (without target ["block_hash", "step"])) = true) (v3Error "proposal_context")
  .ok (prop, pp)

/-- `plan` for a prevote, behind its proposal. -/
def planPrevote (s : State) (p pp : Dict) (pvRaw : Option ByteArray) (bid vid : String)
    (b : Tendermint.Block) (d : Draft) : Py Planned := do
  require (s.phase = .propose ∧ pvRaw = none) (v3Error "phase_or_evidence")
  let lockOk := s.locked.round = -1 ∨ (optionText s.locked.blockHash).pyEq (pp.get "block_hash")
  require ((p.get "block_hash").pyEq (if allFlags b = true ∧ lockOk then pp.get "block_hash"
    else .null) = true) (v3Error "prevote_guard")
  let d := { d with state := { d.state with phase := .prevote } }
  let d ← d.mark id "prevote" "once"
  .ok { rule := .l22, draft := d, blockId := some bid, validationId := some vid }

/-- `plan` for a precommit of a value, behind its proposal: the lock, the valid value and the
precommit are one reservation. -/
def planPrecommit (s : State) (e p pp : Dict) (proposalId : String) (pvRaw : Option ByteArray)
    (bid vid : String) (b : Tendermint.Block) (d : Draft) : Py Planned := do
  require (s.phase = .prevote ∧ allFlags b = true ∧
    (p.get "block_hash").pyEq (pp.get "block_hash") = true) incomplete
  let pvRaw ← orRaise pvRaw incomplete
  let pv ← polka id e pvRaw "polka"
  let (pvid, d) ← d.put id "pv" (.dict pv)
  let votes ← certifiedVotes pv
  let lock : Lock :=
    { blockHash := some b.id, round := s.round, proposalId := some proposalId
      prevoteCertificateId := some pvid }
  let d := { d with messages := d.messages ++ votes, state := { d.state with
    locked := lock, valid := lock, phase := .precommit } }
  let d ← d.mark id "polka" "once"
  let d ← d.mark id "precommit" "once"
  .ok { rule := .l36, draft := d, blockId := some bid, validationId := some vid }

/-- `plan` for a prevote, or for a precommit of a value. -/
def planOnProposal (s : State) (e p : Dict) (proposalRaw pvRaw : Option ByteArray) :
    Py Planned := do
  let proposalRaw ← orRaise proposalRaw (v3Error "MISSING_PROPOSAL")
  let (prop, pp) ← readProposal id e proposalRaw
  let (pid, d) ← Draft.put id { state := s } "signed" (.dict prop)
  let (bid, vid, b, d) ← Draft.block id { d with messages := [.dict prop] } (pp.get "block_hash")
  if isText (p.get "step") "prevote" then planPrevote id s p pp pvRaw bid vid b d
  else planPrecommit id s e p pp pid pvRaw bid vid b d

/-- `plan`. -/
def plan (s : State) (e : Dict) (proposalRaw pvRaw : Option ByteArray) : Py Planned := do
  let p ← objectItem (.dict e) "payload"
  let slot ← slotKey e
  require (isText (p.get "validator_id") id.validatorId) (v3Error "signer_identity")
  require (s.pendingSlot = none ∧ s.fault = none) (v3Error "pending_or_fault")
  require (slot.height = s.height ∧ s.height = 1 ∧ slot.round = s.round ∧ s.round = 0) incomplete
  require (isText (p.get "parent_hash") s.finalizedHash ∧ s.finalizedHash = s.appliedHash)
    (v3Error "parent_anchor")
  let planned ← (if isText (p.get "step") "propose" then planPropose id s p proposalRaw pvRaw
    else do
      require (s.started = true) (v3Error "not_started")
      if isText (p.get "step") "precommit" ∧ p.get "block_hash" = .null then
        planNilPrecommit id s e proposalRaw pvRaw
      else planOnProposal id s e p proposalRaw pvRaw)
  let d ← planned.draft.receiveAll id
  .ok { planned with draft := { d with state := { d.state with pendingSlot := some slot } } }

/-- `start_nonproposer`. -/
def startNonproposer (s : State) : Py (State × List Dep) := do
  require (s.started = false ∧ s.pendingSlot = none ∧ s.fault = none ∧ s.height = 1 ∧ s.round = 0 ∧
    id.pub ≠ id.ctx.proposer 1 0) incomplete
  let raw ← J (.dict [("height", .int 1), ("kind", .str "propose"),
    ("previous", optionText s.markersTip), ("record_version", .int 1), ("round", .int 0),
    ("status", .str "armed")])
  .ok ({ s with started := true, markersTip := some (id.sha raw) }, [⟨"marker", raw⟩])

end Bft

end ZoidbergChain
