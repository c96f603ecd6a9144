import ZoidbergChain.Python.Control
import ZoidbergChain.Python.Table

/-!
# The review journal

The pure review application of `verification/review717p/model.py`: review sessions over a
trusted finalized journal. A finalized batch opens sessions, admits votes, closes due
sessions and anchors settled media.

- `apply` is one transition: the checks on the batch and its certificate, then the events
  in order.
- `EventCase` says what an event of an accepted batch can do, `AppliedBatch` what an
  accepted batch has passed.
- `Reachable` is the reflexive transitive closure of the accepted batches.

Identifiers, heights and flags have the types that the data classes declare. A raw vote
may lack the arguments that have defaults, and a CLOSE event may carry any result, which is
compared as Python compares values. The digests of the source are functions of what they
digest, about which nothing is assumed.
-/

namespace ZoidbergChain

open Python

namespace ReviewJournal

/-! ## Constants -/

/-- The constant `N` of the source. -/
def networkId : String := "task717p-symbolic"

/-- The constant `G` of the source. -/
def genesisId : String := "g-model"

/-- The constant `C` of the source. -/
def committeeId : String := "n4-f1-q3-model"

/-- The authority context of a journal certificate. -/
structure Context where
  network : String := networkId
  genesis : String := genesisId
  committee : String := committeeId
  agreement : String := "journal-agreement-model"
  purpose : String := "review-journal"
  epoch : Int := 0
  deriving DecidableEq

def dimensions : List String := ["originality", "admissibility"]

/-- `CHOICES[dimension]`. -/
def choices (dimension : String) : List String :=
  if dimension = "originality" then ["original", "not_original", "unsure"]
  else if dimension = "admissibility" then ["admissible", "not_admissible", "unsure"]
  else []

/-- `raise Rejected(outcome, reason)`. -/
def rejected (reason : String) (outcome : String := "INVALID") : PyError :=
  { exc := .rejected, message := outcome ++ ": " ++ reason, code := some outcome }

/-- A missing key of a `dict`. -/
def missingKey (key : String) : PyError := { exc := .keyError, message := key }

/-! ## Data -/

/-- The keyword arguments of a vote, as an event carries them. -/
structure RawVote where
  session : Option String := none
  reviewer : Option String := none
  dimension : Option String := none
  choice : Option String := none
  network : Option String := none
  genesis : Option String := none
  submission : Option String := none
  original : Option String := none
  creator : Option String := none
  baseMedia : Option (Int × String) := none
  baseJournal : Option (Int × String) := none
  closeHeight : Option Int := none
  nonce : Option String := none
  authenticated : Option Bool := none
  /-- The keys that are no field of a vote. -/
  unexpected : List String := []
  deriving DecidableEq

structure Vote where
  session : String
  reviewer : String
  dimension : String := "originality"
  choice : String := "original"
  network : String := networkId
  genesis : String := genesisId
  submission : String := "submission-s"
  original : String := "original-s"
  creator : String := "creator"
  baseMedia : Int × String := (0, genesisId)
  baseJournal : Int × String := (0, "unused")
  closeHeight : Int := 4
  nonce : String := "0"
  authenticated : Bool := true
  deriving DecidableEq

/-- An admitted vote, with the status of its reviewer and its place in the journal. -/
structure Row where
  vote : RawVote
  status : String
  position : Int × Nat
  deriving DecidableEq

structure Session where
  sid : String
  submission : String
  original : String
  creator : String
  opened : Int
  close : Int
  media : Int × String
  journal : Int × String
  eligibility : Table String String
  admitted : List Row := []
  conflicts : Finset (String × String) := ∅
  closed : Option Value := none
  closeSource : Option (Int × String × Nat) := none
  attempt : Int := 0

/-- Height, index, digest and reason of an ordered vote. -/
abbrev Observation := Int × Nat × String × String

structure State where
  window : Int := 3
  height : Int := 0
  tip : String := "J0-model"
  media : Int × String := (0, genesisId)
  sessions : Table String Session := []
  charges : Table (String × String) Int := []
  penalties : Table String Int := []
  statuses : Table String String := []
  observations : List Observation := []
  settled : Table String String := []

structure OpenEvent where
  sid : String
  submission : String
  original : String
  creator : String
  window : Value
  authenticated : Bool
  sourcesValid : Bool
  attempt : Int

structure PenaltyEvent where
  reviewer : String
  endEpoch : Int
  authenticatedProof : Bool

structure StatusEvent where
  reviewer : String
  status : String
  authenticatedHistory : Bool

structure Media where
  context : List String
  authenticated : Bool
  available : Bool
  height : Int
  parent : String
  hash : String
  original : String
  session : String
  closeSource : Option (Int × String × Nat)
  result : Value
  otherMediaChecks : Bool

/-- An event of a batch. `other` is an event that no branch reads: of another kind, or
with a CLOSE of another shape. -/
inductive Event where
  | close (result : Value)
  | «open» (event : OpenEvent)
  | vote (raw : RawVote)
  | penalty (event : PenaltyEvent)
  | status (event : StatusEvent)
  | anchor (media : Media)
  | other (kind : String)

/-- `event['kind']`. -/
def Event.kind : Event → String
  | .close _ => "CLOSE"
  | .open _ => "OPEN"
  | .vote _ => "VOTE"
  | .penalty _ => "PENALTY"
  | .status _ => "STATUS"
  | .anchor _ => "ANCHOR"
  | .other kind => kind

structure Batch where
  height : Int
  parent : String
  events : List Event

structure Certificate where
  height : Int
  parent : String
  value : String
  round : Value := .int 0
  context : Context := {}
  signers : List Value := [.int 0, .int 1, .int 2]
  authenticated : Bool := true

/-- The content digests of the source. -/
structure Hashing where
  rows : List Row → String
  event : Event → String
  batch : Batch → String

/-! ## Tallies -/

structure Tally where
  positive : Nat
  negative : Nat
  unsure : Nat
  established : Nat
  total : Nat
  decisive : Nat
  quorum : Bool
  outcome : String
  deriving DecidableEq

def Tally.toValue (t : Tally) : Value :=
  .dict [("positive", .int t.positive), ("negative", .int t.negative), ("unsure", .int t.unsure),
    ("established", .int t.established), ("total", .int t.total), ("decisive", .int t.decisive),
    ("quorum", .bool t.quorum), ("outcome", .str t.outcome)]

/-- The rows of a dimension. Every row is asked for its dimension. -/
def selectRows (rows : List Row) (dimension : String) : Py (List Row) :=
  filterPy (fun r => do
    let d ← orRaise r.vote.dimension (missingKey "dimension")
    .ok (decide (d = dimension))) rows

/-- The outcome of a dimension from its counts. -/
def tallyOutcome (positive negative : Nat) (quorum : Bool) : String :=
  if quorum = false ∨ positive + negative = 0 then "UNDECIDED"
  else if 7000 * (positive + negative) ≤ 10000 * positive then "PASS"
  else "FAIL"

def tally (rows : List Row) (dimension : String) : Py Tally := do
  require (dimension ∈ dimensions) (rejected "wrong dimension")
  let selected ← selectRows rows dimension
  let reviewers ← selected.mapM fun r => orRaise r.vote.reviewer (missingKey "reviewer")
  require (reviewers.toFinset.card = selected.length) (rejected "duplicate tally slot")
  let made ← selected.mapM fun r => orRaise r.vote.choice (missingKey "choice")
  let count := fun i => made.count ((choices dimension).getD i "")
  let established := (selected.filter fun r => r.status = "established").length
  let quorum := decide (5 ≤ selected.length ∧ 1 ≤ established)
  .ok { positive := count 0, negative := count 1, unsure := count 2, established
        total := selected.length, decisive := count 0 + count 1, quorum
        outcome := tallyOutcome (count 0) (count 1) quorum }

/-- The result that a CLOSE event has to carry. -/
structure CloseResult where
  session : String
  openHeight : Int
  closeHeight : Int
  count : Nat
  orderedCommitment : String
  originality : Tally
  admissibility : Tally
  outcome : String
  deriving DecidableEq

def CloseResult.toValue (r : CloseResult) : Value :=
  .dict [("session", .str r.session), ("open_height", .int r.openHeight),
    ("close_height", .int r.closeHeight), ("count", .int r.count),
    ("ordered_commitment", .str r.orderedCommitment),
    ("dimensions", .dict [("originality", r.originality.toValue),
      ("admissibility", r.admissibility.toValue)]),
    ("outcome", .str r.outcome)]

def result (H : Hashing) (session : Session) : Py CloseResult := do
  let originality ← tally session.admitted "originality"
  let admissibility ← tally session.admitted "admissibility"
  let outcomes := [originality.outcome, admissibility.outcome]
  .ok { session := session.sid, openHeight := session.opened, closeHeight := session.close
        count := session.admitted.length, orderedCommitment := H.rows session.admitted
        originality, admissibility
        outcome := if "FAIL" ∈ outcomes then "FAIL"
          else if outcomes = ["PASS", "PASS"] then "PASS" else "UNDECIDED" }

/-- The open sessions whose close height is `height`, by session id. -/
def dueSessions (state : State) (height : Int) : List Session :=
  ((state.sessions.insertionSort fun a b => a.1 ≤ b.1).map Prod.snd).filter
    fun s => s.closed.isNone && s.close == height

/-- The results of the CLOSE events that `height` requires. -/
def dueCloses (H : Hashing) (state : State) (height : Int) : Py (List CloseResult) :=
  (dueSessions state height).mapM (result H)

/-! ## Votes -/

/-- `Vote(**raw)`. -/
def Vote.ofRaw (raw : RawVote) : Py Vote := do
  require (raw.unexpected = []) (.type "got an unexpected keyword argument")
  let session ← orRaise raw.session (.type "missing required argument: 'session'")
  let reviewer ← orRaise raw.reviewer (.type "missing required argument: 'reviewer'")
  let default : Vote := { session, reviewer }
  .ok { session, reviewer
        dimension := raw.dimension.getD default.dimension
        choice := raw.choice.getD default.choice
        network := raw.network.getD default.network
        genesis := raw.genesis.getD default.genesis
        submission := raw.submission.getD default.submission
        original := raw.original.getD default.original
        creator := raw.creator.getD default.creator
        baseMedia := raw.baseMedia.getD default.baseMedia
        baseJournal := raw.baseJournal.getD default.baseJournal
        closeHeight := raw.closeHeight.getD default.closeHeight
        nonce := raw.nonce.getD default.nonce
        authenticated := raw.authenticated.getD default.authenticated }

/-- The vote names the session as it was opened. -/
def Vote.bound (v : Vote) (s : Session) : Prop :=
  v.submission = s.submission ∧ v.original = s.original ∧ v.creator = s.creator ∧
    v.baseMedia = s.media ∧ v.baseJournal = s.journal ∧ v.closeHeight = s.close

instance (v : Vote) (s : Session) : Decidable (v.bound s) := by
  unfold Vote.bound
  infer_instance

/-- The row is in the slot of the vote. -/
def sameSlot (v : Vote) (r : Row) : Py Bool := do
  let dimension ← orRaise r.vote.dimension (missingKey "dimension")
  let reviewer ← orRaise r.vote.reviewer (missingKey "reviewer")
  .ok (decide ((dimension, reviewer) = (v.dimension, v.reviewer)))

/-- The submissions for which the reviewer is charged in the epoch. -/
def usedQuota (state : State) (reviewer : String) (epoch : Int) : Nat :=
  (state.charges.filter fun c => c.1.1 = reviewer ∧ c.2 = epoch).length

/-- The quota of a reviewer by its status. -/
def quotaOf (status : Option String) : Nat := if status = some "probationary" then 5 else 25

/-- A vote in a free slot of its open session: eligibility, media epoch and quota. -/
def admitFresh (state : State) (s : Session) (v : Vote) (raw : RawVote) (height : Int)
    (index : Nat) : State × String :=
  let status := s.eligibility.get? v.reviewer
  if status ∉ [some "probationary", some "established"] ∨ v.reviewer = s.creator then
    (state, "INELIGIBLE")
  else if state.media ≠ s.media then (state, "STALE_SESSION")
  else
    let epoch := state.media.1 / 5
    if epoch < (state.penalties.get? v.reviewer).getD (-1) then (state, "PENALIZED")
    else
      let key := (v.reviewer, s.submission)
      let row : Row := { vote := raw, status := status.getD "", position := (height, index) }
      let sessions := state.sessions.set v.session { s with admitted := s.admitted ++ [row] }
      if (state.charges.get? key).isSome then ({ state with sessions }, "ADMIT")
      else if quotaOf status ≤ usedQuota state v.reviewer epoch then (state, "QUOTA_EXHAUSTED")
      else ({ state with sessions, charges := state.charges.set key epoch }, "ADMIT")

/-- A vote that is bound to its open session. A slot keeps its first vote. -/
def admitOpen (state : State) (s : Session) (v : Vote) (raw : RawVote) (height : Int)
    (index : Nat) : Py (State × String) := do
  match ← findPy (sameSlot v) s.admitted with
  | some prior =>
    let choice ← orRaise prior.vote.choice (missingKey "choice")
    let conflicts := insert (v.dimension, v.reviewer) s.conflicts
    .ok (if choice = v.choice then (state, "DUPLICATE")
      else ({ state with sessions := state.sessions.set v.session { s with conflicts } },
        "CONFLICT"))
  | none => .ok (admitFresh state s v raw height index)

/-- Order a vote: the state after it, and the reason that is observed. -/
def admitVote (state : State) (raw : RawVote) (height : Int) (index : Nat) :
    Py (State × String) := do
  let v ← Vote.ofRaw raw
  require (v.authenticated = true) (rejected "unauthenticated vote")
  if (v.network, v.genesis) ≠ (networkId, genesisId) then .ok (state, "WRONG_CONTEXT")
  else match state.sessions.get? v.session with
  | none => .ok (state, "WRONG_SESSION")
  | some s =>
    if ¬v.bound s then .ok (state, "WRONG_BINDING")
    else if v.dimension ∉ dimensions ∨ v.choice ∉ choices v.dimension then
      .ok (state, "WRONG_DIMENSION_OR_CHOICE")
    else if s.closed.isSome = true ∨ s.close ≤ height then .ok (state, "LATE")
    else if height ≤ s.opened then .ok (state, "OPEN_HEIGHT")
    else admitOpen state s v raw height index

/-! ## The other events -/

/-- `dict` lookup of a session by a value. -/
def State.session (state : State) (key : Value) : Py (String × Session) :=
  match key with
  | .str sid => do
    let s ← orRaise (state.sessions.get? sid) (missingKey sid)
    .ok (sid, s)
  | _ => .error (missingKey "session")

def applyClose (H : Hashing) (batch : Batch) (out : State) (closed : Value) (i : Nat) :
    Py State := do
  let key ← closed.item "session"
  let (sid, s) ← out.session key
  let closedSession := { s with closed, closeSource := some (batch.height, H.batch batch, i) }
  .ok { out with sessions := out.sessions.set sid closedSession }

/-- `[s for s in out.sessions.values() if s.submission == sub or s.original == original]`. -/
def priorSessions (out : State) (event : OpenEvent) : List Session :=
  out.sessions.values.filter fun s =>
    s.submission = event.submission ∨ s.original = event.original

/-- `max(prior, key=lambda s: s.opened)`, of which `best` is the first item. -/
def lastOpened (best : Session) : List Session → Session
  | [] => best
  | s :: rest => lastOpened (if best.opened < s.opened then s else best) rest

/-- Whether a session may be opened after the prior ones of its original. -/
def checkPrior (out : State) (batch : Batch) (event : OpenEvent) : List Session → Py Unit
  | [] => require (event.attempt = 0) (rejected "retry without previous session")
  | s :: rest => do
    let last := lastOpened s rest
    require ((event.submission, event.original, event.creator) =
      (last.submission, last.original, last.creator)) (rejected "original/submission identity")
    let closed ← orRaise last.closed (rejected "original/submission lock")
    require (last.attempt = 0 ∧ event.attempt = 1) (rejected "retry limit")
    let outcome ← closed.item "outcome"
    require (outcome.pyEq (.str "FAIL") = false) (rejected "terminal negative")
    require (outcome.pyEq (.str "PASS") = false ∨ out.media ≠ last.media)
      (rejected "outstanding passed admission")
    require (last.close + (last.close - last.opened) ≤ batch.height) (rejected "retry delay")

/-- The session that an OPEN event makes. -/
def newSession (state : State) (batch : Batch) (out : State) (event : OpenEvent) (window : Int) :
    Session where
  sid := event.sid
  submission := event.submission
  original := event.original
  creator := event.creator
  opened := batch.height
  close := batch.height + window
  media := out.media
  journal := (state.height, state.tip)
  eligibility := out.statuses
  attempt := event.attempt

def applyOpen (state : State) (batch : Batch) (out : State) (event : OpenEvent) : Py State := do
  require (event.authenticated = true ∧ event.sourcesValid = true)
    (rejected "unverified OPEN sources")
  require (out.sessions.get? event.sid = none ∧ out.settled.get? event.original = none)
    (rejected "duplicate session/original")
  checkPrior out batch event (priorSessions out event)
  let window ← event.window.intIn 2 (9007199254740991 - batch.height) (rejected "window overflow")
  require (window = state.window) (rejected "fixed policy window")
  .ok { out with sessions :=
    out.sessions.set event.sid (newSession state batch out event window) }

/-- The media may settle its review on top of the anchored media. -/
def validateMedia (state : State) (media : Media) (localMedia : Int × String) : Py String := do
  require (media.authenticated = true ∧
    media.context = [networkId, genesisId, "media", committeeId]) (rejected "media authority")
  require (media.available = true) (rejected "missing media evidence" "INCOMPLETE_HISTORY")
  require (media.otherMediaChecks = true) (rejected "media safety/native/rights checks")
  require (state.media.1 ≤ localMedia.1)
    (rejected "journal anchor ahead of local media" "INCOMPLETE_HISTORY")
  require (localMedia = state.media) (rejected "unanchored or incompatible media parent")
  let s ← orRaise (state.sessions.get? media.session)
    (rejected "missing review session" "INCOMPLETE_HISTORY")
  let closed ← orRaise s.closed (rejected "unfinalized/open review")
  require (media.closeSource = s.closeSource ∧ media.result.pyEq closed = true)
    (rejected "substituted review")
  let outcome ← closed.item "outcome"
  require (outcome.pyEq (.str "PASS") = true) (rejected "nonpassing review")
  require (s.media = state.media ∧ (media.height - 1, media.parent) = s.media)
    (rejected "stale media parent")
  require (media.original = s.original ∧ state.settled.get? s.original = none)
    (rejected "duplicate/conflicting admission")
  .ok "PASS"

def applyAnchor (out : State) (m : Media) : Py State := do
  let _ ← validateMedia out m out.media
  .ok { out with media := (m.height, m.hash), settled := out.settled.set m.original m.hash }

/-- The effect of the event at place `i` of the batch. -/
def applyEvent (H : Hashing) (state : State) (batch : Batch) (out : State) (event : Event)
    (i : Nat) : Py State :=
  match event with
  | .close closed => applyClose H batch out closed i
  | .open e => applyOpen state batch out e
  | .vote raw => do
    let (admitted, reason) ← admitVote out raw batch.height i
    .ok { admitted with observations :=
      admitted.observations ++ [(batch.height, i, H.event event, reason)] }
  | .penalty e => do
    require (e.authenticatedProof = true) (rejected "unproved penalty")
    .ok { out with penalties :=
      out.penalties.set e.reviewer (max ((out.penalties.get? e.reviewer).getD (-1)) e.endEpoch) }
  | .status e => do
    require (e.authenticatedHistory = true) (rejected "unproved status")
    .ok { out with statuses := out.statuses.set e.reviewer e.status }
  | .anchor m => applyAnchor out m
  | .other _ => .error (rejected "unknown event")

/-! ## A batch -/

/-- `sources(batch)`. -/
def sources (H : Hashing) (batch : Batch) : Finset String := (batch.events.map H.event).toFinset

/-- The event equals the CLOSE event with that result. -/
def Event.isClose (event : Event) (r : CloseResult) : Bool :=
  match event with
  | .close v => v.pyEq r.toValue
  | _ => false

/-- `events[:len(expected)] == expected`. -/
def startsWithCloses : List Event → List CloseResult → Bool
  | _, [] => true
  | [], _ :: _ => false
  | e :: es, r :: rs => e.isClose r && startsWithCloses es rs

/-- The number of events of a kind. -/
def countKind (events : List Event) (kind : String) : Nat :=
  (events.filter fun e => e.kind = kind).length

/-- The events from place `i` on, in order. -/
def applyEvents (H : Hashing) (state : State) (batch : Batch) :
    State → List Event → Nat → Py State
  | out, [], _ => .ok out
  | out, event :: rest, i => do
    let next ← applyEvent H state batch out event i
    applyEvents H state batch next rest (i + 1)

/-- Validate one complete finalized transition. -/
def apply (H : Hashing) (state : State) (batch : Batch) (cert : Certificate)
    (available : Finset String) : Py State := do
  require (cert.authenticated = true ∧ cert.context = {}) (rejected "untrusted journal authority")
  require (3 ≤ cert.signers.toFinset.card ∧ cert.signers.toFinset.card = cert.signers.length ∧
    cert.signers.toFinset ⊆ {.int 0, .int 1, .int 2, .int 3}) (rejected "invalid quorum")
  let _ ← cert.round.intIn 0 2147483647 (rejected "round")
  require ((cert.height, cert.parent, cert.value) = (batch.height, batch.parent, H.batch batch))
    (rejected "proof binding")
  require (batch.height = state.height + 1)
    (rejected "missing journal segment" "INCOMPLETE_HISTORY")
  require (batch.parent = state.tip) (rejected "incompatible journal parent")
  require (sources H batch ⊆ available) (rejected "missing source evidence" "INCOMPLETE_HISTORY")
  let expected ← dueCloses H state batch.height
  require (startsWithCloses batch.events expected = true) (rejected "mandatory ordered CLOSE")
  require (countKind batch.events "CLOSE" = expected.length) (rejected "extra CLOSE")
  require (countKind batch.events "OPEN" ≤ 16) (rejected "OPEN close reservation")
  require (countKind batch.events "VOTE" ≤ 24) (rejected "VOTE count cap")
  require (countKind batch.events "ANCHOR" ≤ 1) (rejected "ANCHOR count")
  require (¬(countKind batch.events "ANCHOR" ≠ 0 ∧ countKind batch.events "OPEN" ≠ 0))
    (rejected "OPEN and ANCHOR")
  require (countKind (batch.events.drop (expected.length + 1)) "ANCHOR" = 0)
    (rejected "ANCHOR order")
  let out ← applyEvents H state batch state batch.events 0
  .ok { out with height := batch.height, tip := H.batch batch }

/-! ## Building batches -/

/-- The next batch with its required CLOSE events in front. -/
def batchFor (H : Hashing) (state : State) (events : List Event) : Py Batch := do
  let closes ← dueCloses H state (state.height + 1)
  .ok { height := state.height + 1, parent := state.tip
        events := closes.map (fun r => .close r.toValue) ++ events }

def certificateFor (H : Hashing) (batch : Batch) : Certificate where
  height := batch.height
  parent := batch.parent
  value := H.batch batch

def step (H : Hashing) (state : State) (events : List Event) : Py State := do
  let batch ← batchFor H state events
  apply H state batch (certificateFor H batch) (sources H batch)

def openEvent (sid : String) (window : Int) : Event :=
  .open { sid, submission := "submission-" ++ sid, original := "original-" ++ sid
          creator := "creator", window := .int window, authenticated := true
          sourcesValid := true, attempt := 0 }

def voteEvent (s : Session) (reviewer dimension choice : String) : Event :=
  .vote { session := s.sid, reviewer, dimension, choice, submission := s.submission
          original := s.original, creator := s.creator, baseMedia := s.media
          baseJournal := s.journal, closeHeight := s.close }

def mediaCandidate (s : Session) (name : String) : Media where
  context := [networkId, genesisId, "media", committeeId]
  authenticated := true
  available := true
  height := s.media.1 + 1
  parent := s.media.2
  hash := name
  original := s.original
  session := s.sid
  closeSource := s.closeSource
  result := s.closed.getD .null
  otherMediaChecks := true

/-! ## What an accepted event does -/

/-- A vote of the batch at `height` leaves all of a session but its votes. -/
structure Session.Voted (height : Int) (s s' : Session) : Prop where
  same : s' = { s with admitted := s'.admitted, conflicts := s'.conflicts }
  admitted : s'.admitted = s.admitted ∨
    ∃ row, s'.admitted = s.admitted ++ [row] ∧ row.position.1 = height

/-- Ordering a vote changes at most the votes of one open session and the charges. -/
inductive VoteCase (height : Int) (out : State) : State → Prop where
  | observed : VoteCase height out out
  | voted {sid : String} {s s' : Session} (charges : Table (String × String) Int)
      (hs : out.sessions.get? sid = some s) (hopen : s.closed = none) (hlater : s.opened < height)
      (hearlier : height < s.close) (hvoted : s.Voted height s') :
      VoteCase height out { out with sessions := out.sessions.set sid s', charges }

theorem admitFresh_cases {out out' : State} {s : Session} {v : Vote} {raw : RawVote}
    {height : Int} {index : Nat} {reason : String}
    (h : admitFresh out s v raw height index = (out', reason))
    (hs : out.sessions.get? v.session = some s) (hopen : s.closed = none)
    (hlater : s.opened < height) (hearlier : height < s.close) : VoteCase height out out' := by
  have hvoted : ∀ row : Row, row.position.1 = height →
      s.Voted height { s with admitted := s.admitted ++ [row] } :=
    fun row hrow => ⟨rfl, Or.inr ⟨row, rfl, hrow⟩⟩
  unfold admitFresh at h
  dsimp only at h
  split at h
  · cases h; exact .observed
  split at h
  · cases h; exact .observed
  split at h
  · cases h; exact .observed
  split at h
  · cases h
    exact .voted out.charges hs hopen hlater hearlier (hvoted _ rfl)
  split at h
  · cases h; exact .observed
  · cases h
    exact .voted _ hs hopen hlater hearlier (hvoted _ rfl)

theorem admitOpen_cases {out out' : State} {s : Session} {v : Vote} {raw : RawVote}
    {height : Int} {index : Nat} {reason : String}
    (h : admitOpen out s v raw height index = .ok (out', reason))
    (hs : out.sessions.get? v.session = some s) (hopen : s.closed = none)
    (hlater : s.opened < height) (hearlier : height < s.close) : VoteCase height out out' := by
  obtain ⟨prior, -, h⟩ := bind_eq_ok.mp h
  cases prior with
  | none => exact admitFresh_cases (Except.ok.inj h) hs hopen hlater hearlier
  | some prior =>
    obtain ⟨choice, -, h⟩ := bind_eq_ok.mp h
    have h := Except.ok.inj h
    split at h
    · cases h; exact .observed
    · cases h
      exact .voted out.charges hs hopen hlater hearlier ⟨rfl, Or.inl rfl⟩

theorem admit_cases {out out' : State} {raw : RawVote} {height : Int} {index : Nat}
    {reason : String} (h : admitVote out raw height index = .ok (out', reason)) :
    VoteCase height out out' := by
  obtain ⟨v, -, h⟩ := bind_eq_ok.mp h
  obtain ⟨⟨⟩, -, h⟩ := bind_eq_ok.mp h
  split at h
  · cases h; exact .observed
  split at h
  · cases h; exact .observed
  · next s hs =>
    split at h
    · cases h; exact .observed
    split at h
    · cases h; exact .observed
    split at h
    · cases h; exact .observed
    · next hlate =>
      obtain ⟨hopen, hearlier⟩ := not_or.mp hlate
      split at h
      · cases h; exact .observed
      · next hlater =>
        exact admitOpen_cases h hs (by simpa using hopen) (by omega) (by omega)

/-- The effect of an accepted event on the state, with what the source checked. -/
inductive EventCase (H : Hashing) (state : State) (batch : Batch) (out : State) (i : Nat) :
    Event → State → Prop where
  | close {closed : Value} {sid : String} {s : Session}
      (hsid : closed.item "session" = .ok (.str sid)) (hs : out.sessions.get? sid = some s) :
      EventCase H state batch out i (.close closed) { out with
        sessions := out.sessions.set sid
          { s with closed, closeSource := some (batch.height, H.batch batch, i) } }
  | opened {e : OpenEvent} {window : Int} (hfresh : out.sessions.get? e.sid = none)
      (hunsettled : out.settled.get? e.original = none)
      (hprior : checkPrior out batch e (priorSessions out e) = .ok ()) (hwindow : 2 ≤ window)
      (hfixed : window = state.window) :
      EventCase H state batch out i (.open e) { out with
        sessions := out.sessions.set e.sid (newSession state batch out e window) }
  | vote {raw : RawVote} {voted : State} (observations : List Observation)
      (hvoted : VoteCase batch.height out voted) :
      EventCase H state batch out i (.vote raw) { voted with observations }
  | penalty {e : PenaltyEvent} (penalties : Table String Int) :
      EventCase H state batch out i (.penalty e) { out with penalties }
  | status {e : StatusEvent} (statuses : Table String String) :
      EventCase H state batch out i (.status e) { out with statuses }
  | anchor {m : Media} (hmedia : validateMedia out m out.media = .ok "PASS") :
      EventCase H state batch out i (.anchor m) { out with
        media := (m.height, m.hash), settled := out.settled.set m.original m.hash }

theorem State.session_eq_ok {out : State} {key : Value} {sid : String} {s : Session} :
    out.session key = .ok (sid, s) ↔ key = .str sid ∧ out.sessions.get? sid = some s := by
  cases key with
  | str t =>
    simp only [State.session, bind_eq_ok, orRaise_eq_ok, Except.ok.injEq, Prod.mk.injEq,
      Value.str.injEq]
    constructor
    · rintro ⟨a, ha, rfl, rfl⟩
      exact ⟨rfl, ha⟩
    · rintro ⟨rfl, hs⟩
      exact ⟨s, hs, rfl, rfl⟩
  | _ => simp [State.session]

theorem validateMedia_pass {out : State} {m : Media} {media : Int × String} {verdict : String}
    (h : validateMedia out m media = .ok verdict) : verdict = "PASS" := by
  simp only [validateMedia, bind_eq_ok, Except.ok.injEq] at h
  obtain ⟨-, -, -, -, -, -, -, -, -, -, s, -, closed, -, -, -, outcome, -, -, -, -, -, -, -,
    hpass⟩ := h
  exact hpass.symm

theorem applyEvent_cases {H : Hashing} {state out out' : State} {batch : Batch} {event : Event}
    {i : Nat} (h : applyEvent H state batch out event i = .ok out') :
    EventCase H state batch out i event out' := by
  cases event with
  | close closed =>
    obtain ⟨key, hkey, hrest⟩ := bind_eq_ok.mp h
    obtain ⟨⟨sid, s⟩, hsession, hout⟩ := bind_eq_ok.mp hrest
    obtain ⟨rfl, hs⟩ := State.session_eq_ok.mp hsession
    cases hout
    exact .close hkey hs
  | «open» e =>
    obtain ⟨⟨⟩, -, h⟩ := bind_eq_ok.mp h
    obtain ⟨⟨⟩, hfresh, h⟩ := bind_eq_ok.mp h
    obtain ⟨hfresh, hunsettled⟩ := require_eq_ok.mp hfresh
    obtain ⟨⟨⟩, hprior, h⟩ := bind_eq_ok.mp h
    obtain ⟨window, hwindow, h⟩ := bind_eq_ok.mp h
    obtain ⟨⟨⟩, hfixed, h⟩ := bind_eq_ok.mp h
    cases h
    exact .opened hfresh hunsettled hprior (Value.intIn_eq_ok.mp hwindow).2.1
      (require_eq_ok.mp hfixed)
  | vote raw =>
    obtain ⟨⟨voted, reason⟩, hvoted, h⟩ := bind_eq_ok.mp h
    cases h
    exact .vote _ (admit_cases hvoted)
  | penalty e =>
    obtain ⟨⟨⟩, -, h⟩ := bind_eq_ok.mp h
    cases h
    exact .penalty _
  | status e =>
    obtain ⟨⟨⟩, -, h⟩ := bind_eq_ok.mp h
    cases h
    exact .status _
  | anchor m =>
    obtain ⟨verdict, hmedia, h⟩ := bind_eq_ok.mp h
    obtain rfl := validateMedia_pass hmedia
    cases h
    exact .anchor hmedia
  | other kind => cases h

/-! ## What an accepted batch has passed -/

/-- A batch that `apply` accepts. -/
structure AppliedBatch (H : Hashing) (state : State) (batch : Batch) (out : State) : Prop where
  height : batch.height = state.height + 1
  /-- The required results are there, in order, and there is no other CLOSE. -/
  closes : ∃ expected, dueCloses H state batch.height = .ok expected ∧
    startsWithCloses batch.events expected = true ∧
    countKind batch.events "CLOSE" = expected.length
  anchor : countKind batch.events "ANCHOR" = 0 ∨ countKind batch.events "OPEN" = 0
  events : ∃ last, applyEvents H state batch state batch.events 0 = .ok last ∧
    out = { last with height := batch.height, tip := H.batch batch }

theorem apply_eq_ok {H : Hashing} {state out : State} {batch : Batch} {cert : Certificate}
    {available : Finset String} (h : apply H state batch cert available = .ok out) :
    AppliedBatch H state batch out := by
  simp only [apply, bind_eq_ok, require_eq_ok, Except.ok.injEq] at h
  obtain ⟨-, -, -, -, -, -, -, -, -, hheight, -, -, -, -, expected, hdue, -, hstart, -, hcount,
    -, -, -, -, -, -, -, hanchor, -, -, last, hlast, hout⟩ := h
  exact ⟨hheight, ⟨expected, hdue, hstart, hcount⟩, by tauto, last, hlast, hout.symm⟩

/-- One accepted batch. -/
def Step (H : Hashing) (state out : State) : Prop :=
  ∃ batch cert available, apply H state batch cert available = .ok out

/-- The states that accepted batches lead to. -/
def Reachable (H : Hashing) : State → State → Prop := Relation.ReflTransGen (Step H)

theorem Step.of_step {H : Hashing} {state out : State} {events : List Event}
    (h : step H state events = .ok out) : Step H state out := by
  obtain ⟨batch, -, h⟩ := bind_eq_ok.mp h
  exact ⟨batch, _, _, h⟩

/-! ### A sample run

A session is opened, five reviewers pass it in both dimensions, it is closed, and its media
is anchored. -/

/-- Digests that tell heights apart. -/
def sampleHashing : Hashing where
  rows _ := "rows"
  event e := e.kind
  batch b := b.parent ++ "'"

def sampleReviewers : List String := ["r0", "r1", "r2", "r3", "r4"]

def sampleInitial : State where
  window := 2
  statuses := sampleReviewers.map fun r => (r, if r = "r0" then "established" else "probationary")

def sampleVotes (s : Session) : List Event :=
  sampleReviewers.flatMap fun r =>
    [voteEvent s r "originality" "original", voteEvent s r "admissibility" "admissible"]

def sampleSession (state : State) : Py Session :=
  orRaise (state.sessions.get? "s") (missingKey "s")

/-- The states of the sample run: with an open, a closed and a settled review. -/
def sampleRun : Py (State × State × State) := do
  let opened ← step sampleHashing sampleInitial [openEvent "s" 2]
  let voted ← step sampleHashing opened (sampleVotes (← sampleSession opened))
  let closed ← step sampleHashing voted []
  let settled ← step sampleHashing closed
    [.anchor (mediaCandidate (← sampleSession closed) "media-x")]
  .ok (voted, closed, settled)

theorem sampleRun_ok : ∃ voted closed settled, sampleRun = .ok (voted, closed, settled) := by
  have hok : sampleRun.isOk = true := by decide +kernel
  cases hrun : sampleRun with
  | ok r => exact ⟨r.1, r.2.1, r.2.2, rfl⟩
  | error e =>
    rw [hrun] at hok
    cases hok

theorem reachable_sampleRun {voted closed settled : State}
    (h : sampleRun = .ok (voted, closed, settled)) :
    Reachable sampleHashing sampleInitial closed ∧
      Reachable sampleHashing sampleInitial settled := by
  obtain ⟨s₁, h₁, h⟩ := bind_eq_ok.mp h
  obtain ⟨x, -, h⟩ := bind_eq_ok.mp h
  obtain ⟨s₂, h₂, h⟩ := bind_eq_ok.mp h
  obtain ⟨s₃, h₃, h⟩ := bind_eq_ok.mp h
  obtain ⟨y, -, h⟩ := bind_eq_ok.mp h
  obtain ⟨s₄, h₄, h⟩ := bind_eq_ok.mp h
  cases h
  have hclosed : Reachable sampleHashing sampleInitial closed :=
    ((Relation.ReflTransGen.single (.of_step h₁)).tail (.of_step h₂)).tail (.of_step h₃)
  exact ⟨hclosed, hclosed.tail (.of_step h₄)⟩

end ReviewJournal

end ZoidbergChain
