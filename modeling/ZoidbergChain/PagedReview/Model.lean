import ZoidbergChain.Python.Control
import ZoidbergChain.Python.Table

/-!
# Reviews with an expiry index

The bounded application experiment of `verification/review717r/model.py`: review sessions are
opened, started one height later, voted on, and closed in pages from an ordered index of
their deadlines.

- `step` is one accepted batch: the clock, the mandatory page of closes, the mandatory starts,
  the votes and the opens.
- `Reachable`: the states that steps lead to from the empty one.

A vote is the `dict` that `vote_fact` builds, an open the one of `open_fact`. The digests of
the source are functions of what they digest, which may raise.
-/

namespace ZoidbergChain

open Python

namespace PagedReview

/-! ## Constants -/

/-- `MAX_LIVE`. -/
def maxLive : Nat := 4096

/-- `PAGE`. -/
def pageSize : Nat := 16

/-- `OPEN_LIMIT`. -/
def openLimit : Nat := 16

/-- `EPSILON`. -/
def epsilon : Int := 1

/-- `WINDOW`. -/
def window : Int := 1200

/-- `EPOCH_SPAN`. -/
def epochSpan : Int := 300

def maxReading : Int := 9007199254740991

/-- `CONTEXT`. -/
structure Context where
  network : String := "r717-laboratory"
  genesis : String := "1111111111111111111111111111111111111111111111111111111111111111"
  protocol : Int := 1
  «instance» : String := "2222222222222222222222222222222222222222222222222222222222222222"
  validators : String := "3333333333333333333333333333333333333333333333333333333333333333"
  membership : Int := 0
  policy : String := "4444444444444444444444444444444444444444444444444444444444444444"
  deriving DecidableEq

/-! ## Data -/

structure Tally where
  positive : Nat
  negative : Nat
  unsure : Nat
  established : Nat
  total : Nat
  decisive : Nat
  numerator : Nat
  denominator : Nat
  outcome : Nat
  deriving DecidableEq

/-- `tally`, of the counts of one dimension. -/
def tally (counts : List Nat) : Tally :=
  let p := counts.getD 0 0
  let n := counts.getD 1 0
  let u := counts.getD 2 0
  let e := counts.getD 3 0
  let d := p + n
  let total := p + n + u
  { positive := p, negative := n, unsure := u, established := e, total, decisive := d
    numerator := p / Nat.gcd p d, denominator := d / Nat.gcd p d
    outcome := if total < 5 ∨ e < 1 ∨ d = 0 then 0 else if 7000 * d ≤ 10000 * p then 1 else 2 }

/-- `close_row`. -/
structure CloseRow where
  sid : String
  deadline : Int
  freezeHeight : Int
  count : Nat
  fold : String
  originality : Tally
  admissibility : Tally
  outcome : Nat
  deriving DecidableEq

structure Slot where
  choice : Nat
  height : Int
  index : Nat
  status : Int
  deriving DecidableEq

structure Session where
  sid : String
  submission : String
  original : String
  creator : String
  opened : Int
  baseHeight : Int
  baseHash : String
  mediaHeight : Int
  mediaHash : String
  eligibility : Table String Int
  deadline : Option Int := none
  started : Option Int := none
  count : Nat := 0
  fold : String := "0000000000000000000000000000000000000000000000000000000000000000"
  counts : List (List Nat) := [[0, 0, 0, 0], [0, 0, 0, 0]]
  slots : Table (Nat × String) Slot := []
  conflicts : Finset (Nat × String) := ∅
  close : Option CloseRow := none
  closePosition : Option (Int × Nat) := none

/-- A deadline and a session. -/
abbrev Entry := Int × String

structure State where
  height : Int := 0
  tip : String := "0000000000000000000000000000000000000000000000000000000000000000"
  lower : Int := 0
  median : Int := 0
  epoch : Int := 0
  sessions : Table String Session := []
  originals : Finset String := ∅
  submissions : Finset String := ∅
  expiry : List Entry := []
  pending : List String := []
  charges : Table (String × String) Int := []
  used : Table (String × Int) Nat := []
  penalties : Table String Int := []
  media : Int × String :=
    (0, "1111111111111111111111111111111111111111111111111111111111111111")
  finalized : Table Int String := []

structure OpenFact where
  sid : String
  submission : String
  original : String
  creator : String
  eligibility : Table String Int
  sourcesValid : Bool := false

structure VoteFact where
  context : Context
  sid : String
  submission : String
  original : String
  creator : String
  baseHeight : Int
  baseHash : String
  mediaHeight : Int
  mediaHash : String
  deadline : Option Int
  wallet : String
  dimension : Value
  choice : Value
  authenticated : Bool := false

/-- The content digests of the source. -/
structure Hashing where
  /-- `tagged('empty-votes', bytes.fromhex(s.sid))`. -/
  emptyFold : String → Py String
  /-- The fold of a session after a vote at a height and an index, with a status. -/
  nextFold : String → VoteFact → Int → Nat → Int → Py String
  /-- The digest of a step: parent, height, median, closes, observations, opens, votes. -/
  value : String → Int → Int → List CloseRow → List String → List OpenFact → List VoteFact → String

/-- The keyword arguments of `step`. -/
structure Args where
  readings : List Value
  opens : List OpenFact := []
  votes : List VoteFact := []
  suppliedPage : Option (List String) := none
  signers : List Value := [.int 0, .int 1, .int 2]
  authenticated : Bool := true
  available : Bool := true
  parent : Option String := none
  height : Option Int := none
  boundaries : List (Int × Int) := []
  context : Option Context := none
  proofValue : Option String := none
  finalized : Bool := true

/-- What `step` returns beside the state. -/
structure Report where
  closes : List CloseRow
  observations : List String
  boundary : Int × Int

/-! ## The ordered index -/

/-- `<` of two entries. -/
def Entry.before (a b : Entry) : Prop := a.1 < b.1 ∨ a.1 = b.1 ∧ a.2 < b.2

instance (a b : Entry) : Decidable (a.before b) := inferInstanceAs (Decidable (_ ∨ _))

/-- `insort`, into a sorted list. -/
def insort (e : Entry) : List Entry → List Entry
  | [] => [e]
  | f :: es => if e.before f then e :: f :: es else f :: insort e es

/-- `xs.remove(x)`. -/
def removeEntry (es : List Entry) (e : Entry) : Py (List Entry) :=
  if e ∈ es then .ok (es.erase e) else .error (.value "list.remove(x): x not in list")

/-! ## The clock and the page -/

/-- The middle one of three readings. -/
def middle (readings : List Int) : Int := (readings.insertionSort (· ≤ ·)).getD 1 0

/-- `clock`. -/
def clock (state : State) (args : Args) : Py (Int × Int) := do
  let evidence := PyError.value "clock authority/evidence"
  require (args.authenticated = true ∧ args.available = true ∧ args.readings.length = 3 ∧
    args.signers.length = 3) evidence
  let readings ← args.readings.mapM fun x => x.intIn 0 maxReading evidence
  let signers ← args.signers.mapM fun x => x.intIn 0 3 evidence
  require (signers.Pairwise (· < ·)) evidence
  require ((∀ p ∈ args.parent, p = state.tip) ∧ ∀ h ∈ args.height, h = state.height + 1)
    (.value "clock parent/height")
  let m := middle readings
  let delta : Int := if state.expiry = [] ∧ state.pending = [] then 300 else 5
  require (state.median + delta ≤ m ∧ epsilon ≤ m ∧ m + epsilon + window ≤ maxReading)
    (.value "clock cadence/overflow")
  .ok (m, m - epsilon)

/-- `page`. -/
def page (state : State) (lower : Int) : List String :=
  ((state.expiry.take pageSize).filter fun e => e.1 ≤ lower).map Prod.snd

/-- `freeze_height`. -/
def freezeHeight (deadline : Int) (boundaries : List (Int × Int)) : Py Int :=
  match boundaries.find? fun b => deadline ≤ b.2 with
  | some b => .ok b.1
  | none => .error { exc := .stopIteration, message := "" }

/-! ## Closing and starting -/

/-- A missing key of a `dict`. -/
def missingKey (key : String) : PyError := { exc := .keyError, message := key }

/-- `close_row`, of a session with a deadline. -/
def closeRow (s : Session) (deadline freezeHeight : Int) : CloseRow :=
  let a := tally (s.counts.getD 0 [])
  let b := tally (s.counts.getD 1 [])
  { sid := s.sid, deadline, freezeHeight, count := s.count, fold := s.fold, originality := a
    admissibility := b
    outcome := if a.outcome = 2 ∨ b.outcome = 2 then 2
      else if a.outcome = 1 ∧ b.outcome = 1 then 1 else 0 }

/-- The loop over the page. -/
def closePage (boundaries : List (Int × Int)) (h : Int) (out : State) :
    List String → Nat → Py (State × List CloseRow)
  | [], _ => .ok (out, [])
  | sid :: rest, index => do
    let s ← orRaise (out.sessions.get? sid) (missingKey sid)
    let deadline ← orRaise s.deadline (.type "'>=' not supported between 'int' and 'NoneType'")
    let freeze ← freezeHeight deadline boundaries
    let row := closeRow s deadline freeze
    let expiry ← removeEntry out.expiry (deadline, sid)
    let sessions := out.sessions.set sid
      { s with close := some row, closePosition := some (h, index) }
    let (last, rows) ← closePage boundaries h { out with sessions, expiry } rest (index + 1)
    .ok (last, row :: rows)

/-- The loop over the pending sessions. -/
def startPending (m h : Int) (out : State) : List String → Py State
  | [] => .ok out
  | sid :: rest => do
    let s ← orRaise (out.sessions.get? sid) (missingKey sid)
    let deadline := m + epsilon + window
    let sessions := out.sessions.set sid { s with deadline := some deadline, started := some h }
    startPending m h { out with sessions, expiry := insort (deadline, sid) out.expiry } rest

/-! ## Votes -/

/-- `closed`. -/
def Session.expired (s : Session) (lower : Int) : Prop := ∃ d ∈ s.deadline, d ≤ lower

instance (s : Session) (lower : Int) : Decidable (s.expired lower) :=
  inferInstanceAs (Decidable (∃ d ∈ s.deadline, d ≤ lower))

/-- The vote names the session as it is. -/
def VoteFact.bound (v : VoteFact) (s : Session) : Prop :=
  v.submission = s.submission ∧ v.original = s.original ∧ v.creator = s.creator ∧
    v.baseHeight = s.baseHeight ∧ v.baseHash = s.baseHash ∧ v.mediaHeight = s.mediaHeight ∧
    v.mediaHash = s.mediaHash ∧ v.deadline = s.deadline

instance (v : VoteFact) (s : Session) : Decidable (v.bound s) := by
  unfold VoteFact.bound
  infer_instance

/-- A number below a bound, or `ValueError('vote enum')`. -/
def voteEnum (v : Value) (bound : Nat) : Py Nat := do
  let n ← v.intIn 0 (bound - 1) (.value "vote enum")
  .ok n.toNat

/-- `s.counts[d][c] += 1` and `s.counts[d][3] += status == 2`. -/
def addVote (counts : List (List Nat)) (d c : Nat) (status : Int) : List (List Nat) :=
  counts.modify d fun row =>
    (row.modify c (· + 1)).modify 3 (· + if status = 2 then 1 else 0)

/-- The quota of a status. -/
def quota (status : Int) : Nat := if status = 1 then 5 else 25

/-- `state` with the submission charged to the wallet. -/
def charge (state : State) (wallet submission : String) : State :=
  { state with
    charges := state.charges.set (wallet, submission) state.epoch
    used := state.used.set (wallet, state.epoch)
      ((state.used.get? (wallet, state.epoch)).getD 0 + 1) }

/-- A vote in a free slot: eligibility, media, penalties and quota. -/
def admitFresh (H : Hashing) (state : State) (s : Session) (v : VoteFact) (d c : Nat)
    (height : Int) (index : Nat) : Py (State × String) := do
  let status := s.eligibility.get? v.wallet
  if status ∉ [some 1, some 2] ∨ v.wallet = s.creator then .ok (state, "INELIGIBLE")
  else if state.media ≠ (s.mediaHeight, s.mediaHash) then .ok (state, "STALE_SESSION")
  else if state.epoch < (state.penalties.get? v.wallet).getD 0 then .ok (state, "PENALIZED")
  else
    let status := status.getD 0
    let charged := (state.charges.get? (v.wallet, s.submission)).isSome
    if charged = false ∧ quota status ≤ (state.used.get? (v.wallet, state.epoch)).getD 0 then
      .ok (state, "QUOTA_EXHAUSTED")
    else do
      let state := if charged then state else charge state v.wallet s.submission
      let fold ← H.nextFold s.fold v height index status
      let s := { s with
        slots := s.slots.set (d, v.wallet) { choice := c, height, index, status }
        count := s.count + 1, counts := addVote s.counts d c status, fold }
      .ok ({ state with sessions := state.sessions.set v.sid s }, "ADMIT")

/-- `admit`. -/
def admitVote (H : Hashing) (state : State) (v : VoteFact) (height : Int) (index : Nat) :
    Py (State × String) := do
  require (v.authenticated = true) (.value "INVALID_SIGNATURE")
  require (v.context = {}) (.value "WRONG_NETWORK")
  match state.sessions.get? v.sid with
  | none => .ok (state, "WRONG_SESSION")
  | some s =>
    if ¬v.bound s then .ok (state, "WRONG_BINDING")
    else do
      let d ← voteEnum v.dimension 2
      let c ← voteEnum v.choice 3
      if (∀ started ∈ s.started, height ≤ started) ∨ s.expired state.lower then
        .ok (state, "LATE")
      else match s.slots.get? (d, v.wallet) with
        | some slot =>
          if slot.choice = c then .ok (state, "DUPLICATE")
          else
            let conflicts := insert (d, v.wallet) s.conflicts
            .ok ({ state with sessions := state.sessions.set v.sid { s with conflicts } },
              "CONFLICT")
        | none => admitFresh H state s v d c height index

/-- The loop over the votes. -/
def admitAll (H : Hashing) (h : Int) (out : State) : List VoteFact → Nat → Py (State × List String)
  | [], _ => .ok (out, [])
  | v :: votes, index => do
    let (out, observation) ← admitVote H out v h index
    let (last, observations) ← admitAll H h out votes (index + 1)
    .ok (last, observation :: observations)

/-! ## Opens -/

/-- One open, at the height after `state`. -/
def openOne (H : Hashing) (state out : State) (o : OpenFact) : Py State := do
  require (out.sessions.get? o.sid = none ∧ o.sourcesValid = true)
    (.value "OPEN source/identity")
  require (o.original ∉ out.originals) (.value "UNSUPPORTED_RETRY_OR_ORIGINAL_LOCK")
  require (o.submission ∉ out.submissions) (.value "submission identity lock")
  let fold ← H.emptyFold o.sid
  let s : Session := {
    sid := o.sid, submission := o.submission, original := o.original, creator := o.creator
    opened := state.height + 1, baseHeight := state.height, baseHash := state.tip
    mediaHeight := state.media.1, mediaHash := state.media.2, eligibility := o.eligibility, fold }
  .ok { out with
    sessions := out.sessions.set s.sid s
    originals := insert s.original out.originals
    submissions := insert s.submission out.submissions
    pending := out.pending ++ [s.sid] }

/-! ## One step -/

/-- `step`. -/
def step (H : Hashing) (state : State) (args : Args) : Py (State × Report) := do
  require ((∀ c ∈ args.context, c = {}) ∧ args.finalized = true) (.value "journal authority")
  let (m, lower) ← clock state args
  let h := state.height + 1
  let expected := page state lower
  require (∀ p ∈ args.suppliedPage, p = expected) (.value "mandatory close page")
  require (args.opens.length ≤ openLimit ∧ args.votes.length ≤ 96) (.value "work limit")
  let boundaries := args.boundaries ++ [(h, lower)]
  let (closed, closes) ← closePage boundaries h state expected 0
  let started ← startPending m h closed closed.pending
  let ticked := { started with
    pending := [], median := m, lower, epoch := lower / epochSpan }
  let (voted, observations) ← admitAll H h ticked args.votes 0
  require (voted.expiry.length + args.opens.length ≤ maxLive) (.value "live session cap")
  let opened ← args.opens.foldlM (openOne H state) voted
  let value := H.value state.tip h m closes observations args.opens args.votes
  require (∀ p ∈ args.proofValue, p = value) (.value "conflicting journal proof")
  .ok ({ opened with height := h, tip := value, finalized := opened.finalized.set h value },
    { closes, observations, boundary := (h, lower) })

/-! ## Runs -/

/-- An accepted step. -/
def Step (H : Hashing) (state out : State) : Prop :=
  ∃ args report, step H state args = .ok (out, report)

/-- The states that accepted steps reach from `State()`. -/
def Reachable (H : Hashing) : State → Prop := Relation.ReflTransGen (Step H) {}

/-! ## What a step does -/

section Stages

variable {H : Hashing} {state out last : State} {args : Args} {report : Report}

/-- `state` behind the starts of a step. -/
def State.tick (state : State) (m lower : Int) : State :=
  { state with pending := [], median := m, lower, epoch := lower / epochSpan }

/-- The states that an accepted step goes through. -/
structure Stages (H : Hashing) (state : State) (args : Args) (m : Int)
    (closed started voted opened : State) (report : Report) : Prop where
  height : report.boundary.1 = state.height + 1
  clock : clock state args = .ok (m, report.boundary.2)
  close : closePage (args.boundaries ++ [report.boundary]) (state.height + 1) state
    (page state report.boundary.2) 0 = .ok (closed, report.closes)
  start : startPending m (state.height + 1) closed closed.pending = .ok started
  vote : admitAll H (state.height + 1) (started.tick m report.boundary.2) args.votes 0 =
    .ok (voted, report.observations)
  cap : voted.expiry.length + args.opens.length ≤ maxLive
  opens : args.opens.foldlM (openOne H state) voted = .ok opened

theorem step_eq_ok (h : step H state args = .ok (out, report)) :
    ∃ m closed started voted opened tip finalized,
      Stages H state args m closed started voted opened report ∧
      out = { opened with height := state.height + 1, tip, finalized } := by
  unfold step at h
  obtain ⟨⟨⟩, -, h⟩ := bind_eq_ok.mp h
  obtain ⟨⟨m, lower⟩, hclock, h⟩ := bind_eq_ok.mp h
  obtain ⟨⟨⟩, -, h⟩ := bind_eq_ok.mp h
  obtain ⟨⟨⟩, -, h⟩ := bind_eq_ok.mp h
  obtain ⟨⟨closed, closes⟩, hclose, h⟩ := bind_eq_ok.mp h
  obtain ⟨started, hstart, h⟩ := bind_eq_ok.mp h
  obtain ⟨⟨voted, observations⟩, hvote, h⟩ := bind_eq_ok.mp h
  obtain ⟨⟨⟩, hcap, h⟩ := bind_eq_ok.mp h
  obtain ⟨opened, hopens, h⟩ := bind_eq_ok.mp h
  obtain ⟨⟨⟩, -, h⟩ := bind_eq_ok.mp h
  obtain ⟨rfl, rfl⟩ := Prod.mk.inj (Except.ok.inj h)
  exact ⟨m, closed, started, voted, opened, _, _,
    ⟨rfl, hclock, hclose, hstart, hvote, require_eq_ok.mp hcap, hopens⟩, rfl⟩

/-- The median moves by five at least, and the lower bound is one below it. -/
theorem clock_eq_ok {m lower : Int} (h : clock state args = .ok (m, lower)) :
    lower = m - 1 ∧ state.median + 5 ≤ m := by
  unfold clock at h
  obtain ⟨⟨⟩, -, h⟩ := bind_eq_ok.mp h
  obtain ⟨readings, -, h⟩ := bind_eq_ok.mp h
  obtain ⟨signers, -, h⟩ := bind_eq_ok.mp h
  obtain ⟨⟨⟩, -, h⟩ := bind_eq_ok.mp h
  obtain ⟨⟨⟩, -, h⟩ := bind_eq_ok.mp h
  obtain ⟨⟨⟩, hcadence, h⟩ := bind_eq_ok.mp h
  obtain ⟨hmedian, -, -⟩ := require_eq_ok.mp hcadence
  obtain ⟨rfl, rfl⟩ := Prod.mk.inj (Except.ok.inj h)
  refine ⟨rfl, ?_⟩
  -- the cadence of an idle chain is longer
  split at hmedian <;> omega

/-! ### One rule for each loop -/

/-- A property that every close keeps holds behind the page. -/
theorem closePage_rule {P : List String → State → Prop} {boundaries : List (Int × Int)} {h : Int}
    (hclose : ∀ out sid rest s d f index, P (sid :: rest) out → out.sessions.get? sid = some s →
      s.deadline = some d → freezeHeight d boundaries = .ok f → (d, sid) ∈ out.expiry →
      P rest { out with
        sessions := out.sessions.set sid
          { s with close := some (closeRow s d f), closePosition := some (h, index) }
        expiry := out.expiry.erase (d, sid) })
    {sids : List String} {index : Nat} {rows : List CloseRow}
    (hok : closePage boundaries h out sids index = .ok (last, rows)) (hout : P sids out) :
    P [] last := by
  induction sids generalizing out index rows with
  | nil =>
    obtain ⟨rfl, -⟩ := Prod.mk.inj (Except.ok.inj hok)
    exact hout
  | cons sid rest ih =>
    unfold closePage at hok
    obtain ⟨s, hs, hok⟩ := bind_eq_ok.mp hok
    obtain ⟨d, hd, hok⟩ := bind_eq_ok.mp hok
    obtain ⟨f, hf, hok⟩ := bind_eq_ok.mp hok
    obtain ⟨expiry, hexpiry, hok⟩ := bind_eq_ok.mp hok
    obtain ⟨⟨last', rows'⟩, hrest, hok⟩ := bind_eq_ok.mp hok
    obtain ⟨rfl, -⟩ := Prod.mk.inj (Except.ok.inj hok)
    unfold removeEntry at hexpiry
    split at hexpiry
    · next hmem =>
      obtain rfl := Except.ok.inj hexpiry
      exact ih hrest
        (hclose out sid rest s d f index hout (orRaise_eq_ok.mp hs) (orRaise_eq_ok.mp hd) hf hmem)
    · cases hexpiry

/-- A property that every start keeps holds when no session waits any more. -/
theorem startPending_rule {P : List String → State → Prop} {m h : Int}
    (hstart : ∀ out sid rest s, P (sid :: rest) out → out.sessions.get? sid = some s →
      P rest { out with
        sessions := out.sessions.set sid
          { s with deadline := some (m + epsilon + window), started := some h }
        expiry := insort (m + epsilon + window, sid) out.expiry })
    {sids : List String} (hok : startPending m h out sids = .ok last) (hout : P sids out) :
    P [] last := by
  induction sids generalizing out with
  | nil =>
    obtain rfl := Except.ok.inj hok
    exact hout
  | cons sid rest ih =>
    unfold startPending at hok
    obtain ⟨s, hs, hok⟩ := bind_eq_ok.mp hok
    exact ih hok (hstart out sid rest s hout (orRaise_eq_ok.mp hs))

/-- What a vote does to the state it is admitted in. -/
inductive Admission (state : State) (v : VoteFact) (height : Int) (index : Nat) : State → Prop
  | refused : Admission state v height index state
  | conflict (s : Session) (conflicts : Finset (Nat × String))
      (hs : state.sessions.get? v.sid = some s) :
      Admission state v height index
        { state with sessions := state.sessions.set v.sid { s with conflicts } }
  | admitted (s : Session) (d c : Nat) (started status : Int) (fold : String) (charged : State)
      (hs : state.sessions.get? v.sid = some s) (hd : d < 2) (hc : c < 3)
      (hstarted : s.started = some started) (hheight : started < height)
      (hopen : ¬s.expired state.lower) (hslot : s.slots.get? (d, v.wallet) = none)
      (hstatus : s.eligibility.get? v.wallet = some status) (hvoter : status = 1 ∨ status = 2)
      (hcharged : charged = state ∧ (state.charges.get? (v.wallet, s.submission)).isSome ∨
        charged = charge state v.wallet s.submission ∧
          state.charges.get? (v.wallet, s.submission) = none ∧
          (state.used.get? (v.wallet, state.epoch)).getD 0 < quota status) :
      Admission state v height index
        { charged with sessions := charged.sessions.set v.sid { s with
            slots := s.slots.set (d, v.wallet) { choice := c, height, index, status }
            count := s.count + 1, counts := addVote s.counts d c status, fold } }

theorem voteEnum_lt {v : Value} {bound n : Nat} (h : voteEnum v bound = .ok n) : n < bound := by
  unfold voteEnum at h
  obtain ⟨k, hk, h⟩ := bind_eq_ok.mp h
  obtain rfl := Except.ok.inj h
  obtain ⟨-, hlow, hhigh⟩ := Value.intIn_eq_ok.mp hk
  omega

theorem admitFresh_eq_ok {s : Session} {v : VoteFact} {d c : Nat} {height started : Int}
    {index : Nat} {observation : String} (hs : state.sessions.get? v.sid = some s) (hd : d < 2)
    (hc : c < 3) (hstarted : s.started = some started) (hheight : started < height)
    (hopen : ¬s.expired state.lower) (hslot : s.slots.get? (d, v.wallet) = none)
    (h : admitFresh H state s v d c height index = .ok (out, observation)) :
    Admission state v height index out := by
  unfold admitFresh at h
  dsimp only at h
  split at h
  · obtain ⟨rfl, -⟩ := Prod.mk.inj (Except.ok.inj h)
    exact .refused
  next hvoter =>
  split at h
  · obtain ⟨rfl, -⟩ := Prod.mk.inj (Except.ok.inj h)
    exact .refused
  split at h
  · obtain ⟨rfl, -⟩ := Prod.mk.inj (Except.ok.inj h)
    exact .refused
  split at h
  · obtain ⟨rfl, -⟩ := Prod.mk.inj (Except.ok.inj h)
    exact .refused
  next hquota =>
  obtain ⟨fold, -, h⟩ := bind_eq_ok.mp h
  obtain ⟨rfl, -⟩ := Prod.mk.inj (Except.ok.inj h)
  obtain ⟨status, hstatus, hrange⟩ :
      ∃ status, s.eligibility.get? v.wallet = some status ∧ (status = 1 ∨ status = 2) := by
    have hmem : s.eligibility.get? v.wallet ∈ [some 1, some 2] := by
      by_contra hnot
      exact hvoter (Or.inl hnot)
    simp only [List.mem_cons, List.not_mem_nil, or_false] at hmem
    obtain heq | heq := hmem
    · exact ⟨1, heq, Or.inl rfl⟩
    · exact ⟨2, heq, Or.inr rfl⟩
  rw [hstatus, Option.getD_some] at hquota ⊢
  refine .admitted s d c started status fold _ hs hd hc hstarted hheight hopen hslot hstatus
    hrange ?_
  -- a submission is charged at its first vote of the wallet
  cases hkey : state.charges.get? (v.wallet, s.submission) with
  | some epoch => exact Or.inl ⟨by simp, rfl⟩
  | none =>
    refine Or.inr ⟨by simp, rfl, ?_⟩
    rw [hkey] at hquota
    by_contra hnot
    exact hquota ⟨rfl, by omega⟩

theorem admit_eq_ok {v : VoteFact} {height : Int} {index : Nat} {observation : String}
    (h : admitVote H state v height index = .ok (out, observation)) :
    Admission state v height index out := by
  unfold admitVote at h
  obtain ⟨⟨⟩, -, h⟩ := bind_eq_ok.mp h
  obtain ⟨⟨⟩, -, h⟩ := bind_eq_ok.mp h
  split at h
  · obtain ⟨rfl, -⟩ := Prod.mk.inj (Except.ok.inj h)
    exact .refused
  next s hs =>
  split at h
  · obtain ⟨rfl, -⟩ := Prod.mk.inj (Except.ok.inj h)
    exact .refused
  obtain ⟨d, hd, h⟩ := bind_eq_ok.mp h
  obtain ⟨c, hc, h⟩ := bind_eq_ok.mp h
  split at h
  · obtain ⟨rfl, -⟩ := Prod.mk.inj (Except.ok.inj h)
    exact .refused
  next hlate =>
  obtain ⟨hstarted, hopen⟩ := not_or.mp hlate
  split at h
  · next slot hslot =>
    split at h
    · obtain ⟨rfl, -⟩ := Prod.mk.inj (Except.ok.inj h)
      exact .refused
    · obtain ⟨rfl, -⟩ := Prod.mk.inj (Except.ok.inj h)
      exact .conflict s _ hs
  · next hslot =>
    obtain ⟨started, hmem, hheight⟩ : ∃ started ∈ s.started, started < height := by
      simpa using hstarted
    exact admitFresh_eq_ok hs (voteEnum_lt hd) (voteEnum_lt hc) hmem hheight hopen hslot h

/-- A property that every admission keeps holds behind the votes. -/
theorem admitAll_rule {P : State → Prop} {h : Int}
    (hadmitted : ∀ out v index next, P out → Admission out v h index next → P next)
    {votes : List VoteFact} {index : Nat} {observations : List String}
    (hok : admitAll H h out votes index = .ok (last, observations)) (hout : P out) : P last := by
  induction votes generalizing out index observations with
  | nil =>
    obtain ⟨rfl, -⟩ := Prod.mk.inj (Except.ok.inj hok)
    exact hout
  | cons v votes ih =>
    unfold admitAll at hok
    obtain ⟨⟨next, observation⟩, hnext, hok⟩ := bind_eq_ok.mp hok
    obtain ⟨⟨last', observations'⟩, hrest, hok⟩ := bind_eq_ok.mp hok
    obtain ⟨rfl, -⟩ := Prod.mk.inj (Except.ok.inj hok)
    exact ih hrest (hadmitted out v index next hout (admit_eq_ok hnext))

/-- The fields that votes and opens leave alone. -/
structure SameClock (state out : State) : Prop where
  height : out.height = state.height
  lower : out.lower = state.lower
  median : out.median = state.median
  epoch : out.epoch = state.epoch

theorem Admission.clock {v : VoteFact} {height : Int} {index : Nat}
    (h : Admission state v height index out) : SameClock state out := by
  cases h with
  | refused => exact ⟨rfl, rfl, rfl, rfl⟩
  | conflict s conflicts hs => exact ⟨rfl, rfl, rfl, rfl⟩
  | admitted s d c started status fold charged hs hd hc hstarted hheight hopen hslot hstatus hvoter
      hcharged =>
    obtain ⟨rfl, -⟩ | ⟨rfl, -⟩ := hcharged
    · exact ⟨rfl, rfl, rfl, rfl⟩
    · exact ⟨rfl, rfl, rfl, rfl⟩

theorem SameClock.trans {mid : State} (h : SameClock state mid) (h' : SameClock mid out) :
    SameClock state out :=
  ⟨h'.height.trans h.height, h'.lower.trans h.lower, h'.median.trans h.median,
    h'.epoch.trans h.epoch⟩

theorem admitAll_clock {h : Int} {votes : List VoteFact} {index : Nat}
    {observations : List String} (hok : admitAll H h out votes index = .ok (last, observations)) :
    SameClock out last :=
  admitAll_rule (P := SameClock out) (fun _ _ _ _ hmid hvote => hmid.trans hvote.clock) hok
    ⟨rfl, rfl, rfl, rfl⟩

/-- The session that an open starts with. -/
def OpenFact.session (o : OpenFact) (state : State) (fold : String) : Session := {
  sid := o.sid, submission := o.submission, original := o.original, creator := o.creator
  opened := state.height + 1, baseHeight := state.height, baseHash := state.tip
  mediaHeight := state.media.1, mediaHash := state.media.2, eligibility := o.eligibility, fold }

theorem openOne_eq_ok {o : OpenFact} (h : openOne H state out o = .ok last) :
    ∃ fold, out.sessions.get? o.sid = none ∧ last = { out with
      sessions := out.sessions.set o.sid (o.session state fold)
      originals := insert o.original out.originals
      submissions := insert o.submission out.submissions
      pending := out.pending ++ [o.sid] } := by
  unfold openOne at h
  obtain ⟨⟨⟩, hnew, h⟩ := bind_eq_ok.mp h
  obtain ⟨⟨⟩, -, h⟩ := bind_eq_ok.mp h
  obtain ⟨⟨⟩, -, h⟩ := bind_eq_ok.mp h
  obtain ⟨fold, -, h⟩ := bind_eq_ok.mp h
  exact ⟨fold, (require_eq_ok.mp hnew).1, (Except.ok.inj h).symm⟩

/-- A property that every open keeps holds behind the opens. -/
theorem opens_rule {P : List OpenFact → State → Prop}
    (hopen : ∀ out o rest fold, P (o :: rest) out → out.sessions.get? o.sid = none →
      P rest { out with
        sessions := out.sessions.set o.sid (o.session state fold)
        originals := insert o.original out.originals
        submissions := insert o.submission out.submissions
        pending := out.pending ++ [o.sid] })
    {opens : List OpenFact} (hok : opens.foldlM (openOne H state) out = .ok last)
    (hout : P opens out) : P [] last := by
  induction opens generalizing out with
  | nil =>
    obtain rfl := foldlM_nil_eq_ok.mp hok
    exact hout
  | cons o opens ih =>
    obtain ⟨next, hnext, hok⟩ := foldlM_cons_eq_ok.mp hok
    obtain ⟨fold, hnew, rfl⟩ := openOne_eq_ok hnext
    exact ih hok (hopen out o opens fold hout hnew)

theorem opens_clock {opens : List OpenFact}
    (hok : opens.foldlM (openOne H state) out = .ok last) : SameClock out last :=
  opens_rule (P := fun _ next => SameClock out next)
    (fun _ _ _ _ hmid _ => hmid.trans ⟨rfl, rfl, rfl, rfl⟩) hok ⟨rfl, rfl, rfl, rfl⟩

/-- The clock of the state behind a step. -/
theorem step_clock (hok : step H state args = .ok (out, report)) :
    report.boundary = (state.height + 1, out.lower) ∧ out.height = state.height + 1 ∧
      out.lower = out.median - 1 ∧ state.median + 5 ≤ out.median := by
  obtain ⟨m, closed, started, voted, opened, tip, finalized, hst, rfl⟩ := step_eq_ok hok
  obtain ⟨hlower, hmedian⟩ := clock_eq_ok hst.clock
  have hclock := (admitAll_clock hst.vote).trans (opens_clock hst.opens)
  have hopened : opened.lower = report.boundary.2 := hclock.lower
  have hmedian' : opened.median = m := hclock.median
  refine ⟨Prod.ext hst.height hopened.symm, rfl, ?_, ?_⟩
  · show opened.lower = opened.median - 1
    rw [hopened, hmedian', hlower]
  · show state.median + 5 ≤ opened.median
    rwa [hmedian']

end Stages

/-! ## A sample run

Two sessions are opened and started, one gets a vote, and the clock jumps over both
deadlines. -/

/-- `vote_fact`. -/
def voteFact (s : Session) (wallet : String) (dimension choice : Int) : VoteFact where
  context := {}
  sid := s.sid
  submission := s.submission
  original := s.original
  creator := s.creator
  baseHeight := s.baseHeight
  baseHash := s.baseHash
  mediaHeight := s.mediaHeight
  mediaHash := s.mediaHash
  deadline := s.deadline
  wallet
  dimension := .int dimension
  choice := .int choice
  authenticated := true

/-- Digests that tell heights apart. -/
def sampleHashing : Hashing where
  emptyFold sid := .ok sid
  nextFold fold _ _ _ _ := .ok (fold ++ "'")
  value parent _ _ _ _ _ _ := parent ++ "'"

def sampleOpen (sid submission original : String) : OpenFact where
  sid
  submission
  original
  creator := "creator"
  eligibility := [("w", 1), ("v", 2)]
  sourcesValid := true

/-- A step at a reading, with the boundaries of the earlier ones. -/
def sampleStep (state : State) (boundaries : List (Int × Int)) (reading : Int)
    (opens : List OpenFact) (votes : List VoteFact) : Py (State × List (Int × Int)) := do
  let (out, report) ← step sampleHashing state
    { readings := [.int reading, .int reading, .int reading], opens, votes, boundaries }
  .ok (out, boundaries ++ [report.boundary])

/-- The run up to the vote and up to the closes. -/
def sampleRun : Py ((State × List (Int × Int)) × State × List (Int × Int)) := do
  let (opened, one) ← sampleStep {} [] 300 [sampleOpen "a" "s" "x", sampleOpen "b" "t" "y"] []
  let (started, two) ← sampleStep opened one 305 [] []
  let a ← orRaise (started.sessions.get? "a") (missingKey "a")
  let (voted, three) ← sampleStep started two 310 [] [voteFact a "w" 0 1, voteFact a "v" 0 0]
  let (closed, four) ← sampleStep voted three 1600 [] [voteFact a "w" 1 0]
  .ok ((voted, three), closed, four)

theorem sampleRun_ok : ∃ voted three closed four,
    sampleRun = .ok ((voted, three), closed, four) := by
  have hok : sampleRun.isOk = true := by decide +kernel
  cases hrun : sampleRun with
  | ok r => exact ⟨r.1.1, r.1.2, r.2.1, r.2.2, rfl⟩
  | error e =>
    rw [hrun] at hok
    cases hok

end PagedReview

end ZoidbergChain
