import Mathlib

/-!
# The agreement model (verification/tendermint717h/model.py)

The transition relation of four identities, at most one of them Byzantine, that agree
on one value per height. A `World` is the state of the honest nodes and the set of all
messages ever sent; `successors` are its labelled transitions.

A `frozenset` is a `Finset`, and so is what the source yields in sorted order: the order
decides nothing but the order of a search. The label of a transition is an `Action`.

- `localSteps`: what one node can do on its own, as the node after it and the message
  it sends.
- `LocalCase`, `WorldStep`: the same transitions by their rule.
-/

namespace ZoidbergChain.Tendermint

/-- `N`, the number of identities. -/
def numIdentities : Nat := 4

/-- `F`, the number of faulty identities that is tolerated. -/
def maxFaulty : Nat := 1

/-- `Q`, the number of distinct senders of a quorum. -/
def quorum : Nat := 3

/-- `NIL`. -/
def nilValue : String := ""

/-- The parent of the first height. -/
def genesis : String := "genesis"

abbrev Context := String × String × String × String × Nat × Nat

/-- `CONTEXT`. -/
def modelContext : Context :=
  ("model-network", "model-genesis", "static-0123", "algorithm1-v3", 0, 1)

/-! ## Data -/

structure Block where
  id : String
  height : Int := 1
  parent : String := genesis
  protocol : Bool := true
  canonical : Bool := true
  original : Bool := true
  admission : Bool := true
  transactions : Bool := true
  resources : Bool := true
  deriving DecidableEq

inductive Kind where
  | proposal
  | prevote
  | precommit
  deriving DecidableEq

inductive Phase where
  | propose
  | prevote
  | precommit
  deriving DecidableEq

/-- The third entry of a timer or of a once-flag. -/
inductive Flag where
  | propose
  | prevote
  | precommit
  | polka
  deriving DecidableEq

structure Message where
  kind : Kind
  height : Int
  round : Int
  sender : Nat
  value : String := nilValue
  vr : Int := -1
  parent : String := genesis
  context : Context := modelContext
  authentic : Bool := true
  deriving DecidableEq

structure Decision where
  height : Int
  value : String
  parent : String
  proposal : Message
  votes : Finset Message
  deriving DecidableEq

structure Node where
  identity : Nat
  height : Int := 1
  round : Int := 0
  phase : Phase := .propose
  started : Bool := false
  locked : String := nilValue
  lr : Int := -1
  valid : String := nilValue
  vr : Int := -1
  log : Finset Message := ∅
  timers : Finset (Int × Int × Flag) := ∅
  once : Finset (Int × Int × Flag) := ∅
  data : Finset String := ∅
  decisions : List Decision := []
  deriving DecidableEq

/-- `Node.parent`: the last decided value. -/
def Node.parent (n : Node) : String := (n.decisions.getLast?.map Decision.value).getD genesis

structure World where
  nodes : List Node
  sent : Finset Message := ∅
  deriving DecidableEq

/-- `Config`, with what `__post_init__` checks. -/
structure Config where
  blocks : List Block := [{ id := "X" }, { id := "Y" }]
  byzantine : Finset Nat := {3}
  offline : Finset Nat := ∅
  maxHeight : Int := 2
  maxRound : Int := 5
  missing : Finset (Nat × String) := ∅
  retrievable : Finset String := {"X", "Y", "XX", "YY"}
  decoderUnavailable : Finset Nat := ∅
  brokenLocking : Bool := false
  byzantine_subset : byzantine ⊆ Finset.range numIdentities := by decide
  card_byzantine_le : byzantine.card ≤ maxFaulty := by decide
  nodup_ids : (blocks.map Block.id).Nodup := by decide

/-- The label of a transition. -/
inductive Action where
  | start (identity : Nat) (value : Option String)
  | prevote (fresh : Bool) (identity : Nat) (value : String)
  | arm (flag : Flag) (identity : Nat)
  | polka (identity : Nat) (value : String)
  | nilPolka (identity : Nat)
  | decide (identity : Nat) (value : String)
  | catchup (identity : Nat) (round : Int)
  | timeout (flag : Flag) (identity : Nat) (round : Option Int)
  | deliver (identity : Nat) (message : Message)
  | fetch (identity : Nat) (value : String)
  | byzantine (message : Message)
  deriving DecidableEq

/-! ## Validity and votes -/

/-- `Model.proposer`. -/
def proposer (height round : Int) : Nat := ((height - 1 + round) % numIdentities).toNat

/-- `Model.initial`. -/
def initial (c : Config) : World where
  nodes := ((List.range numIdentities).filter (· ∉ c.byzantine)).map fun i =>
    { identity := i
      data := ((c.blocks.map Block.id).filter fun id => (i, id) ∉ c.missing).toFinset }

/-- `Model.authenticated`. The kinds are the three of `Kind`. -/
def authenticated (m : Message) : Bool :=
  m.authentic && decide (m.sender < numIdentities) && decide (m.context = modelContext) &&
    decide (1 ≤ m.height) && decide (0 ≤ m.round) &&
    (decide (m.kind ≠ .proposal) ||
      (decide (m.value ≠ nilValue) && decide (-1 ≤ m.vr) && decide (m.vr < m.round) &&
        decide (m.sender = proposer m.height m.round)))

/-- `Model.objective_valid`. -/
def objectiveValid (c : Config) (value : String) (height : Int) (parent : String) : Bool :=
  match c.blocks.find? fun b => b.id = value with
  | some b => decide (b.height = height) && decide (b.parent = parent) && b.protocol &&
      b.canonical && b.original && b.admission && b.transactions && b.resources
  | none => false

/-- `Model.validity`: `none` when the node cannot tell. -/
def validity (c : Config) (n : Node) (value : String) : Option Bool :=
  if value ∉ n.data ∨ n.identity ∈ c.decoderUnavailable then none
  else some (objectiveValid c value n.height n.parent)

/-- `Model.relevant`. -/
def relevant (n : Node) (m : Message) : Bool :=
  authenticated m && decide (m.height = n.height) && decide (m.parent = n.parent)

/-- `Model.votes`: without a value, the votes for any value. -/
def votes (n : Node) (kind : Kind) (round : Int) (value : Option String := none) :
    Finset Message :=
  n.log.filter fun m => relevant n m = true ∧ m.kind = kind ∧ m.round = round ∧
    ∀ v ∈ value, m.value = v

/-- The distinct senders of some messages. -/
def senders (messages : Finset Message) : Finset Nat := messages.image Message.sender

/-- `Model.weight`. -/
def weight (n : Node) (kind : Kind) (round : Int) (value : Option String := none) : Nat :=
  (senders (votes n kind round value)).card

/-- `Model.proposals`. -/
def proposals (n : Node) (round : Option Int := none) : Finset Message :=
  n.log.filter fun m => m.kind = .proposal ∧ relevant n m = true ∧ ∀ r ∈ round, m.round = r

/-! ## Local rules -/

/-- `Model.put`. -/
def put (w : World) (n : Node) (message : Option Message := none) : World where
  nodes := w.nodes.map fun x => if x.identity = n.identity then n else x
  sent := w.sent ∪ message.toFinset

/-- The message of `Model.emit`. -/
def Node.message (n : Node) (kind : Kind) (value : String := nilValue) (vr : Int := -1) :
    Message where
  kind := kind
  height := n.height
  round := n.round
  sender := n.identity
  value := value
  vr := vr
  parent := n.parent

/-- `Model.emit`: the message goes to the own log as well. -/
def emit (n : Node) (kind : Kind) (value : String := nilValue) (vr : Int := -1) :
    Node × Option Message :=
  ({ n with log := insert (n.message kind value vr) n.log }, some (n.message kind value vr))

/-- The node of `Model.start` in its new round. -/
def Node.enter (n : Node) (round : Int) : Node :=
  { n with round := round, phase := .propose, started := true }

/-- The values that `Model.start` can propose. -/
def proposable (c : Config) (n : Node) : List String :=
  if n.valid ≠ nilValue then [n.valid]
  else (c.blocks.map Block.id).filter fun v => validity c n v = some true

/-- `Model.start` (lines 11–21). -/
def start (c : Config) (n : Node) (round : Int) : List (Node × Option Message) :=
  let n := n.enter round
  if proposer n.height round ≠ n.identity then
    [({ n with timers := insert (n.height, round, .propose) n.timers }, none)]
  else if (proposable c n).isEmpty then [(n, none)]
  else (proposable c n).map fun value => emit n .proposal value n.vr

/-- A transition of one node: its label, the node after it and the message it sends. -/
abbrev LocalStep := Action × Node × Option Message

/-- Lines 10 and 11: the first round of the first height. -/
def startSteps (c : Config) (n : Node) : Finset LocalStep :=
  ((start c n 0).map fun s => (.start n.identity (s.2.map Message.value), s)).toFinset

/-- The prevote of lines 22–33 on the proposal `p`: for its value, or nil. -/
def prevoteValue (c : Config) (n : Node) (p : Message) (valid : Bool) : String :=
  let lockOk := if p.vr = -1 then n.lr = -1 ∨ n.locked = p.value
    else n.lr ≤ p.vr ∨ n.locked = p.value
  if valid = true ∧ (lockOk ∨ c.brokenLocking = true) then p.value else nilValue

/-- Lines 22–33. The proof of a valid round is a quorum of logged prevotes. -/
def prevoteSteps (c : Config) (n : Node) : Finset LocalStep :=
  if n.phase ≠ .propose then ∅
  else (proposals n (some n.round)).biUnion fun p =>
    let justified := 0 ≤ p.vr ∧ quorum ≤ weight n .prevote p.vr (some p.value)
    if p.vr ≠ -1 ∧ ¬justified then ∅
    else match validity c n p.value with
      | none => ∅
      | some valid =>
        let (updated, m) := emit n .prevote (prevoteValue c n p valid)
        {(.prevote (p.vr = -1) n.identity p.value, { updated with phase := .prevote }, m)}

/-- Lines 34–35 and 47–48: arm a timer once, on a quorum of any votes. -/
def armSteps (n : Node) (kind : Kind) (flag : Flag) (phase : Option Phase) : Finset LocalStep :=
  let key := (n.height, n.round, flag)
  if key ∉ n.once ∧ (∀ p ∈ phase, n.phase = p) ∧ quorum ≤ weight n kind n.round then
    {(.arm flag n.identity,
      { n with once := insert key n.once, timers := insert key n.timers }, none)}
  else ∅

/-- What lines 36–43 make of a node: in the prevote phase it locks the value. -/
def polkaNode (n : Node) (value : String) : Node × Option Message :=
  let updated := { n with
    valid := value, vr := n.round, once := insert (n.height, n.round, .polka) n.once }
  if n.phase = .prevote then
    emit { updated with locked := value, lr := n.round, phase := .precommit } .precommit value
  else (updated, none)

/-- Lines 36–43. -/
def polkaSteps (c : Config) (n : Node) : Finset LocalStep :=
  if n.phase ≠ .propose ∧ (n.height, n.round, Flag.polka) ∉ n.once then
    ((proposals n (some n.round)).filter fun p => validity c n p.value = some true ∧
        quorum ≤ weight n .prevote n.round (some p.value)).image fun p =>
      (.polka n.identity p.value, polkaNode n p.value)
  else ∅

/-- Lines 44–46. -/
def nilPolkaSteps (n : Node) : Finset LocalStep :=
  if n.phase = .prevote ∧ quorum ≤ weight n .prevote n.round (some nilValue) then
    let (updated, m) := emit n .precommit
    {(.nilPolka n.identity, { updated with phase := .precommit }, m)}
  else ∅

/-- The decision of lines 49–54 on the proposal `p`. -/
def Node.decisionOn (n : Node) (p : Message) : Decision where
  height := n.height
  value := p.value
  parent := n.parent
  proposal := p
  votes := votes n .precommit p.round (some p.value)

/-- A node behind its decision, before it starts the next height. Its timers stay. -/
def Node.advance (n : Node) (d : Decision) : Node :=
  { n with
    height := n.height + 1, round := 0, phase := .propose, started := false
    locked := nilValue, lr := -1, valid := nilValue, vr := -1
    log := ∅, once := ∅, decisions := n.decisions ++ [d] }

/-- Lines 49–54. The round of the proposal need not be the current one. -/
def decideSteps (c : Config) (n : Node) : Finset LocalStep :=
  ((proposals n).filter fun p => validity c n p.value = some true ∧
      quorum ≤ weight n .precommit p.round (some p.value)).biUnion fun p =>
    let updated := n.advance (n.decisionOn p)
    if updated.height ≤ c.maxHeight then
      ((start c updated 0).map fun s => (.decide n.identity p.value, s)).toFinset
    else {(.decide n.identity p.value, updated, none)}

/-- The relevant messages of a round, of any kind. -/
def roundMessages (n : Node) (round : Int) : Finset Message :=
  n.log.filter fun m => relevant n m = true ∧ m.round = round

/-- The later rounds that the log tells of. -/
def futureRounds (c : Config) (n : Node) : Finset Int :=
  (n.log.filter fun m => relevant n m = true ∧ n.round < m.round ∧ m.round ≤ c.maxRound).image
    Message.round

/-- Lines 55–56. -/
def catchupSteps (c : Config) (n : Node) : Finset LocalStep :=
  ((futureRounds c n).filter fun r =>
      maxFaulty + 1 ≤ (senders (roundMessages n r)).card).biUnion fun r =>
    ((start c n r).map fun s => (.catchup n.identity r, s)).toFinset

/-- The timers of lines 57–67 that are current. -/
def currentTimers (n : Node) : Finset (Int × Int × Flag) :=
  n.timers.filter fun t => t.1 = n.height ∧ t.2.1 = n.round

/-- Lines 57–67: what an expired timer does. -/
def timeoutSteps (c : Config) (n : Node) (flag : Flag) : Finset LocalStep :=
  match flag with
  | .propose =>
    if n.phase = .propose then
      let (updated, m) := emit n .prevote
      {(.timeout .propose n.identity none, { updated with phase := .prevote }, m)}
    else ∅
  | .prevote =>
    if n.phase = .prevote then
      let (updated, m) := emit n .precommit
      {(.timeout .prevote n.identity none, { updated with phase := .precommit }, m)}
    else ∅
  | .precommit =>
    if n.round < c.maxRound then
      ((start c n (n.round + 1)).map fun s =>
        (.timeout .precommit n.identity (some (n.round + 1)), s)).toFinset
    else ∅
  | .polka => ∅

/-- `Model.local`, without `put`. -/
def localSteps (c : Config) (n : Node) : Finset LocalStep :=
  if n.started = false then startSteps c n
  else prevoteSteps c n ∪ armSteps n .prevote .prevote (some .prevote) ∪
    armSteps n .precommit .precommit none ∪ polkaSteps c n ∪ nilPolkaSteps n ∪
    decideSteps c n ∪ catchupSteps c n ∪
    (currentTimers n).biUnion fun t => timeoutSteps c n t.2.2

/-! ## Transitions of the world -/

/-- `Model.deliver`, for a message that is relevant to a node that is not offline. -/
def deliver (n : Node) (m : Message) : Node := { n with log := insert m n.log }

/-- The proposals and votes of one Byzantine identity at a height and round. -/
def byzantineMessagesOf (c : Config) (h : Int) (r : Nat) (parent : String) (i : Nat) :
    Finset Message :=
  let values := (nilValue :: (c.blocks.filter fun b => b.height = h).map Block.id).toFinset
  let vote (kind : Kind) (value : String) : Message :=
    { kind, height := h, round := r, sender := i, value, vr := -1, parent }
  let proposal (value : String) (vr : Int) : Message :=
    { kind := .proposal, height := h, round := r, sender := i, value, vr, parent }
  values.image (vote .prevote) ∪ values.image (vote .precommit) ∪
    if proposer h r = i then
      -- `range(-1, round)`
      (values.filter (· ≠ nilValue)).biUnion fun v =>
        (Finset.range (r + 1)).image fun k : Nat => proposal v (k - 1)
    else ∅

/-- `Model.byzantine_messages`. -/
def byzantineMessages (c : Config) (w : World) : Finset Message :=
  (w.nodes.filter fun n => n.height ≤ c.maxHeight).toFinset.biUnion fun n =>
    (Finset.range (c.maxRound + 1).toNat ×ˢ c.byzantine).biUnion fun p =>
      byzantineMessagesOf c n.height p.1 n.parent p.2

/-- What `Model.successors` does with one node. -/
def nodeSuccessors (c : Config) (w : World) (n : Node) : Finset (Action × World) :=
  if n.identity ∈ c.offline ∨ c.maxHeight < n.height then ∅
  else (localSteps c n).image (fun s => (s.1, put w s.2.1 s.2.2)) ∪
    (w.sent.filter fun m => m ∉ n.log ∧ relevant n m = true).image
      (fun m => (.deliver n.identity m, put w (deliver n m))) ∪
    ((proposals n).filter fun p => p.value ∉ n.data ∧ p.value ∈ c.retrievable).image
      (fun p => (.fetch n.identity p.value, put w { n with data := insert p.value n.data }))

/-- `Model.successors`. -/
def successors (c : Config) (w : World) (adversary : Bool := true) : Finset (Action × World) :=
  w.nodes.toFinset.biUnion (nodeSuccessors c w) ∪
    if adversary then
      (byzantineMessages c w \ w.sent).image fun m =>
        (.byzantine m, { w with sent := insert m w.sent })
    else ∅

/-- The worlds that the model can reach, with the adversary enabled. -/
def Reachable (c : Config) : World → Prop :=
  Relation.ReflTransGen (fun w w' => ∃ a, (a, w') ∈ successors c w) (initial c)

/-! ## The transitions by their rule -/

variable {c : Config}

@[simp] theorem emit_fst (n : Node) (kind : Kind) (value : String) (vr : Int) :
    (emit n kind value vr).1 =
      { n with log := insert (n.message kind value vr) n.log } := rfl

@[simp] theorem emit_snd (n : Node) (kind : Kind) (value : String) (vr : Int) :
    (emit n kind value vr).2 = some (n.message kind value vr) := rfl

/-- How a node enters a round: it waits for the proposal, it has nothing to propose, or it
proposes a value. -/
inductive StartCase (c : Config) (n : Node) (round : Int) : Node → Option Message → Prop
  | wait : StartCase c n round
      { n.enter round with timers := insert (n.height, round, .propose) n.timers } none
  | idle : StartCase c n round (n.enter round) none
  | propose (value : String) : proposer n.height round = n.identity →
      value ∈ proposable c (n.enter round) →
      StartCase c n round
        { n.enter round with
          log := insert ((n.enter round).message .proposal value n.vr) n.log }
        (some ((n.enter round).message .proposal value n.vr))

theorem startCase_of_mem {n : Node} {round : Int} {s : Node × Option Message}
    (hs : s ∈ start c n round) : StartCase c n round s.1 s.2 := by
  unfold start at hs
  dsimp only at hs
  split at hs
  · obtain rfl := List.mem_singleton.mp hs
    exact .wait
  · next hproposer =>
    split at hs
    · obtain rfl := List.mem_singleton.mp hs
      exact .idle
    · obtain ⟨value, hvalue, rfl⟩ := List.mem_map.mp hs
      exact .propose value (not_not.mp hproposer) hvalue

/-- The rules of a node, with their guards. -/
inductive LocalCase (c : Config) (n : Node) : Action → Node → Option Message → Prop
  | start {n' : Node} {m : Option Message} : n.started = false → StartCase c n 0 n' m →
      LocalCase c n (.start n.identity (m.map Message.value)) n' m
  | prevote (p : Message) (valid : Bool) : n.started = true → n.phase = .propose →
      p ∈ proposals n (some n.round) →
      (p.vr = -1 ∨ (0 ≤ p.vr ∧ quorum ≤ weight n .prevote p.vr (some p.value))) →
      validity c n p.value = some valid →
      LocalCase c n (.prevote (p.vr = -1) n.identity p.value)
        { n with
          phase := .prevote
          log := insert (n.message .prevote (prevoteValue c n p valid)) n.log }
        (some (n.message .prevote (prevoteValue c n p valid)))
  | arm (flag : Flag) : n.started = true →
      LocalCase c n (.arm flag n.identity)
        { n with
          once := insert (n.height, n.round, flag) n.once
          timers := insert (n.height, n.round, flag) n.timers } none
  | polka (p : Message) : n.started = true → n.phase ≠ .propose →
      p ∈ proposals n (some n.round) → validity c n p.value = some true →
      quorum ≤ weight n .prevote n.round (some p.value) →
      LocalCase c n (.polka n.identity p.value) (polkaNode n p.value).1 (polkaNode n p.value).2
  | nilPolka : n.started = true → n.phase = .prevote →
      quorum ≤ weight n .prevote n.round (some nilValue) →
      LocalCase c n (.nilPolka n.identity)
        { n with phase := .precommit, log := insert (n.message .precommit) n.log }
        (some (n.message .precommit))
  | decide (p : Message) {n' : Node} {m : Option Message} : n.started = true →
      p ∈ proposals n → validity c n p.value = some true →
      quorum ≤ weight n .precommit p.round (some p.value) →
      (StartCase c (n.advance (n.decisionOn p)) 0 n' m ∨
        n' = n.advance (n.decisionOn p) ∧ m = none) →
      LocalCase c n (.decide n.identity p.value) n' m
  | catchup {round : Int} {n' : Node} {m : Option Message} : n.started = true →
      n.round < round → StartCase c n round n' m →
      LocalCase c n (.catchup n.identity round) n' m
  | timeoutPropose : n.started = true → n.phase = .propose →
      LocalCase c n (.timeout .propose n.identity none)
        { n with phase := .prevote, log := insert (n.message .prevote) n.log }
        (some (n.message .prevote))
  | timeoutPrevote : n.started = true → n.phase = .prevote →
      LocalCase c n (.timeout .prevote n.identity none)
        { n with phase := .precommit, log := insert (n.message .precommit) n.log }
        (some (n.message .precommit))
  | timeoutPrecommit {n' : Node} {m : Option Message} : n.started = true →
      StartCase c n (n.round + 1) n' m →
      LocalCase c n (.timeout .precommit n.identity (some (n.round + 1))) n' m

theorem prevoteCase_of_mem {n : Node} {s : LocalStep} (hstarted : n.started = true)
    (hs : s ∈ prevoteSteps c n) : LocalCase c n s.1 s.2.1 s.2.2 := by
  unfold prevoteSteps at hs
  split at hs
  · cases Finset.notMem_empty _ hs
  · next hphase =>
    obtain ⟨p, hp, hs⟩ := Finset.mem_biUnion.mp hs
    dsimp only at hs
    split at hs
    · cases Finset.notMem_empty _ hs
    · next hjustified =>
      split at hs
      · cases Finset.notMem_empty _ hs
      · next valid hvalid =>
        obtain rfl := Finset.mem_singleton.mp hs
        refine .prevote p valid hstarted (not_not.mp hphase) hp ?_ hvalid
        rw [not_and_or, not_not, not_not] at hjustified
        exact hjustified

theorem armCase_of_mem {n : Node} {kind : Kind} {flag : Flag} {phase : Option Phase}
    {s : LocalStep} (hstarted : n.started = true) (hs : s ∈ armSteps n kind flag phase) :
    LocalCase c n s.1 s.2.1 s.2.2 := by
  unfold armSteps at hs
  dsimp only at hs
  split at hs
  · obtain rfl := Finset.mem_singleton.mp hs
    exact .arm flag hstarted
  · cases Finset.notMem_empty _ hs

theorem polkaCase_of_mem {n : Node} {s : LocalStep} (hstarted : n.started = true)
    (hs : s ∈ polkaSteps c n) : LocalCase c n s.1 s.2.1 s.2.2 := by
  unfold polkaSteps at hs
  split at hs
  · next hguard =>
    obtain ⟨p, hp, rfl⟩ := Finset.mem_image.mp hs
    obtain ⟨hp, hvalid, hquorum⟩ := Finset.mem_filter.mp hp
    exact .polka p hstarted hguard.1 hp hvalid hquorum
  · cases Finset.notMem_empty _ hs

theorem nilPolkaCase_of_mem {n : Node} {s : LocalStep} (hstarted : n.started = true)
    (hs : s ∈ nilPolkaSteps n) : LocalCase c n s.1 s.2.1 s.2.2 := by
  unfold nilPolkaSteps at hs
  split at hs
  · next hguard =>
    obtain rfl := Finset.mem_singleton.mp hs
    exact .nilPolka hstarted hguard.1 hguard.2
  · cases Finset.notMem_empty _ hs

theorem decideCase_of_mem {n : Node} {s : LocalStep} (hstarted : n.started = true)
    (hs : s ∈ decideSteps c n) : LocalCase c n s.1 s.2.1 s.2.2 := by
  obtain ⟨p, hp, hs⟩ := Finset.mem_biUnion.mp hs
  obtain ⟨hp, hvalid, hquorum⟩ := Finset.mem_filter.mp hp
  dsimp only at hs
  split at hs
  · obtain ⟨t, ht, rfl⟩ := List.mem_map.mp (List.mem_toFinset.mp hs)
    exact .decide p hstarted hp hvalid hquorum (Or.inl (startCase_of_mem ht))
  · obtain rfl := Finset.mem_singleton.mp hs
    exact .decide p hstarted hp hvalid hquorum (Or.inr ⟨rfl, rfl⟩)

theorem catchupCase_of_mem {n : Node} {s : LocalStep} (hstarted : n.started = true)
    (hs : s ∈ catchupSteps c n) : LocalCase c n s.1 s.2.1 s.2.2 := by
  obtain ⟨round, hround, hs⟩ := Finset.mem_biUnion.mp hs
  obtain ⟨t, ht, rfl⟩ := List.mem_map.mp (List.mem_toFinset.mp hs)
  obtain ⟨m, hm, rfl⟩ := Finset.mem_image.mp (Finset.mem_filter.mp hround).1
  obtain ⟨-, -, hlater, -⟩ := Finset.mem_filter.mp hm
  exact .catchup hstarted hlater (startCase_of_mem ht)

theorem timeoutCase_of_mem {n : Node} {flag : Flag} {s : LocalStep} (hstarted : n.started = true)
    (hs : s ∈ timeoutSteps c n flag) : LocalCase c n s.1 s.2.1 s.2.2 := by
  cases flag with
  | propose =>
    dsimp only [timeoutSteps] at hs
    split at hs
    · next hphase =>
      obtain rfl := Finset.mem_singleton.mp hs
      exact .timeoutPropose hstarted hphase
    · cases Finset.notMem_empty _ hs
  | prevote =>
    dsimp only [timeoutSteps] at hs
    split at hs
    · next hphase =>
      obtain rfl := Finset.mem_singleton.mp hs
      exact .timeoutPrevote hstarted hphase
    · cases Finset.notMem_empty _ hs
  | precommit =>
    dsimp only [timeoutSteps] at hs
    split at hs
    · obtain ⟨t, ht, rfl⟩ := List.mem_map.mp (List.mem_toFinset.mp hs)
      exact .timeoutPrecommit hstarted (startCase_of_mem ht)
    · cases Finset.notMem_empty _ hs
  | polka => cases Finset.notMem_empty _ hs

/-- Every local step is an instance of a rule. -/
theorem localCase_of_mem {n : Node} {s : LocalStep} (hs : s ∈ localSteps c n) :
    LocalCase c n s.1 s.2.1 s.2.2 := by
  unfold localSteps at hs
  split at hs
  · next hstarted =>
    obtain ⟨t, ht, rfl⟩ := List.mem_map.mp (List.mem_toFinset.mp hs)
    exact .start hstarted (startCase_of_mem ht)
  · next hstarted =>
    have hstarted : n.started = true := Bool.of_not_eq_false hstarted
    simp only [Finset.mem_union] at hs
    obtain (((((((hs | hs) | hs) | hs) | hs) | hs) | hs) | hs) := hs
    · exact prevoteCase_of_mem hstarted hs
    · exact armCase_of_mem hstarted hs
    · exact armCase_of_mem hstarted hs
    · exact polkaCase_of_mem hstarted hs
    · exact nilPolkaCase_of_mem hstarted hs
    · exact decideCase_of_mem hstarted hs
    · exact catchupCase_of_mem hstarted hs
    · obtain ⟨t, -, hs⟩ := Finset.mem_biUnion.mp hs
      exact timeoutCase_of_mem hstarted hs

/-- The transitions of a world: a node moves, receives a message or fetches a value, or a
Byzantine identity sends a message. -/
inductive WorldStep (c : Config) (w : World) : Action → World → Prop
  | local {n n' : Node} {a : Action} {m : Option Message} : n ∈ w.nodes →
      LocalCase c n a n' m → WorldStep c w a (put w n' m)
  | deliver {n : Node} {m : Message} : n ∈ w.nodes → m ∈ w.sent → relevant n m = true →
      WorldStep c w (.deliver n.identity m) (put w (deliver n m))
  | fetch {n : Node} (value : String) : n ∈ w.nodes →
      WorldStep c w (.fetch n.identity value) (put w { n with data := insert value n.data })
  | byzantine {m : Message} : m.sender ∈ c.byzantine →
      WorldStep c w (.byzantine m) { w with sent := insert m w.sent }

theorem sender_of_mem_byzantineMessages {w : World} {m : Message}
    (hm : m ∈ byzantineMessages c w) : m.sender ∈ c.byzantine := by
  obtain ⟨n, -, hm⟩ := Finset.mem_biUnion.mp hm
  obtain ⟨⟨r, i⟩, hi, hm⟩ := Finset.mem_biUnion.mp hm
  have hsender : m.sender = i := by
    simp only [byzantineMessagesOf, Finset.mem_union, Finset.mem_image] at hm
    obtain (⟨v, -, rfl⟩ | ⟨v, -, rfl⟩) | hm := hm
    · rfl
    · rfl
    · split at hm
      · obtain ⟨v, -, hm⟩ := Finset.mem_biUnion.mp hm
        obtain ⟨vr, -, rfl⟩ := Finset.mem_image.mp hm
        rfl
      · cases Finset.notMem_empty _ hm
  rw [hsender]
  exact (Finset.mem_product.mp hi).2

/-- Every transition is one of the four kinds. -/
theorem worldStep_of_mem {w w' : World} {a : Action} {adversary : Bool}
    (hs : (a, w') ∈ successors c w adversary) : WorldStep c w a w' := by
  obtain hs | hs := Finset.mem_union.mp hs
  · obtain ⟨n, hn, hs⟩ := Finset.mem_biUnion.mp hs
    have hn : n ∈ w.nodes := List.mem_toFinset.mp hn
    unfold nodeSuccessors at hs
    split at hs
    · cases Finset.notMem_empty _ hs
    · simp only [Finset.mem_union, Finset.mem_image, Prod.mk.injEq] at hs
      obtain (⟨s, hlocal, rfl, rfl⟩ | ⟨m, hm, rfl, rfl⟩) | ⟨p, hp, rfl, rfl⟩ := hs
      · exact .local hn (localCase_of_mem hlocal)
      · obtain ⟨hsent, -, hrelevant⟩ := Finset.mem_filter.mp hm
        exact .deliver hn hsent hrelevant
      · exact .fetch p.value hn
  · split at hs
    · simp only [Finset.mem_image, Prod.mk.injEq] at hs
      obtain ⟨m, hm, rfl, rfl⟩ := hs
      exact .byzantine (sender_of_mem_byzantineMessages (Finset.mem_sdiff.mp hm).1)
    · cases Finset.notMem_empty _ hs

/-- What holds initially and survives every transition holds in every reachable world. -/
theorem Reachable.invariant {P : World → Prop} (hinit : P (initial c))
    (hstep : ∀ w a w', P w → WorldStep c w a w' → P w') {w : World} (hw : Reachable c w) :
    P w := by
  induction hw with
  | refl => exact hinit
  | tail _ hnext ih =>
    obtain ⟨a, ha⟩ := hnext
    exact hstep _ a _ ih (worldStep_of_mem ha)

/-! ## Runs by their labels -/

/-- The worlds behind a transition with the given label. -/
def afterAction (c : Config) (worlds : Finset World) (a : Action) : Finset World :=
  worlds.biUnion fun w => ((successors c w).filter fun s => s.1 = a).image Prod.snd

/-- The worlds at the end of a run with the given labels. -/
def runs (c : Config) (actions : List Action) : Finset World :=
  actions.foldl (afterAction c) {initial c}

theorem reachable_of_mem_foldl {actions : List Action} {worlds : Finset World}
    (hworlds : ∀ x ∈ worlds, Reachable c x) {w : World}
    (hw : w ∈ actions.foldl (afterAction c) worlds) : Reachable c w := by
  induction actions generalizing worlds with
  | nil => exact hworlds w hw
  | cons a actions ih =>
    refine ih (fun x hx => ?_) hw
    obtain ⟨y, hy, hx⟩ := Finset.mem_biUnion.mp hx
    obtain ⟨s, hs, rfl⟩ := Finset.mem_image.mp hx
    exact .tail (hworlds y hy) ⟨s.1, (Finset.mem_filter.mp hs).1⟩

/-- A run by its labels ends in a reachable world. -/
theorem reachable_of_run {actions : List Action} {P : World → Prop}
    (hrun : ∃ w ∈ runs c actions, P w) : ∃ w, Reachable c w ∧ P w := by
  obtain ⟨w, hw, hP⟩ := hrun
  refine ⟨w, reachable_of_mem_foldl (fun x hx => ?_) hw, hP⟩
  rw [Finset.mem_singleton.mp hx]
  exact .refl

/-! ## A sample run -/

/-- One block, one height and one round; identity 3 is Byzantine. -/
def sampleConfig : Config := { blocks := [{ id := "X" }], maxHeight := 1, maxRound := 0 }

def sampleProposal : Message :=
  { kind := .proposal, height := 1, round := 0, sender := 0, value := "X" }

def sampleVote (kind : Kind) (i : Nat) : Message :=
  { kind, height := 1, round := 0, sender := i, value := "X" }

/-- The honest nodes vote for the block of node 0; nodes 0 and 1 decide on it. -/
def sampleRun : List Action :=
  [.start 0 (some "X"), .start 1 none, .start 2 none,
    .deliver 1 sampleProposal, .deliver 2 sampleProposal,
    .prevote true 0 "X", .prevote true 1 "X", .prevote true 2 "X",
    .deliver 0 (sampleVote .prevote 1), .deliver 0 (sampleVote .prevote 2),
    .deliver 1 (sampleVote .prevote 0), .deliver 1 (sampleVote .prevote 2),
    .deliver 2 (sampleVote .prevote 0), .deliver 2 (sampleVote .prevote 1),
    .polka 0 "X", .polka 1 "X", .polka 2 "X",
    .deliver 0 (sampleVote .precommit 1), .deliver 0 (sampleVote .precommit 2), .decide 0 "X",
    .deliver 1 (sampleVote .precommit 0), .deliver 1 (sampleVote .precommit 2), .decide 1 "X"]

theorem decided_sampleRun : ∃ w ∈ runs sampleConfig sampleRun,
    w.nodes.map (fun n => n.decisions.map Decision.value) = [["X"], ["X"], []] := by
  decide +kernel

theorem reachable_sampleRun : ∃ w, Reachable sampleConfig w ∧
    w.nodes.map (fun n => n.decisions.map Decision.value) = [["X"], ["X"], []] :=
  reachable_of_run decided_sampleRun

end ZoidbergChain.Tendermint
