import ZoidbergChain.Tendermint.Slots

/-!
# Evidence of decisions and valid values (verification/tendermint717h/model.py)

A decision keeps its proposal and its precommits, which outlive the log that they were
taken from. A valid value has its proposal and a quorum of prevotes in the log.

- `Grows`: the transitions that keep the height only add to the log and the data, so that
  the votes of a round only become more (`weight_le`).
- `Evidence`: the invariant of a node over the messages sent.
- `evidence_of_reachable`: numbered decisions with their evidence, and valid values with
  theirs.
-/

namespace ZoidbergChain.Tendermint

variable {c : Config}

/-! ## Growing logs -/

/-- The node stays at its height, its log and its data grow, and what is new in the log
was just sent or has been sent before. -/
structure Grows (sent : Finset Message) (m : Option Message) (n n' : Node) : Prop where
  height : n'.height = n.height
  decisions : n'.decisions = n.decisions
  log : n.log ⊆ n'.log
  data : n.data ⊆ n'.data
  logged : ∀ x ∈ n'.log, x ∈ n.log ∨ m = some x ∨ x ∈ sent

theorem Grows.parent {sent : Finset Message} {m : Option Message} {n n' : Node}
    (hg : Grows sent m n n') : n'.parent = n.parent := by
  rw [Node.parent, hg.decisions, Node.parent]

theorem relevant_congr {n n' : Node} (hheight : n'.height = n.height)
    (hparent : n'.parent = n.parent) (m : Message) : relevant n' m = relevant n m := by
  rw [relevant, hheight, hparent, relevant]

theorem Grows.votes_subset {sent : Finset Message} {m : Option Message} {n n' : Node}
    (hg : Grows sent m n n') (kind : Kind) (round : Int) (value : Option String) :
    votes n kind round value ⊆ votes n' kind round value := by
  intro x hx
  obtain ⟨hlog, hrelevant, hrest⟩ := Finset.mem_filter.mp hx
  refine Finset.mem_filter.mpr ⟨hg.log hlog, ?_, hrest⟩
  rw [relevant_congr hg.height hg.parent]
  exact hrelevant

theorem Grows.weight_le {sent : Finset Message} {m : Option Message} {n n' : Node}
    (hg : Grows sent m n n') (kind : Kind) (round : Int) (value : Option String) :
    weight n kind round value ≤ weight n' kind round value :=
  Finset.card_le_card (Finset.image_subset_image (hg.votes_subset kind round value))

theorem Grows.proposals_subset {sent : Finset Message} {m : Option Message} {n n' : Node}
    (hg : Grows sent m n n') (round : Option Int) : proposals n round ⊆ proposals n' round := by
  intro x hx
  obtain ⟨hlog, hkind, hrelevant, hround⟩ := Finset.mem_filter.mp hx
  refine Finset.mem_filter.mpr ⟨hg.log hlog, hkind, ?_, hround⟩
  rw [relevant_congr hg.height hg.parent]
  exact hrelevant

/-- A node that sends a message puts it in its own log. -/
theorem Grows.of_insert {sent : Finset Message} {x : Message} {n n' : Node}
    (hheight : n'.height = n.height) (hdecisions : n'.decisions = n.decisions)
    (hdata : n'.data = n.data) (hlog : n'.log = insert x n.log) :
    Grows sent (some x) n n' where
  height := hheight
  decisions := hdecisions
  log := by
    rw [hlog]
    exact Finset.subset_insert x n.log
  data := by rw [hdata]
  logged y hy := by
    rw [hlog] at hy
    obtain rfl | hy := Finset.mem_insert.mp hy
    · exact Or.inr (Or.inl rfl)
    · exact Or.inl hy

theorem Grows.of_eq {sent : Finset Message} {n n' : Node} (hheight : n'.height = n.height)
    (hdecisions : n'.decisions = n.decisions) (hdata : n'.data = n.data)
    (hlog : n'.log = n.log) : Grows sent none n n' where
  height := hheight
  decisions := hdecisions
  log := by rw [hlog]
  data := by rw [hdata]
  logged y hy := Or.inl (hlog ▸ hy)

theorem StartCase.grows (sent : Finset Message) {n n' : Node} {round : Int} {m : Option Message}
    (hs : StartCase c n round n' m) : Grows sent m n n' := by
  cases hs with
  | wait => exact .of_eq rfl rfl rfl rfl
  | idle => exact .of_eq rfl rfl rfl rfl
  | propose value => exact .of_insert rfl rfl rfl rfl

theorem StartCase.valid {n n' : Node} {round : Int} {m : Option Message}
    (hs : StartCase c n round n' m) : n'.valid = n.valid ∧ n'.vr = n.vr := by
  cases hs <;> exact ⟨rfl, rfl⟩

/-- A local rule grows the node, or decides. -/
theorem LocalCase.grows_or_decides (sent : Finset Message) {n n' : Node} {a : Action}
    {m : Option Message} (hs : LocalCase c n a n' m) :
    Grows sent m n n' ∨ ∃ p, p ∈ proposals n ∧ validity c n p.value = some true ∧
      quorum ≤ weight n .precommit p.round (some p.value) ∧
      (StartCase c (n.advance (n.decisionOn p)) 0 n' m ∨
        n' = n.advance (n.decisionOn p) ∧ m = none) := by
  cases hs with
  | start _ hstart => exact Or.inl (hstart.grows sent)
  | prevote p valid => exact Or.inl (.of_insert rfl rfl rfl rfl)
  | arm flag => exact Or.inl (.of_eq rfl rfl rfl rfl)
  | polka p =>
    refine Or.inl ?_
    unfold polkaNode
    dsimp only
    split
    · exact .of_insert rfl rfl rfl rfl
    · exact .of_eq rfl rfl rfl rfl
  | nilPolka => exact Or.inl (.of_insert rfl rfl rfl rfl)
  | decide p _ hp hvalid hquorum hnext => exact Or.inr ⟨p, hp, hvalid, hquorum, hnext⟩
  | catchup _ _ hstart => exact Or.inl (hstart.grows sent)
  | timeoutPropose => exact Or.inl (.of_insert rfl rfl rfl rfl)
  | timeoutPrevote => exact Or.inl (.of_insert rfl rfl rfl rfl)
  | timeoutPrecommit _ hstart => exact Or.inl (hstart.grows sent)

/-! ## Evidence -/

/-- The evidence that a decision carries: the value is objectively valid, its proposal is
authenticated, and three distinct identities precommitted it in the round of the proposal. -/
structure DecisionEvidence (c : Config) (d : Decision) : Prop where
  valid : objectiveValid c d.value d.height d.parent = true
  authentic : authenticated d.proposal = true
  kind : d.proposal.kind = .proposal
  proposal : d.proposal.height = d.height ∧ d.proposal.value = d.value ∧
    d.proposal.parent = d.parent
  votes : ∀ v ∈ d.votes, authenticated v = true ∧ v.kind = .precommit ∧ v.height = d.height ∧
    v.round = d.proposal.round ∧ v.value = d.value ∧ v.parent = d.parent
  quorum : quorum ≤ (senders d.votes).card

/-- The log shows a quorum of prevotes for the value in the round, and its proposal. -/
structure ValueEvidence (n : Node) (value : String) (round : Int) : Prop where
  proposal : ∃ p ∈ proposals n (some round), p.value = value
  prevotes : quorum ≤ weight n .prevote round (some value)

/-- The parent that a decision at position `i` has to name. -/
def previousValue (decisions : List Decision) (i : Nat) : String :=
  ((decisions.take i).getLast?.map Decision.value).getD genesis

/-- The evidence of a node: for each of its decisions, and for its valid value. -/
structure NodeEvidence (c : Config) (n : Node) : Prop where
  decision : ∀ d ∈ n.decisions, DecisionEvidence c d ∧ d.value ∈ n.data
  parent : ∀ i (_ : i < n.decisions.length), n.decisions[i].parent = previousValue n.decisions i
  valid : n.valid ≠ nilValue → ValueEvidence n n.valid n.vr

/-- What is in the log of a node, and in the votes of its decisions, has been sent. -/
structure Logged (sent : Finset Message) (n : Node) : Prop where
  log : n.log ⊆ sent
  votes : ∀ d ∈ n.decisions, d.votes ⊆ sent

theorem relevant_eq_true {n : Node} {m : Message} : relevant n m = true ↔
    authenticated m = true ∧ m.height = n.height ∧ m.parent = n.parent := by
  simp [relevant, and_assoc]

theorem mem_votes {n : Node} {kind : Kind} {round : Int} {value : String} {m : Message} :
    m ∈ votes n kind round (some value) ↔
      m ∈ n.log ∧ relevant n m = true ∧ m.kind = kind ∧ m.round = round ∧ m.value = value := by
  simp [votes]

theorem mem_proposals {n : Node} {round : Option Int} {m : Message} :
    m ∈ proposals n round ↔
      m ∈ n.log ∧ m.kind = .proposal ∧ relevant n m = true ∧ ∀ r ∈ round, m.round = r :=
  Finset.mem_filter

theorem validity_eq_true {n : Node} {value : String} :
    validity c n value = some true ↔ value ∈ n.data ∧ n.identity ∉ c.decoderUnavailable ∧
      objectiveValid c value n.height n.parent = true := by
  unfold validity
  split
  · next h =>
    simp only [reduceCtorEq, false_iff, not_and]
    intro hdata hidentity
    rcases h with h | h
    · exact absurd hdata h
    · exact absurd h hidentity
  · next h =>
    rw [not_or, not_not] at h
    simp [h]

/-- The decision that the rule takes carries its evidence. -/
theorem decisionOn_evidence {n : Node} {p : Message} (hp : p ∈ proposals n)
    (hvalid : validity c n p.value = some true)
    (hquorum : quorum ≤ weight n .precommit p.round (some p.value)) :
    DecisionEvidence c (n.decisionOn p) where
  valid := (validity_eq_true.mp hvalid).2.2
  authentic := (relevant_eq_true.mp (mem_proposals.mp hp).2.2.1).1
  kind := (mem_proposals.mp hp).2.1
  proposal := by
    obtain ⟨-, hheight, hparent⟩ := relevant_eq_true.mp (mem_proposals.mp hp).2.2.1
    exact ⟨hheight, rfl, hparent⟩
  votes v hv := by
    obtain ⟨-, hrelevant, hkind, hround, hvalue⟩ := mem_votes.mp hv
    obtain ⟨hauthentic, hheight, hparent⟩ := relevant_eq_true.mp hrelevant
    exact ⟨hauthentic, hkind, hheight, hround, hvalue, hparent⟩
  quorum := hquorum

/-! ## Every transition keeps the evidence -/

theorem ValueEvidence.grows {sent : Finset Message} {m : Option Message} {n n' : Node}
    {value : String} {round : Int} (hg : Grows sent m n n') (hv : ValueEvidence n value round) :
    ValueEvidence n' value round where
  proposal := by
    obtain ⟨p, hp, hvalue⟩ := hv.proposal
    exact ⟨p, hg.proposals_subset _ hp, hvalue⟩
  prevotes := hv.prevotes.trans (hg.weight_le _ _ _)

/-- Growing keeps the evidence, if the valid value of the node after has its own. -/
theorem NodeEvidence.grows {sent : Finset Message} {m : Option Message} {n n' : Node}
    (hn : NodeEvidence c n) (hg : Grows sent m n n')
    (hvalid : n'.valid = n.valid ∧ n'.vr = n.vr ∨ ValueEvidence n n'.valid n'.vr) :
    NodeEvidence c n' where
  decision d hd := by
    rw [hg.decisions] at hd
    obtain ⟨hevidence, hdata⟩ := hn.decision d hd
    exact ⟨hevidence, hg.data hdata⟩
  parent i hi := by
    simp only [hg.decisions] at hi ⊢
    exact hn.parent i hi
  valid hne := by
    rcases hvalid with ⟨hvalue, hround⟩ | hevidence
    · rw [hvalue, hround]
      exact (hn.valid (hvalue ▸ hne)).grows hg
    · exact hevidence.grows hg

theorem NodeEvidence.advance {n : Node} {p : Message} (hn : NodeEvidence c n)
    (hp : p ∈ proposals n) (hvalid : validity c n p.value = some true)
    (hquorum : quorum ≤ weight n .precommit p.round (some p.value)) :
    NodeEvidence c (n.advance (n.decisionOn p)) where
  decision d hd := by
    obtain hd | hd := List.mem_append.mp hd
    · exact hn.decision d hd
    · obtain rfl := List.mem_singleton.mp hd
      exact ⟨decisionOn_evidence hp hvalid hquorum, (validity_eq_true.mp hvalid).1⟩
  parent i hi := by
    change i < (n.decisions ++ [n.decisionOn p]).length at hi
    change (n.decisions ++ [n.decisionOn p])[i].parent =
      previousValue (n.decisions ++ [n.decisionOn p]) i
    by_cases hlast : i < n.decisions.length
    · rw [List.getElem_append_left hlast, previousValue,
        List.take_append_of_le_length (by omega)]
      exact hn.parent i hlast
    · obtain rfl : i = n.decisions.length := by
        simp only [List.length_append, List.length_singleton] at hi
        omega
      simp [previousValue, Node.decisionOn, Node.parent]
  valid hne := absurd rfl hne

/-- The valid value of a node after a rule is the old one or has a fresh polka. -/
theorem LocalCase.valid {n n' : Node} {a : Action} {m : Option Message}
    (hs : LocalCase c n a n' m) (hheight : n'.height = n.height) :
    n'.valid = n.valid ∧ n'.vr = n.vr ∨ ValueEvidence n n'.valid n'.vr := by
  cases hs with
  | start _ hstart => exact Or.inl hstart.valid
  | prevote p valid => exact Or.inl ⟨rfl, rfl⟩
  | arm flag => exact Or.inl ⟨rfl, rfl⟩
  | polka p _ _ hp _ hquorum =>
    refine Or.inr ?_
    unfold polkaNode
    dsimp only
    split <;> exact ⟨⟨p, hp, rfl⟩, hquorum⟩
  | nilPolka => exact Or.inl ⟨rfl, rfl⟩
  | decide p _ _ _ _ hnext =>
    have hnew : n'.height = n.height + 1 := by
      obtain hstart | ⟨rfl, -⟩ := hnext
      · exact hstart.lock.2.2.1
      · rfl
    omega
  | catchup _ _ hstart => exact Or.inl hstart.valid
  | timeoutPropose => exact Or.inl ⟨rfl, rfl⟩
  | timeoutPrevote => exact Or.inl ⟨rfl, rfl⟩
  | timeoutPrecommit _ hstart => exact Or.inl hstart.valid

theorem NodeEvidence.local {n n' : Node} {a : Action} {m : Option Message}
    (hn : NodeEvidence c n) (hs : LocalCase c n a n' m) : NodeEvidence c n' := by
  obtain hg | ⟨p, hp, hvalid, hquorum, hnext⟩ := hs.grows_or_decides ∅
  · exact hn.grows hg (hs.valid hg.height)
  · have hadvanced := hn.advance hp hvalid hquorum
    obtain hstart | ⟨rfl, -⟩ := hnext
    · exact hadvanced.grows (hstart.grows ∅) (Or.inl hstart.valid)
    · exact hadvanced

/-- What a local rule logs has been sent or is sent with it. -/
theorem Logged.local {sent : Finset Message} {n n' : Node} {a : Action} {m : Option Message}
    (hn : Logged sent n) (hs : LocalCase c n a n' m) : Logged (sent ∪ m.toFinset) n' := by
  have hgrown : ∀ {x : Node}, Grows sent m x n' → x.log ⊆ sent →
      (∀ d ∈ x.decisions, d.votes ⊆ sent) → Logged (sent ∪ m.toFinset) n' := by
    intro x hg hlog hvotes
    refine ⟨fun y hy => ?_, fun d hd => ?_⟩
    · rw [Finset.mem_union, Option.mem_toFinset]
      rcases hg.logged y hy with hy | hy | hy
      · exact Or.inl (hlog hy)
      · exact Or.inr hy
      · exact Or.inl hy
    · rw [hg.decisions] at hd
      exact (hvotes d hd).trans Finset.subset_union_left
  obtain hg | ⟨p, -, -, -, hnext⟩ := hs.grows_or_decides sent
  · exact hgrown hg hn.log hn.votes
  · have hvotes : ∀ d ∈ (n.advance (n.decisionOn p)).decisions, d.votes ⊆ sent := by
      intro d hd
      obtain hd | hd := List.mem_append.mp hd
      · exact hn.votes d hd
      · obtain rfl := List.mem_singleton.mp hd
        exact (Finset.filter_subset _ _).trans hn.log
    obtain hstart | ⟨rfl, rfl⟩ := hnext
    · exact hgrown (hstart.grows _) (Finset.empty_subset _) hvotes
    · exact ⟨Finset.empty_subset _, fun d hd => (hvotes d hd).trans Finset.subset_union_left⟩

theorem Logged.mono {sent sent' : Finset Message} {n : Node} (hn : Logged sent n)
    (hsent : sent ⊆ sent') : Logged sent' n :=
  ⟨hn.log.trans hsent, fun d hd => (hn.votes d hd).trans hsent⟩

/-- The evidence of a world. -/
structure Evidence (c : Config) (w : World) : Prop where
  evident : ∀ n ∈ w.nodes, NodeEvidence c n
  logged : ∀ n ∈ w.nodes, Logged w.sent n

theorem Evidence.init : Evidence c (initial c) where
  evident n hn := by
    obtain ⟨i, hi, rfl⟩ := List.mem_map.mp hn
    exact ⟨fun _ hd => absurd hd List.not_mem_nil, fun i hlt => absurd hlt i.not_lt_zero,
      fun hne => absurd rfl hne⟩
  logged n hn := by
    obtain ⟨i, hi, rfl⟩ := List.mem_map.mp hn
    exact ⟨Finset.empty_subset _, fun _ hd => absurd hd List.not_mem_nil⟩

/-- A node that moves with its evidence and its log keeps the evidence of the world. -/
theorem Evidence.put {w : World} {n' : Node} {m : Option Message} (hw : Evidence c w)
    (hevident : NodeEvidence c n') (hlogged : Logged (w.sent ∪ m.toFinset) n') :
    Evidence c (put w n' m) where
  evident x hx := by
    obtain rfl | ⟨hx, -⟩ := mem_put hx
    · exact hevident
    · exact hw.evident x hx
  logged x hx := by
    obtain rfl | ⟨hx, -⟩ := mem_put hx
    · exact hlogged
    · exact (hw.logged x hx).mono Finset.subset_union_left

theorem Evidence.step {w w' : World} {a : Action} (hw : Evidence c w)
    (hs : WorldStep c w a w') : Evidence c w' := by
  cases hs with
  | «local» hn hlocal =>
    exact hw.put ((hw.evident _ hn).local hlocal) ((hw.logged _ hn).local hlocal)
  | @deliver n m hn hsent hrelevant =>
    have hg : Grows w.sent none n (Tendermint.deliver n m) := by
      refine ⟨rfl, rfl, Finset.subset_insert m n.log, subset_rfl, fun x hx => ?_⟩
      obtain rfl | hx := Finset.mem_insert.mp hx
      · exact Or.inr (Or.inr hsent)
      · exact Or.inl hx
    refine hw.put ((hw.evident n hn).grows hg (Or.inl ⟨rfl, rfl⟩)) ⟨fun x hx => ?_, ?_⟩
    · rcases hg.logged x hx with hx | hx | hx
      · exact Finset.mem_union_left _ ((hw.logged n hn).log hx)
      · cases hx
      · exact Finset.mem_union_left _ hx
    · exact fun d hd => ((hw.logged n hn).votes d hd).trans Finset.subset_union_left
  | @fetch n value hn =>
    have hg : Grows w.sent none n { n with data := insert value n.data } :=
      ⟨rfl, rfl, subset_rfl, Finset.subset_insert value n.data, fun x hx => Or.inl hx⟩
    have hlogged : Logged (w.sent ∪ ∅) n := (hw.logged n hn).mono Finset.subset_union_left
    exact hw.put ((hw.evident n hn).grows hg (Or.inl ⟨rfl, rfl⟩)) ⟨hlogged.log, hlogged.votes⟩
  | @byzantine m hm =>
    exact ⟨hw.evident, fun n hn => (hw.logged n hn).mono (Finset.subset_insert m w.sent)⟩

theorem evidence_invariant {w : World} (hw : Reachable c w) : Evidence c w :=
  Reachable.invariant Evidence.init (fun _ _ _ => Evidence.step) hw

/-- In a reachable world the decisions of a node are numbered from 1, each names the value
before it as its parent, is present in the data of the node and carries its evidence, and
a valid value has its proposal and a quorum of prevotes in the log. -/
theorem evidence_of_reachable {w : World} (hw : Reachable c w) : ∀ n ∈ w.nodes,
    (∀ i (_ : i < n.decisions.length), n.decisions[i].height = i + 1 ∧
      n.decisions[i].parent = previousValue n.decisions i ∧
      n.decisions[i].value ∈ n.data ∧ DecisionEvidence c n.decisions[i]) ∧
    (n.valid ≠ nilValue → ValueEvidence n n.valid n.vr) := by
  intro n hn
  have hnumbered := (disciplined_of_reachable hw).numbered n hn
  have hevident := (evidence_invariant hw).evident n hn
  refine ⟨fun i hi => ?_, hevident.valid⟩
  obtain ⟨hevidence, hdata⟩ := hevident.decision _ (List.getElem_mem hi)
  exact ⟨hnumbered.heights i hi, hevident.parent i hi, hdata, hevidence⟩

theorem evidence_sampleRun : ∃ w : World,
    w.nodes.map (fun n => n.decisions.map Decision.value) = [["X"], ["X"], []] ∧
    ∀ n ∈ w.nodes,
      (∀ i (_ : i < n.decisions.length), n.decisions[i].height = i + 1 ∧
        n.decisions[i].parent = previousValue n.decisions i ∧
        n.decisions[i].value ∈ n.data ∧ DecisionEvidence sampleConfig n.decisions[i]) ∧
      (n.valid ≠ nilValue → ValueEvidence n n.valid n.vr) := by
  obtain ⟨w, hw, hdecided⟩ := reachable_sampleRun
  exact ⟨w, hdecided, evidence_of_reachable hw⟩

end ZoidbergChain.Tendermint
