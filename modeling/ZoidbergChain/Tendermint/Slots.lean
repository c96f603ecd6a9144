import ZoidbergChain.Tendermint.Model

/-!
# One message per slot (verification/tendermint717h/model.py)

An honest node sends at most one proposal, prevote and precommit in a round, and locks a
value in the very transition that precommits it.

- `OwnMessage`: how far a node has come when a message of its own is around. Every rule
  keeps it for the messages already sent and sends a message in a fresh slot
  (`LocalCase.own`, `LocalCase.fresh`).
- `Disciplined`: the invariant of the world.
- `slotLaw_of_reachable`: one message per slot, parents that were decided, and locks that
  change together with the precommit.
-/

namespace ZoidbergChain.Tendermint

variable {c : Config}

/-! ## Slots and own messages -/

/-- The slot of a message. -/
def Message.slot (m : Message) : Int × Int × Kind := (m.height, m.round, m.kind)

/-- The parent that a node has for the messages of a height: the value it decided at the
height before. -/
def ParentAt (n : Node) (height : Int) (parent : String) : Prop :=
  (height = 1 ∧ parent = genesis) ∨ ∃ d ∈ n.decisions, d.height = height - 1 ∧ d.value = parent

/-- A message that the node has sent: its height is not ahead of the node's, and in the
current round the node's phase has come past its kind. -/
structure OwnMessage (n : Node) (m : Message) : Prop where
  height_pos : 1 ≤ m.height
  round_nonneg : 0 ≤ m.round
  height_le : m.height ≤ n.height
  parent : ParentAt n m.height m.parent
  started : m.height = n.height → n.started = true
  round_le : m.height = n.height → m.round ≤ n.round
  phase : m.height = n.height → m.round = n.round →
    (m.kind = .prevote → n.phase ≠ .propose) ∧ (m.kind = .precommit → n.phase = .precommit)

/-- The decisions of a node are numbered from 1, and the node is at the next height. -/
structure Numbered (n : Node) : Prop where
  heights : ∀ i (_ : i < n.decisions.length), n.decisions[i].height = i + 1
  height : n.height = n.decisions.length + 1
  round_nonneg : 0 ≤ n.round

theorem Numbered.parentAt {n : Node} (hn : Numbered n) : ParentAt n n.height n.parent := by
  rcases List.eq_nil_or_concat n.decisions with hnil | ⟨front, last, hconcat⟩
  · refine Or.inl ⟨by simp [hn.height, hnil], ?_⟩
    rw [Node.parent, hnil]
    rfl
  · have hlt : front.length < n.decisions.length := by simp [hconcat]
    have hlast := hn.heights front.length hlt
    refine Or.inr ⟨last, by simp [hconcat], ?_, by simp [Node.parent, hconcat]⟩
    have hget : n.decisions[front.length] = last := by simp [hconcat]
    rw [hget] at hlast
    rw [hlast, hn.height, hconcat]
    simp

/-- No message that the node has sent is in the slot of `m`. -/
def FreshSlot (n : Node) (m : Message) : Prop := ∀ m', OwnMessage n m' → m'.slot ≠ m.slot

/-! ## Entering a round -/

/-- The node has not used the round yet. -/
def NewRound (n : Node) (round : Int) : Prop := n.started = false ∨ n.round < round

theorem OwnMessage.enter {n n' : Node} {m : Message} {round : Int} (hm : OwnMessage n m)
    (hround : NewRound n round) (hheight : n'.height = n.height)
    (hdecisions : n'.decisions = n.decisions) (hstarted : n'.started = true)
    (hnew : n'.round = round) : OwnMessage n' m where
  height_pos := hm.height_pos
  round_nonneg := hm.round_nonneg
  height_le := hheight ▸ hm.height_le
  parent := by
    have hparent := hm.parent
    rwa [ParentAt, ← hdecisions] at hparent
  started _ := hstarted
  round_le heq := by
    rw [hheight] at heq
    rcases hround with hidle | hlater
    · have := hm.started heq
      simp [hidle] at this
    · have := hm.round_le heq
      omega
  phase heq hcurrent := by
    rw [hheight] at heq
    rcases hround with hidle | hlater
    · have := hm.started heq
      simp [hidle] at this
    · have := hm.round_le heq
      omega

theorem StartCase.own {n n' : Node} {round : Int} {sent : Option Message} {m : Message}
    (hs : StartCase c n round n' sent) (hround : NewRound n round) (hm : OwnMessage n m) :
    OwnMessage n' m := by
  cases hs <;> exact hm.enter hround rfl rfl rfl rfl

theorem StartCase.fresh {n n' : Node} {round : Int} {m : Message}
    (hs : StartCase c n round n' (some m)) (hround : NewRound n round) : FreshSlot n m := by
  cases hs with
  | propose value hproposer hvalue =>
    intro m' hm' hslot
    simp only [Message.slot, Prod.mk.injEq] at hslot
    obtain ⟨hheight, hsame, -⟩ := hslot
    change m'.height = n.height at hheight
    change m'.round = round at hsame
    rcases hround with hidle | hlater
    · have := hm'.started hheight
      simp [hidle] at this
    · have := hm'.round_le hheight
      omega

theorem StartCase.sent {n n' : Node} {round : Int} {m : Message}
    (hs : StartCase c n round n' (some m)) (hn : Numbered n) (hround : 0 ≤ round) :
    OwnMessage n' m ∧ m.sender = n.identity := by
  cases hs with
  | propose value hproposer hvalue =>
    refine ⟨⟨?_, hround, le_refl _, hn.parentAt, fun _ => rfl, fun _ => le_refl _,
      fun _ _ => ⟨nofun, nofun⟩⟩, rfl⟩
    change 1 ≤ n.height
    rw [hn.height]
    omega

theorem StartCase.numbered {n n' : Node} {round : Int} {sent : Option Message}
    (hs : StartCase c n round n' sent) (hn : Numbered n) (hround : 0 ≤ round) :
    Numbered n' := by
  cases hs <;> exact ⟨hn.heights, hn.height, hround⟩

theorem StartCase.identity {n n' : Node} {round : Int} {sent : Option Message}
    (hs : StartCase c n round n' sent) : n'.identity = n.identity := by
  cases hs <;> rfl

/-! ## Deciding -/

theorem OwnMessage.advance {n : Node} {d : Decision} {m : Message} (hm : OwnMessage n m) :
    OwnMessage (n.advance d) m := by
  have hpast : m.height ≠ (n.advance d).height := by
    have := hm.height_le
    change m.height ≠ n.height + 1
    omega
  refine ⟨hm.height_pos, hm.round_nonneg, ?_, ?_, fun h => absurd h hpast,
    fun h => absurd h hpast, fun h => absurd h hpast⟩
  · have := hm.height_le
    change m.height ≤ n.height + 1
    omega
  · rcases hm.parent with hfirst | ⟨d', hd', hheight, hvalue⟩
    · exact Or.inl hfirst
    · exact Or.inr ⟨d', List.mem_append_left _ hd', hheight, hvalue⟩

theorem Numbered.advance {n : Node} {d : Decision} (hn : Numbered n) (hd : d.height = n.height) :
    Numbered (n.advance d) where
  heights i hi := by
    change i < (n.decisions ++ [d]).length at hi
    change (n.decisions ++ [d])[i].height = i + 1
    by_cases hlast : i < n.decisions.length
    · rw [List.getElem_append_left hlast]
      exact hn.heights i hlast
    · obtain rfl : i = n.decisions.length := by
        simp only [List.length_append, List.length_singleton] at hi
        omega
      simpa [hd] using hn.height
  height := by
    change n.height + 1 = ((n.decisions ++ [d]).length : Int) + 1
    simp [hn.height]
  round_nonneg := le_refl _

theorem NewRound.advance (n : Node) (d : Decision) : NewRound (n.advance d) 0 := Or.inl rfl

/-! ## Voting -/

/-- The node votes in its round: it sends a prevote out of the propose phase, or a
precommit out of the prevote phase. -/
structure Voting (n n' : Node) (m : Message) : Prop where
  kind : (m.kind = .prevote ∧ n.phase = .propose ∧ n'.phase = .prevote) ∨
    (m.kind = .precommit ∧ n.phase = .prevote ∧ n'.phase = .precommit)
  started : n.started = true
  message : m.height = n.height ∧ m.round = n.round ∧ m.sender = n.identity ∧ m.parent = n.parent
  node : n'.height = n.height ∧ n'.round = n.round ∧ n'.started = n.started ∧
    n'.decisions = n.decisions ∧ n'.identity = n.identity

theorem Voting.fresh {n n' : Node} {m : Message} (hv : Voting n n' m) : FreshSlot n m := by
  intro m' hm' hslot
  simp only [Message.slot, Prod.mk.injEq] at hslot
  obtain ⟨hheight, hround, hkind⟩ := hslot
  obtain ⟨hmHeight, hmRound, -, -⟩ := hv.message
  have hphase := hm'.phase (hheight.trans hmHeight) (hround.trans hmRound)
  obtain ⟨hk, hfrom, -⟩ | ⟨hk, hfrom, -⟩ := hv.kind
  · exact hphase.1 (hkind.trans hk) hfrom
  · rw [hphase.2 (hkind.trans hk)] at hfrom
    cases hfrom

theorem Voting.sent {n n' : Node} {m : Message} (hv : Voting n n' m) (hn : Numbered n) :
    OwnMessage n' m := by
  obtain ⟨hmHeight, hmRound, -, hmParent⟩ := hv.message
  obtain ⟨hheight, hround, hstarted, hdecisions, -⟩ := hv.node
  constructor
  · rw [hmHeight, hn.height]
    omega
  · rw [hmRound]
    exact hn.round_nonneg
  · rw [hmHeight, hheight]
  · have hparent := hn.parentAt
    rw [ParentAt] at hparent ⊢
    rwa [hdecisions, hmHeight, hmParent]
  · intro _
    rw [hstarted, hv.started]
  · intro _
    rw [hmRound, hround]
  · intro _ _
    obtain ⟨hk, -, hto⟩ | ⟨hk, -, hto⟩ := hv.kind <;> simp [hk, hto]

theorem Voting.own {n n' : Node} {m m' : Message} (hv : Voting n n' m) (hm : OwnMessage n m') :
    OwnMessage n' m' := by
  obtain ⟨hheight, hround, hstarted, hdecisions, -⟩ := hv.node
  refine ⟨hm.height_pos, hm.round_nonneg, hheight ▸ hm.height_le, ?_, ?_, ?_, ?_⟩
  · have hparent := hm.parent
    rwa [ParentAt, ← hdecisions] at hparent
  · rw [hheight, hstarted]
    exact hm.started
  · rw [hheight, hround]
    exact hm.round_le
  · rw [hheight, hround]
    intro hh hr
    obtain ⟨hprevote, hprecommit⟩ := hm.phase hh hr
    -- the phase only moves on
    obtain ⟨-, hfrom, hto⟩ | ⟨-, hfrom, hto⟩ := hv.kind
    · exact ⟨fun _ => by simp [hto], fun hk => by simp [hprecommit hk] at hfrom⟩
    · exact ⟨fun _ => by simp [hto], fun _ => hto⟩

theorem Voting.numbered {n n' : Node} {m : Message} (hv : Voting n n' m) (hn : Numbered n) :
    Numbered n' := by
  obtain ⟨hheight, hround, -, hdecisions, -⟩ := hv.node
  refine ⟨?_, ?_, ?_⟩
  · rw [hdecisions]
    exact hn.heights
  · rw [hheight, hdecisions]
    exact hn.height
  · rw [hround]
    exact hn.round_nonneg

/-! ## The rules of a node -/

/-- What a rule does to the slots of a node: it stays in its round without a message, it
votes, it enters a new round, or it decides. -/
inductive SlotCase (c : Config) (n : Node) : Node → Option Message → Prop
  | quiet {n' : Node} : n'.height = n.height → n'.round = n.round → n'.phase = n.phase →
      n'.started = n.started → n'.decisions = n.decisions → n'.identity = n.identity →
      SlotCase c n n' none
  | vote {n' : Node} {m : Message} : Voting n n' m → SlotCase c n n' (some m)
  | enter {round : Int} {n' : Node} {m : Option Message} : 0 ≤ round → NewRound n round →
      StartCase c n round n' m → SlotCase c n n' m
  | decide {d : Decision} {n' : Node} {m : Option Message} : d.height = n.height →
      (StartCase c (n.advance d) 0 n' m ∨ n' = n.advance d ∧ m = none) → SlotCase c n n' m

theorem LocalCase.slotCase {n n' : Node} {a : Action} {m : Option Message}
    (hs : LocalCase c n a n' m) (hn : Numbered n) : SlotCase c n n' m := by
  cases hs with
  | start hidle hstart => exact .enter (le_refl 0) (Or.inl hidle) hstart
  | prevote p valid hstarted hphase =>
    exact .vote ⟨Or.inl ⟨rfl, hphase, rfl⟩, hstarted, ⟨rfl, rfl, rfl, rfl⟩,
      rfl, rfl, rfl, rfl, rfl⟩
  | arm flag hstarted => exact .quiet rfl rfl rfl rfl rfl rfl
  | polka p hstarted hphase hp hvalid hquorum =>
    unfold polkaNode
    dsimp only
    split
    · next hprevote =>
      exact .vote ⟨Or.inr ⟨rfl, hprevote, rfl⟩, hstarted, ⟨rfl, rfl, rfl, rfl⟩,
        rfl, rfl, rfl, rfl, rfl⟩
    · exact .quiet rfl rfl rfl rfl rfl rfl
  | nilPolka hstarted hphase =>
    exact .vote ⟨Or.inr ⟨rfl, hphase, rfl⟩, hstarted, ⟨rfl, rfl, rfl, rfl⟩,
      rfl, rfl, rfl, rfl, rfl⟩
  | decide p hstarted hp hvalid hquorum hnext => exact .decide (d := n.decisionOn p) rfl hnext
  | catchup hstarted hlater hstart =>
    have := hn.round_nonneg
    exact .enter (by omega) (Or.inr hlater) hstart
  | timeoutPropose hstarted hphase =>
    exact .vote ⟨Or.inl ⟨rfl, hphase, rfl⟩, hstarted, ⟨rfl, rfl, rfl, rfl⟩,
      rfl, rfl, rfl, rfl, rfl⟩
  | timeoutPrevote hstarted hphase =>
    exact .vote ⟨Or.inr ⟨rfl, hphase, rfl⟩, hstarted, ⟨rfl, rfl, rfl, rfl⟩,
      rfl, rfl, rfl, rfl, rfl⟩
  | timeoutPrecommit hstarted hstart =>
    have := hn.round_nonneg
    exact .enter (by omega) (Or.inr (by omega)) hstart

theorem SlotCase.identity {n n' : Node} {m : Option Message} (hs : SlotCase c n n' m) :
    n'.identity = n.identity := by
  cases hs with
  | quiet _ _ _ _ _ hidentity => exact hidentity
  | vote hv => exact hv.node.2.2.2.2
  | enter _ _ hstart => exact hstart.identity
  | decide _ hnext =>
    obtain hstart | ⟨rfl, -⟩ := hnext
    · exact hstart.identity
    · rfl

theorem SlotCase.numbered {n n' : Node} {m : Option Message} (hs : SlotCase c n n' m)
    (hn : Numbered n) : Numbered n' := by
  cases hs with
  | quiet hheight hround _ _ hdecisions _ =>
    refine ⟨?_, ?_, ?_⟩
    · rw [hdecisions]
      exact hn.heights
    · rw [hheight, hdecisions]
      exact hn.height
    · rw [hround]
      exact hn.round_nonneg
  | vote hv => exact hv.numbered hn
  | enter hround _ hstart => exact hstart.numbered hn hround
  | decide hd hnext =>
    obtain hstart | ⟨rfl, -⟩ := hnext
    · exact hstart.numbered (hn.advance hd) (le_refl 0)
    · exact hn.advance hd

/-- Every rule keeps the messages already sent behind the node. -/
theorem SlotCase.own {n n' : Node} {sent : Option Message} {m : Message}
    (hs : SlotCase c n n' sent) (hm : OwnMessage n m) : OwnMessage n' m := by
  cases hs with
  | quiet hheight hround hphase hstarted hdecisions _ =>
    refine ⟨hm.height_pos, hm.round_nonneg, hheight ▸ hm.height_le, ?_, ?_, ?_, ?_⟩
    · have hparent := hm.parent
      rwa [ParentAt, ← hdecisions] at hparent
    · rw [hheight, hstarted]
      exact hm.started
    · rw [hheight, hround]
      exact hm.round_le
    · rw [hheight, hround, hphase]
      exact hm.phase
  | vote hv => exact hv.own hm
  | enter _ hround hstart => exact hstart.own hround hm
  | decide _ hnext =>
    obtain hstart | ⟨rfl, -⟩ := hnext
    · exact hstart.own (NewRound.advance ..) hm.advance
    · exact hm.advance

/-- A message is sent by its own node, in a slot that the node has not used. -/
theorem SlotCase.fresh {n n' : Node} {m : Message} (hs : SlotCase c n n' (some m))
    (hn : Numbered n) : OwnMessage n' m ∧ m.sender = n.identity ∧ FreshSlot n m := by
  cases hs with
  | vote hv => exact ⟨hv.sent hn, hv.message.2.2.1, hv.fresh⟩
  | enter hround hnew hstart =>
    obtain ⟨hown, hsender⟩ := hstart.sent hn hround
    exact ⟨hown, hsender, hstart.fresh hnew⟩
  | @decide d _ _ hd hnext =>
    obtain hstart | ⟨-, hnone⟩ := hnext
    · obtain ⟨hown, hsender⟩ := hstart.sent (hn.advance hd) (le_refl 0)
      exact ⟨hown, hsender, fun m' hm' => hstart.fresh (NewRound.advance n d) m' hm'.advance⟩
    · cases hnone

/-! ## The world -/

theorem mem_put {w : World} {n x : Node} {m : Option Message} (hx : x ∈ (put w n m).nodes) :
    x = n ∨ (x ∈ w.nodes ∧ x.identity ≠ n.identity) := by
  obtain ⟨y, hy, rfl⟩ := List.mem_map.mp hx
  split
  · exact Or.inl rfl
  · next hne => exact Or.inr ⟨hy, hne⟩

theorem mem_put_self {w : World} {n n' : Node} {m : Option Message} (hn : n ∈ w.nodes)
    (hidentity : n'.identity = n.identity) : n' ∈ (put w n' m).nodes :=
  List.mem_map.mpr ⟨n, hn, if_pos hidentity.symm⟩

theorem mem_put_other {w : World} {n x : Node} {m : Option Message} (hx : x ∈ w.nodes)
    (hne : x.identity ≠ n.identity) : x ∈ (put w n m).nodes :=
  List.mem_map.mpr ⟨x, hx, if_neg hne⟩

theorem mem_put_sent {w : World} {n : Node} {m : Option Message} {x : Message} :
    x ∈ (put w n m).sent ↔ x ∈ w.sent ∨ m = some x := by
  simp [put, eq_comm]

theorem map_identity_put (w : World) (n : Node) (m : Option Message) :
    (put w n m).nodes.map Node.identity = w.nodes.map Node.identity := by
  simp only [put, List.map_map]
  refine List.map_congr_left fun x _ => ?_
  simp only [Function.comp_apply]
  split
  · next heq => exact heq.symm
  · rfl

theorem eq_of_identity {w : World} (hnodup : (w.nodes.map Node.identity).Nodup) {n x : Node}
    (hn : n ∈ w.nodes) (hx : x ∈ w.nodes) (heq : x.identity = n.identity) : x = n :=
  List.inj_on_of_nodup_map hnodup hx hn heq

/-- A transition moves one node by a slot case, or adds a Byzantine message. -/
theorem WorldStep.slotCase {w w' : World} {a : Action} (hs : WorldStep c w a w')
    (hnumbered : ∀ n ∈ w.nodes, Numbered n) :
    (∃ n ∈ w.nodes, ∃ n' m, SlotCase c n n' m ∧ w' = put w n' m) ∨
      ∃ m, m.sender ∈ c.byzantine ∧ w' = { w with sent := insert m w.sent } := by
  cases hs with
  | «local» hn hlocal => exact Or.inl ⟨_, hn, _, _, hlocal.slotCase (hnumbered _ hn), rfl⟩
  | @deliver n m hn hsent hrelevant =>
    exact Or.inl ⟨n, hn, Tendermint.deliver n m, none, .quiet rfl rfl rfl rfl rfl rfl, rfl⟩
  | @fetch n value hn =>
    exact Or.inl ⟨n, hn, { n with data := insert value n.data }, none,
      .quiet rfl rfl rfl rfl rfl rfl, rfl⟩
  | byzantine hm => exact Or.inr ⟨_, hm, rfl⟩

/-- The slots of a world: the nodes are honest and distinct, every honest message is behind
its node, and no honest identity has two messages in a slot. -/
structure Disciplined (c : Config) (w : World) : Prop where
  nodup : (w.nodes.map Node.identity).Nodup
  honest : ∀ n ∈ w.nodes, n.identity ∉ c.byzantine
  numbered : ∀ n ∈ w.nodes, Numbered n
  own : ∀ m ∈ w.sent, m.sender ∉ c.byzantine →
    ∃ n ∈ w.nodes, n.identity = m.sender ∧ OwnMessage n m
  one : ∀ m ∈ w.sent, ∀ m' ∈ w.sent, m.sender ∉ c.byzantine → m'.sender = m.sender →
    m'.slot = m.slot → m' = m

theorem Disciplined.init : Disciplined c (initial c) where
  nodup := by
    have hids : (initial c).nodes.map Node.identity =
        (List.range numIdentities).filter (· ∉ c.byzantine) := by
      simp [initial, Function.comp_def]
    rw [hids]
    exact List.nodup_range.filter _
  honest n hn := by
    obtain ⟨i, hi, rfl⟩ := List.mem_map.mp hn
    simpa using (List.mem_filter.mp hi).2
  numbered n hn := by
    obtain ⟨i, hi, rfl⟩ := List.mem_map.mp hn
    exact ⟨nofun, rfl, le_refl _⟩
  own m hm := absurd hm (Finset.notMem_empty m)
  one m hm := absurd hm (Finset.notMem_empty m)

/-- A slot case of one node keeps the world disciplined. -/
theorem Disciplined.put {w : World} (hw : Disciplined c w) {n n' : Node} {m : Option Message}
    (hn : n ∈ w.nodes) (hs : SlotCase c n n' m) : Disciplined c (put w n' m) := by
  have hidentity := hs.identity
  have hown : ∀ x ∈ w.sent, x.sender = n.identity → OwnMessage n x := by
    intro x hx hsender
    obtain ⟨y, hy, hyx, hyown⟩ := hw.own x hx (hsender ▸ hw.honest n hn)
    rwa [eq_of_identity hw.nodup hn hy (hyx.trans hsender)] at hyown
  have hfresh : ∀ x ∈ w.sent, ∀ y, m = some y → x.sender = y.sender → x.slot ≠ y.slot := by
    rintro x hx y rfl hsender
    obtain ⟨-, hy, hslot⟩ := hs.fresh (hw.numbered n hn)
    exact hslot x (hown x hx (hsender.trans hy))
  refine ⟨?_, ?_, ?_, ?_, ?_⟩
  · rw [map_identity_put]
    exact hw.nodup
  · intro x hx
    obtain rfl | ⟨hx, -⟩ := mem_put hx
    · exact hidentity ▸ hw.honest n hn
    · exact hw.honest x hx
  · intro x hx
    obtain rfl | ⟨hx, -⟩ := mem_put hx
    · exact hs.numbered (hw.numbered n hn)
    · exact hw.numbered x hx
  · intro x hx hhonest
    obtain hx | rfl := mem_put_sent.mp hx
    · obtain ⟨y, hy, hyx, hyown⟩ := hw.own x hx hhonest
      by_cases hsame : y.identity = n.identity
      · obtain rfl := eq_of_identity hw.nodup hn hy hsame
        exact ⟨n', mem_put_self hn hidentity, hidentity.trans hyx, hs.own hyown⟩
      · exact ⟨y, mem_put_other hy (hidentity ▸ hsame), hyx, hyown⟩
    · obtain ⟨hxown, hsender, -⟩ := hs.fresh (hw.numbered n hn)
      exact ⟨n', mem_put_self hn hidentity, hidentity.trans hsender.symm, hxown⟩
  · intro x hx y hy hhonest hsender hslot
    obtain hx | hx := mem_put_sent.mp hx <;> obtain hy | hy := mem_put_sent.mp hy
    · exact hw.one x hx y hy hhonest hsender hslot
    · exact absurd hslot.symm (hfresh x hx y hy hsender.symm)
    · exact absurd hslot (hfresh y hy x hx hsender)
    · exact Option.some.inj (hy.symm.trans hx)

theorem Disciplined.byzantine {w : World} (hw : Disciplined c w) {m : Message}
    (hm : m.sender ∈ c.byzantine) :
    Disciplined c { w with sent := insert m w.sent } := by
  refine ⟨hw.nodup, hw.honest, hw.numbered, ?_, ?_⟩
  · intro x hx hhonest
    obtain rfl | hx := Finset.mem_insert.mp hx
    · exact absurd hm hhonest
    · exact hw.own x hx hhonest
  · intro x hx y hy hhonest hsender hslot
    obtain rfl | hx := Finset.mem_insert.mp hx
    · exact absurd hm hhonest
    obtain rfl | hy := Finset.mem_insert.mp hy
    · exact absurd (hsender ▸ hm) hhonest
    exact hw.one x hx y hy hhonest hsender hslot

theorem Disciplined.step {w w' : World} {a : Action} (hw : Disciplined c w)
    (hs : WorldStep c w a w') : Disciplined c w' := by
  obtain ⟨n, hn, n', m, hcase, rfl⟩ | ⟨m, hm, rfl⟩ := hs.slotCase hw.numbered
  · exact hw.put hn hcase
  · exact hw.byzantine hm

theorem disciplined_of_reachable {w : World} (hw : Reachable c w) : Disciplined c w :=
  Reachable.invariant Disciplined.init (fun _ _ _ => Disciplined.step) hw

/-! ## Locks -/

/-- What a transition does to the lock of a node that stays at its height: only the polka
rule changes it, and a precommit for a value is sent together with its lock. -/
structure LockStep (a : Action) (w w' : World) (n n' : Node) : Prop where
  polka : (n'.locked, n'.lr) = (n.locked, n.lr) ∨ ∃ v, a = .polka n.identity v
  precommit : ∀ m ∈ w'.sent, m ∉ w.sent → m.sender = n'.identity → m.kind = .precommit →
    m.value ≠ nilValue → (n'.locked, n'.lr) = (m.value, m.round)

theorem StartCase.lock {n n' : Node} {round : Int} {m : Option Message}
    (hs : StartCase c n round n' m) :
    n'.locked = n.locked ∧ n'.lr = n.lr ∧ n'.height = n.height ∧
      ∀ x ∈ m, x.kind = .proposal := by
  cases hs with
  | wait => exact ⟨rfl, rfl, rfl, nofun⟩
  | idle => exact ⟨rfl, rfl, rfl, nofun⟩
  | propose value => exact ⟨rfl, rfl, rfl, fun x hx => by obtain rfl := Option.some.inj hx; rfl⟩

/-- The locks of a local rule. -/
theorem LocalCase.lock {n n' : Node} {a : Action} {m : Option Message}
    (hs : LocalCase c n a n' m) (hheight : n'.height = n.height) :
    ((n'.locked, n'.lr) = (n.locked, n.lr) ∨ ∃ v, a = .polka n.identity v) ∧
      ∀ x ∈ m, x.kind = .precommit → x.value ≠ nilValue →
        (n'.locked, n'.lr) = (x.value, x.round) := by
  have hentered : ∀ {round : Int}, StartCase c n round n' m →
      ((n'.locked, n'.lr) = (n.locked, n.lr) ∨ ∃ v, a = .polka n.identity v) ∧
      ∀ x ∈ m, x.kind = .precommit → x.value ≠ nilValue →
        (n'.locked, n'.lr) = (x.value, x.round) := by
    intro round hstart
    obtain ⟨hlocked, hlr, -, hkind⟩ := hstart.lock
    refine ⟨Or.inl (by rw [hlocked, hlr]), fun x hx hprecommit => ?_⟩
    rw [hkind x hx] at hprecommit
    cases hprecommit
  cases hs with
  | start _ hstart => exact hentered hstart
  | prevote p valid =>
    exact ⟨Or.inl rfl, fun x hx hkind => by obtain rfl := Option.some.inj hx; cases hkind⟩
  | arm flag => exact ⟨Or.inl rfl, nofun⟩
  | polka p _ hphase =>
    refine ⟨Or.inr ⟨p.value, rfl⟩, ?_⟩
    unfold polkaNode
    dsimp only
    split
    · intro x hx _ _
      obtain rfl := Option.some.inj hx
      rfl
    · exact nofun
  | nilPolka =>
    exact ⟨Or.inl rfl, fun x hx _ hvalue => by
      obtain rfl := Option.some.inj hx
      exact absurd rfl hvalue⟩
  | decide p _ _ _ _ hnext =>
    -- a decision does not keep the height
    have hnew : n'.height = n.height + 1 := by
      obtain hstart | ⟨rfl, -⟩ := hnext
      · exact hstart.lock.2.2.1
      · rfl
    omega
  | catchup _ _ hstart => exact hentered hstart
  | timeoutPropose =>
    exact ⟨Or.inl rfl, fun x hx hkind => by obtain rfl := Option.some.inj hx; cases hkind⟩
  | timeoutPrevote =>
    exact ⟨Or.inl rfl, fun x hx _ hvalue => by
      obtain rfl := Option.some.inj hx
      exact absurd rfl hvalue⟩
  | timeoutPrecommit _ hstart => exact hentered hstart

/-- The locks of a transition, for every node that stays at its height. -/
theorem WorldStep.lock {w w' : World} {a : Action} (hw : Disciplined c w)
    (hs : WorldStep c w a w') {n n' : Node} (hn : n ∈ w.nodes) (hn' : n' ∈ w'.nodes)
    (hidentity : n'.identity = n.identity) (hheight : n'.height = n.height) :
    LockStep a w w' n n' := by
  have hunmoved : ∀ {x : Node} {m : Option Message}, x ∈ w.nodes → w' = put w x m →
      n'.locked = n.locked ∧ n'.lr = n.lr ∨ n' = x := by
    rintro x m hx rfl
    obtain rfl | ⟨hold, -⟩ := mem_put hn'
    · exact Or.inr rfl
    · obtain rfl := eq_of_identity hw.nodup hn hold hidentity
      exact Or.inl ⟨rfl, rfl⟩
  cases hs with
  | @«local» x x' _ m hx hlocal =>
    have hsame := (hlocal.slotCase (hw.numbered x hx)).identity
    obtain rfl | ⟨hold, hother⟩ := mem_put hn'
    · obtain rfl := eq_of_identity hw.nodup hx hn (hidentity.symm.trans hsame)
      obtain ⟨hpolka, hprecommit⟩ := hlocal.lock hheight
      refine ⟨hpolka, fun y hy hnew _ hkind hvalue => ?_⟩
      exact hprecommit y (by simpa [hnew] using mem_put_sent.mp hy) hkind hvalue
    · obtain rfl := eq_of_identity hw.nodup hn hold hidentity
      refine ⟨Or.inl rfl, fun y hy hnew hsender _ _ => absurd ?_ hother⟩
      -- the message of another node
      obtain rfl : m = some y := by simpa [hnew] using mem_put_sent.mp hy
      obtain ⟨-, hy', -⟩ := (hlocal.slotCase (hw.numbered x hx)).fresh (hw.numbered x hx)
      rw [← hsender, hy', hsame]
  | @deliver x m hx hsent hrelevant =>
    refine ⟨Or.inl ?_, fun y hy hnew => absurd (by simpa using mem_put_sent.mp hy) hnew⟩
    obtain rfl | ⟨hold, -⟩ := mem_put hn'
    · obtain rfl := eq_of_identity hw.nodup hx hn hidentity.symm
      rfl
    · rw [eq_of_identity hw.nodup hn hold hidentity]
  | @fetch x value hx =>
    refine ⟨Or.inl ?_, fun y hy hnew => absurd (by simpa using mem_put_sent.mp hy) hnew⟩
    obtain rfl | ⟨hold, -⟩ := mem_put hn'
    · obtain rfl := eq_of_identity hw.nodup hx hn hidentity.symm
      rfl
    · rw [eq_of_identity hw.nodup hn hold hidentity]
  | @byzantine m hm =>
    obtain rfl := eq_of_identity hw.nodup hn hn' hidentity
    refine ⟨Or.inl rfl, fun y hy hnew hsender => ?_⟩
    obtain rfl | hy := Finset.mem_insert.mp hy
    · exact absurd (hsender ▸ hm) (hw.honest _ hn)
    · exact absurd hy hnew

/-! ## The result -/

/-- The parent of a message is the one value that the node decided at the height before. -/
def DecidedParent (n : Node) (m : Message) : Prop :=
  (∃ d ∈ n.decisions, d.height = m.height - 1) ∧
    ∀ d ∈ n.decisions, d.height = m.height - 1 → d.value = m.parent

theorem OwnMessage.decidedParent {n : Node} {m : Message} (hm : OwnMessage n m)
    (hn : Numbered n) (hheight : 1 < m.height) : DecidedParent n m := by
  obtain ⟨hfirst, -⟩ | ⟨d, hd, hdHeight, hdValue⟩ := hm.parent
  · omega
  · refine ⟨⟨d, hd, hdHeight⟩, fun e he heHeight => ?_⟩
    obtain ⟨i, hi, rfl⟩ := List.getElem_of_mem hd
    obtain ⟨j, hj, rfl⟩ := List.getElem_of_mem he
    have hiHeight := hn.heights i hi
    have hjHeight := hn.heights j hj
    obtain rfl : i = j := by omega
    exact hdValue

/-- The slots of a world and of the transitions out of it. -/
structure SlotLaw (c : Config) (w : World) : Prop where
  one : ∀ m ∈ w.sent, ∀ m' ∈ w.sent, m.sender ∉ c.byzantine → m'.sender = m.sender →
    m'.height = m.height → m'.round = m.round → m'.kind = m.kind → m' = m
  parent : ∀ m ∈ w.sent, m.sender ∉ c.byzantine → 1 < m.height →
    ∃ n ∈ w.nodes, n.identity = m.sender ∧ DecidedParent n m
  lock : ∀ a w' adversary, (a, w') ∈ successors c w adversary → ∀ n ∈ w.nodes, ∀ n' ∈ w'.nodes,
    n'.identity = n.identity → n'.height = n.height → LockStep a w w' n n'

/-- In a reachable world an honest identity has sent at most one message per slot, its
messages carry the value it decided before as parent, and every transition changes a lock
only with a polka and together with the precommit. -/
theorem slotLaw_of_reachable {w : World} (hw : Reachable c w) : SlotLaw c w := by
  have hdisciplined := disciplined_of_reachable hw
  refine ⟨?_, ?_, ?_⟩
  · intro m hm m' hm' hhonest hsender hheight hround hkind
    have hslot : m'.slot = m.slot := by rw [Message.slot, hheight, hround, hkind]; rfl
    exact hdisciplined.one m hm m' hm' hhonest hsender hslot
  · intro m hm hhonest hheight
    obtain ⟨n, hn, hidentity, hown⟩ := hdisciplined.own m hm hhonest
    exact ⟨n, hn, hidentity, hown.decidedParent (hdisciplined.numbered n hn) hheight⟩
  · intro a w' adversary hs n hn n' hn' hidentity hheight
    exact (worldStep_of_mem hs).lock hdisciplined hn hn' hidentity hheight

theorem slotLaw_sampleRun : ∃ w, SlotLaw sampleConfig w ∧
    w.nodes.map (fun n => n.decisions.map Decision.value) = [["X"], ["X"], []] := by
  obtain ⟨w, hw, hdecided⟩ := reachable_sampleRun
  exact ⟨w, slotLaw_of_reachable hw, hdecided⟩

end ZoidbergChain.Tendermint
