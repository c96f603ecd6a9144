import ZoidbergChain.Consensus.Locking
import ZoidbergChain.Tendermint.Evidence

/-!
# Agreement (verification/tendermint717h/model.py)

The votes that honest nodes send at one height keep the rules of agreement by locking
(`Consensus.Locking`), so that no two nodes decide differently at a height.

- `LockState`: the lock of a node against the precommits that it has sent.
- `VoteRules`: what holds of all votes ever sent; kept by every transition of a model
  whose locking is not broken.
- `agreement_of_reachable`: two decisions at one height have the same value.
-/

namespace ZoidbergChain.Tendermint

variable {c : Config}

/-! ## Polkas among the messages sent -/

/-- The prevotes for a value in a round of a height, from known identities. -/
def prevotesFor (sent : Finset Message) (height round : Int) (value : String) : Finset Message :=
  sent.filter fun m => m.kind = .prevote ∧ m.height = height ∧ m.round = round ∧
    m.value = value ∧ m.sender < numIdentities

/-- A quorum of prevotes has been sent. -/
def SentPolka (sent : Finset Message) (height round : Int) (value : String) : Prop :=
  quorum ≤ (senders (prevotesFor sent height round value)).card

theorem SentPolka.mono {sent sent' : Finset Message} {height round : Int} {value : String}
    (hp : SentPolka sent height round value) (hsent : sent ⊆ sent') :
    SentPolka sent' height round value :=
  hp.trans (Finset.card_le_card (Finset.image_subset_image (Finset.filter_subset_filter _ hsent)))

theorem sender_lt_of_authenticated {m : Message} (hm : authenticated m = true) :
    m.sender < numIdentities := by
  simp only [authenticated, Bool.and_eq_true, decide_eq_true_eq] at hm
  exact hm.1.1.1.1.2

theorem round_nonneg_of_authenticated {m : Message} (hm : authenticated m = true) :
    0 ≤ m.round := by
  simp only [authenticated, Bool.and_eq_true, decide_eq_true_eq] at hm
  exact hm.1.2

/-- An authenticated proposal has a value, and its valid round lies before its round. -/
theorem proposal_of_authenticated {m : Message} (hm : authenticated m = true)
    (hkind : m.kind = .proposal) : m.value ≠ nilValue ∧ m.vr < m.round := by
  simp only [authenticated, Bool.and_eq_true, Bool.or_eq_true, decide_eq_true_eq] at hm
  obtain hne | ⟨⟨⟨hvalue, -⟩, hvr⟩, -⟩ := hm.2
  · exact absurd hkind hne
  · exact ⟨hvalue, hvr⟩

/-- The prevotes that a node has logged have been sent. -/
theorem sentPolka_of_weight {sent : Finset Message} {n : Node} {round : Int} {value : String}
    (hlog : n.log ⊆ sent) (hweight : quorum ≤ weight n .prevote round (some value)) :
    SentPolka sent n.height round value := by
  refine hweight.trans (Finset.card_le_card (Finset.image_subset_image fun m hm => ?_))
  obtain ⟨hm, hrelevant, hkind, hround, hvalue⟩ := mem_votes.mp hm
  obtain ⟨hauthentic, hheight, -⟩ := relevant_eq_true.mp hrelevant
  exact Finset.mem_filter.mpr
    ⟨hlog hm, hkind, hheight, hround, hvalue, sender_lt_of_authenticated hauthentic⟩

/-! ## The lock of a node -/

/-- The message is a precommit of the node for a value at its current height. -/
structure IsPrecommit (n : Node) (m : Message) : Prop where
  sender : m.sender = n.identity
  height : m.height = n.height
  kind : m.kind = .precommit
  value : m.value ≠ nilValue

/-- The lock of a node: it lies in the past until the node precommits, it has a polka, and
it is at least as late as every precommit that the node has sent at its height. -/
structure LockState (sent : Finset Message) (n : Node) : Prop where
  le : n.lr ≤ n.round
  lt : n.phase ≠ .precommit → n.lr < n.round
  idle : n.started = false → n.lr = -1
  polka : 0 ≤ n.lr → SentPolka sent n.height n.lr n.locked
  precommit : ∀ m ∈ sent, IsPrecommit n m →
    m.round ≤ n.lr ∧ (m.round = n.lr → m.value = n.locked)

/-- A node that keeps its height and its lock, and sends no precommit for a value. -/
theorem LockState.keep {sent : Finset Message} {n n' : Node} {m : Option Message}
    (hn : LockState sent n) (hheight : n'.height = n.height) (hlocked : n'.locked = n.locked)
    (hlr : n'.lr = n.lr) (hidentity : n'.identity = n.identity)
    (hround : n.lr < n'.round ∨ n'.round = n.round ∧ (n'.phase = .precommit ∨ n'.phase = n.phase))
    (hstarted : n'.started = false → n.started = false)
    (hm : ∀ x ∈ m, x.kind = .precommit → x.value = nilValue) :
    LockState (sent ∪ m.toFinset) n' where
  le := by
    have := hn.le
    omega
  lt hphase := by
    rcases hround with hlater | ⟨hsame, hprecommit | hkept⟩
    · omega
    · exact absurd hprecommit hphase
    · have := hn.lt (hkept ▸ hphase)
      omega
  idle hidle := hlr ▸ hn.idle (hstarted hidle)
  polka hnonneg := by
    rw [hlr] at hnonneg
    rw [hheight, hlr, hlocked]
    exact (hn.polka hnonneg).mono Finset.subset_union_left
  precommit x hx hprecommit := by
    rw [hlr, hlocked]
    rw [Finset.mem_union, Option.mem_toFinset] at hx
    rcases hx with hx | hx
    · exact hn.precommit x hx ⟨hprecommit.sender.trans hidentity,
        hprecommit.height.trans hheight, hprecommit.kind, hprecommit.value⟩
    · exact absurd (hm x hx hprecommit.kind) hprecommit.value

theorem LockState.enter {sent : Finset Message} {n n' : Node} {round : Int}
    {m : Option Message} (hn : LockState sent n) (hlater : n.lr < round)
    (hs : StartCase c n round n' m) : LockState (sent ∪ m.toFinset) n' := by
  obtain ⟨hlocked, hlr, hheight, hkind⟩ := hs.lock
  have hround : n'.round = round := by cases hs <;> rfl
  have hstarted : n'.started = true := by cases hs <;> rfl
  refine hn.keep hheight hlocked hlr hs.identity (Or.inl (hround ▸ hlater)) ?_ fun x hx h => ?_
  · intro hidle
    rw [hstarted] at hidle
    cases hidle
  · rw [hkind x hx] at h
    cases h

/-- A local rule keeps the lock state, given that the messages of the node are behind it. -/
theorem LockState.local {sent : Finset Message} {n n' : Node} {a : Action} {m : Option Message}
    (hn : LockState sent n) (hnumbered : Numbered n) (hlog : n.log ⊆ sent)
    (hown : ∀ x ∈ sent, x.sender = n.identity → OwnMessage n x) (hs : LocalCase c n a n' m) :
    LockState (sent ∪ m.toFinset) n' := by
  have hpos := hnumbered.round_nonneg
  cases hs with
  | start hidle hstart =>
    have := hn.idle hidle
    exact hn.enter (by omega) hstart
  | prevote p valid _ hphase =>
    have hlt := hn.lt (by simp [hphase])
    exact hn.keep rfl rfl rfl rfl (Or.inl hlt) id
      fun x hx hkind => by obtain rfl := Option.some.inj hx; cases hkind
  | arm flag => exact hn.keep rfl rfl rfl rfl (Or.inr ⟨rfl, Or.inr rfl⟩) id nofun
  | polka p hstarted hphase hp hvalid hquorum =>
    unfold polkaNode
    dsimp only
    split
    · -- the node locks the value that it precommits
      refine ⟨le_refl _, fun h => absurd rfl h, ?_, fun _ => ?_, fun x hx hprecommit => ?_⟩
      · intro hidle
        change n.started = false at hidle
        simp [hstarted] at hidle
      · exact (sentPolka_of_weight hlog hquorum).mono Finset.subset_union_left
      · change x.round ≤ n.round ∧ (x.round = n.round → x.value = p.value)
        rw [Finset.mem_union, Option.mem_toFinset] at hx
        rcases hx with hx | hx
        · have hprevote : n.phase = .prevote := by assumption
          have hold := hown x hx hprecommit.sender
          have hle := hold.round_le hprecommit.height
          refine ⟨hle, fun hsame => ?_⟩
          have := (hold.phase hprecommit.height hsame).2 hprecommit.kind
          rw [hprevote] at this
          cases this
        · obtain rfl := Option.some.inj hx
          exact ⟨le_refl _, fun _ => rfl⟩
    · exact hn.keep rfl rfl rfl rfl (Or.inr ⟨rfl, Or.inr rfl⟩) id nofun
  | nilPolka =>
    exact hn.keep rfl rfl rfl rfl (Or.inr ⟨rfl, Or.inl rfl⟩) id
      fun x hx _ => by obtain rfl := Option.some.inj hx; rfl
  | decide p _ _ _ _ hnext =>
    -- no message has been sent at the next height yet
    have hadvanced : LockState sent (n.advance (n.decisionOn p)) := by
      refine ⟨?_, fun _ => ?_, fun _ => rfl, fun h => ?_, ?_⟩
      · show (-1 : Int) ≤ 0
        omega
      · show (-1 : Int) < 0
        omega
      · change (0 : Int) ≤ -1 at h
        omega
      intro x hx hprecommit
      have hle := (hown x hx hprecommit.sender).height_le
      have hheight : x.height = n.height + 1 := hprecommit.height
      omega
    obtain hstart | ⟨rfl, rfl⟩ := hnext
    · exact hadvanced.enter (show (-1 : Int) < 0 by omega) hstart
    · exact hadvanced.keep rfl rfl rfl rfl (Or.inr ⟨rfl, Or.inr rfl⟩) id nofun
  | catchup _ hlater hstart =>
    have := hn.le
    exact hn.enter (by omega) hstart
  | timeoutPropose _ hphase =>
    have hlt := hn.lt (by simp [hphase])
    exact hn.keep rfl rfl rfl rfl (Or.inl hlt) id
      fun x hx hkind => by obtain rfl := Option.some.inj hx; cases hkind
  | timeoutPrevote =>
    exact hn.keep rfl rfl rfl rfl (Or.inr ⟨rfl, Or.inl rfl⟩) id
      fun x hx _ => by obtain rfl := Option.some.inj hx; rfl
  | timeoutPrecommit _ hstart =>
    have := hn.le
    exact hn.enter (by omega) hstart

/-! ## The votes that a node sends -/

theorem kind_of_startCase {n n' : Node} {round : Int} {x : Message}
    (hs : StartCase c n round n' (some x)) : x.kind = .proposal := hs.lock.2.2.2 x rfl

/-- A precommit for a value has its polka. -/
theorem LocalCase.precommit_polka {sent : Finset Message} {n n' : Node} {a : Action}
    {x : Message} (hlog : n.log ⊆ sent) (hs : LocalCase c n a n' (some x))
    (hkind : x.kind = .precommit) (hvalue : x.value ≠ nilValue) :
    SentPolka sent x.height x.round x.value := by
  have hentered : ∀ {y : Node} {round : Int}, StartCase c y round n' (some x) →
      SentPolka sent x.height x.round x.value := fun hstart => by
    rw [kind_of_startCase hstart] at hkind
    cases hkind
  generalize hm : some x = m at hs
  cases hs with
  | start _ hstart => exact hentered (hm ▸ hstart)
  | prevote p valid => obtain rfl := Option.some.inj hm; cases hkind
  | arm flag => cases hm
  | polka p _ _ _ _ hquorum =>
    unfold polkaNode at hm
    dsimp only at hm
    split at hm
    · obtain rfl := Option.some.inj hm
      exact sentPolka_of_weight hlog hquorum
    · cases hm
  | nilPolka => obtain rfl := Option.some.inj hm; exact absurd rfl hvalue
  | decide p _ _ _ _ hnext =>
    obtain hstart | ⟨-, hnone⟩ := hnext
    · exact hentered (hm ▸ hstart)
    · rw [hnone] at hm
      cases hm
  | catchup _ _ hstart => exact hentered (hm ▸ hstart)
  | timeoutPropose => obtain rfl := Option.some.inj hm; cases hkind
  | timeoutPrevote => obtain rfl := Option.some.inj hm; exact absurd rfl hvalue
  | timeoutPrecommit _ hstart => exact hentered (hm ▸ hstart)

/-- A prevote for a value answers its proposal, and the lock of the node allows it. -/
theorem prevoteValue_ne_nil {n : Node} {p : Message} {valid : Bool}
    (hbroken : c.brokenLocking = false) (hvalue : prevoteValue c n p valid ≠ nilValue) :
    prevoteValue c n p valid = p.value ∧
      (n.locked = p.value ∨ p.vr = -1 ∧ n.lr = -1 ∨ p.vr ≠ -1 ∧ n.lr ≤ p.vr) := by
  unfold prevoteValue at hvalue ⊢
  dsimp only at hvalue ⊢
  by_cases hok : valid = true ∧ ((if p.vr = -1 then n.lr = -1 ∨ n.locked = p.value
      else n.lr ≤ p.vr ∨ n.locked = p.value) ∨ c.brokenLocking = true)
  · refine ⟨if_pos hok, ?_⟩
    have hlockOk := hok.2.resolve_right (by simp [hbroken])
    split at hlockOk
    · next hfresh => exact hlockOk.symm.imp_right fun h => Or.inl ⟨hfresh, h⟩
    · next hstale => exact hlockOk.symm.imp_right fun h => Or.inr ⟨hstale, h⟩
  · exact absurd (if_neg hok) hvalue

/-- A prevote for another value than a precommit of the node has a polka in between. -/
theorem LocalCase.prevote_lock {sent : Finset Message} {n n' : Node} {a : Action}
    {x y : Message} (hbroken : c.brokenLocking = false) (hn : LockState sent n)
    (hlog : n.log ⊆ sent) (hs : LocalCase c n a n' (some x)) (hkind : x.kind = .prevote)
    (hvalue : x.value ≠ nilValue) (hy : y ∈ sent) (hprecommit : IsPrecommit n y)
    (hround : 0 ≤ y.round) (hne : y.value ≠ x.value) :
    ∃ s, y.round ≤ s ∧ s < x.round ∧ SentPolka sent x.height s x.value := by
  have hentered : ∀ {z : Node} {round : Int}, StartCase c z round n' (some x) →
      ∃ s, y.round ≤ s ∧ s < x.round ∧ SentPolka sent x.height s x.value := fun hstart => by
    rw [kind_of_startCase hstart] at hkind
    cases hkind
  generalize hm : some x = m at hs
  cases hs with
  | start _ hstart => exact hentered (hm ▸ hstart)
  | prevote p valid _ hphase hp hjustified =>
    obtain rfl := Option.some.inj hm
    change prevoteValue c n p valid ≠ nilValue at hvalue
    change y.value ≠ prevoteValue c n p valid at hne
    change ∃ s, y.round ≤ s ∧ s < n.round ∧
      SentPolka sent n.height s (prevoteValue c n p valid)
    obtain ⟨hle, hlast⟩ := hn.precommit y hy hprecommit
    have hlt := hn.lt (by simp [hphase])
    -- the lock that the node has kept since its precommit
    have hkept : n.locked = prevoteValue c n p valid → ∃ s, y.round ≤ s ∧ s < n.round ∧
        SentPolka sent n.height s (prevoteValue c n p valid) := fun hlocked =>
      ⟨n.lr, hle, hlt, hlocked ▸ hn.polka (by omega)⟩
    obtain ⟨hvalid, hlockOk⟩ := prevoteValue_ne_nil hbroken hvalue
    rw [hvalid] at hkept ⊢
    rcases hlockOk with hlocked | ⟨-, hunlocked⟩ | ⟨hstale, hearlier⟩
    · exact hkept hlocked
    · omega
    · -- the polka of the valid round of the proposal
      obtain ⟨-, hpolka⟩ := hjustified.resolve_left hstale
      obtain ⟨-, hproposal, hrelevant, hsame⟩ := mem_proposals.mp hp
      have hvr := (proposal_of_authenticated (relevant_eq_true.mp hrelevant).1 hproposal).2
      rw [hsame _ rfl] at hvr
      exact ⟨p.vr, by omega, hvr, sentPolka_of_weight hlog hpolka⟩
  | arm flag => cases hm
  | polka p =>
    unfold polkaNode at hm
    dsimp only at hm
    split at hm
    · obtain rfl := Option.some.inj hm
      cases hkind
    · cases hm
  | nilPolka => obtain rfl := Option.some.inj hm; cases hkind
  | decide p _ _ _ _ hnext =>
    obtain hstart | ⟨-, hnone⟩ := hnext
    · exact hentered (hm ▸ hstart)
    · rw [hnone] at hm
      cases hm
  | catchup _ _ hstart => exact hentered (hm ▸ hstart)
  | timeoutPropose => obtain rfl := Option.some.inj hm; exact absurd rfl hvalue
  | timeoutPrevote => obtain rfl := Option.some.inj hm; cases hkind
  | timeoutPrecommit _ hstart => exact hentered (hm ▸ hstart)

/-! ## The votes of a world -/

/-- What holds of all votes for values that honest identities have sent. -/
structure VoteRules (c : Config) (w : World) : Prop where
  state : ∀ n ∈ w.nodes, LockState w.sent n
  polka : ∀ m ∈ w.sent, m.sender ∉ c.byzantine → m.kind = .precommit → m.value ≠ nilValue →
    SentPolka w.sent m.height m.round m.value
  lock : ∀ m ∈ w.sent, ∀ m' ∈ w.sent, m.sender ∉ c.byzantine → m'.sender = m.sender →
    m'.height = m.height → m.kind = .precommit → m.value ≠ nilValue → m'.kind = .prevote →
    m'.value ≠ nilValue → m.round < m'.round → m.value ≠ m'.value →
    ∃ s, m.round ≤ s ∧ s < m'.round ∧ SentPolka w.sent m'.height s m'.value

theorem VoteRules.init : VoteRules c (initial c) where
  state n hn := by
    obtain ⟨i, hi, rfl⟩ := List.mem_map.mp hn
    refine ⟨?_, fun _ => ?_, fun _ => rfl, fun h => ?_, nofun⟩
    · show (-1 : Int) ≤ 0
      omega
    · show (-1 : Int) < 0
      omega
    · change (0 : Int) ≤ -1 at h
      omega
  polka m hm := absurd hm (Finset.notMem_empty m)
  lock m hm := absurd hm (Finset.notMem_empty m)

theorem LockState.mono {sent sent' : Finset Message} {n : Node} (hn : LockState sent n)
    (hsent : sent ⊆ sent')
    (hnew : ∀ m ∈ sent', m ∉ sent → m.sender ≠ n.identity) : LockState sent' n where
  le := hn.le
  lt := hn.lt
  idle := hn.idle
  polka hnonneg := (hn.polka hnonneg).mono hsent
  precommit m hm hprecommit := by
    by_cases hold : m ∈ sent
    · exact hn.precommit m hold hprecommit
    · exact absurd hprecommit.sender (hnew m hm hold)

/-- A node that moves by a local rule keeps the vote rules. -/
theorem VoteRules.local {w : World} (hbroken : c.brokenLocking = false) (hw : VoteRules c w)
    (hdisciplined : Disciplined c w) (hevidence : Evidence c w) {n n' : Node} {a : Action}
    {m : Option Message} (hn : n ∈ w.nodes) (hs : LocalCase c n a n' m) :
    VoteRules c (put w n' m) := by
  have hnumbered := hdisciplined.numbered n hn
  have hlog := (hevidence.logged n hn).log
  have hcase := hs.slotCase hnumbered
  have hidentity := hcase.identity
  have hown : ∀ x ∈ w.sent, x.sender = n.identity → OwnMessage n x := by
    intro x hx hsender
    obtain ⟨y, hy, hyx, hyown⟩ := hdisciplined.own x hx (hsender ▸ hdisciplined.honest n hn)
    rwa [eq_of_identity hdisciplined.nodup hn hy (hyx.trans hsender)] at hyown
  have hgrow : w.sent ⊆ (put w n' m).sent := fun x hx => mem_put_sent.mpr (Or.inl hx)
  have hsender : ∀ {x}, m = some x → x.sender = n.identity := by
    rintro x rfl
    exact (hcase.fresh hnumbered).2.1
  refine ⟨?_, ?_, ?_⟩
  · intro x hx
    obtain rfl | ⟨hx, hother⟩ := mem_put hx
    · exact (hw.state n hn).local hnumbered hlog hown hs
    · refine (hw.state x hx).mono hgrow fun y hy hnew => ?_
      have hy' := hsender ((mem_put_sent.mp hy).resolve_left hnew)
      rw [hy', ← hidentity]
      exact hother.symm
  · intro x hx hhonest hkind hvalue
    obtain hx | rfl := mem_put_sent.mp hx
    · exact (hw.polka x hx hhonest hkind hvalue).mono hgrow
    · exact (hs.precommit_polka hlog hkind hvalue).mono hgrow
  · intro x hxput y hyput hhonest hsame hheight hkind hvalue hkind' hvalue' hlater hne
    obtain hx | hx := mem_put_sent.mp hxput <;> obtain hy | rfl := mem_put_sent.mp hyput
    · obtain ⟨s, hle, hlt, hs⟩ :=
        hw.lock x hx y hy hhonest hsame hheight hkind hvalue hkind' hvalue' hlater hne
      exact ⟨s, hle, hlt, hs.mono hgrow⟩
    · -- the node prevotes: its precommit `x` is behind its lock
      have hxn : x.sender = n.identity := hsame.symm.trans (hsender rfl)
      have hyn : y.height = n.height := by
        cases hcase with
        | vote hv => exact hv.message.1
        | enter _ _ hstart => rw [kind_of_startCase hstart] at hkind'; cases hkind'
        | decide _ hnext =>
          obtain hstart | ⟨-, hnone⟩ := hnext
          · rw [kind_of_startCase hstart] at hkind'; cases hkind'
          · cases hnone
      obtain ⟨s, hle, hlt, hs⟩ := hs.prevote_lock hbroken (hw.state n hn) hlog hkind' hvalue' hx
        ⟨hxn, hheight.symm.trans hyn, hkind, hvalue⟩ (hown x hx hxn).round_nonneg hne
      exact ⟨s, hle, hlt, hs.mono hgrow⟩
    · -- a prevote that is later than the precommit being sent
      subst hx
      obtain ⟨hxown, hxn, -⟩ := hcase.fresh hnumbered
      have hyown := hown y hy (hsame.trans hxn)
      have hxheight : x.height = n.height ∧ x.round = n.round := by
        cases hcase with
        | vote hv => exact ⟨hv.message.1, hv.message.2.1⟩
        | enter _ _ hstart => rw [kind_of_startCase hstart] at hkind; cases hkind
        | decide _ hnext =>
          obtain hstart | ⟨-, hnone⟩ := hnext
          · rw [kind_of_startCase hstart] at hkind; cases hkind
          · cases hnone
      have := hyown.round_le (hheight.trans hxheight.1)
      omega
    · obtain rfl := Option.some.inj hx
      rw [hkind] at hkind'
      cases hkind'

theorem VoteRules.step {w w' : World} {a : Action} (hbroken : c.brokenLocking = false)
    (hw : VoteRules c w) (hdisciplined : Disciplined c w) (hevidence : Evidence c w)
    (hs : WorldStep c w a w') : VoteRules c w' := by
  -- a node that only learns something keeps its lock
  have hlearns : ∀ {n n' : Node}, n ∈ w.nodes → n'.height = n.height → n'.round = n.round →
      n'.phase = n.phase → n'.started = n.started → n'.locked = n.locked → n'.lr = n.lr →
      n'.identity = n.identity → VoteRules c (put w n') := by
    intro n n' hn hheight hround hphase hstarted hlocked hlr hidentity
    have hsent : (put w n').sent = w.sent := by simp [put]
    refine ⟨fun x hx => ?_, ?_, ?_⟩
    · rw [hsent]
      obtain rfl | ⟨hx, -⟩ := mem_put hx
      · have := (hw.state n hn).keep (m := none) hheight hlocked hlr hidentity
          (Or.inr ⟨hround, Or.inr hphase⟩) (fun h => hstarted ▸ h) (by simp)
        simpa using this
      · exact hw.state x hx
    · rw [hsent]
      exact hw.polka
    · rw [hsent]
      exact hw.lock
  cases hs with
  | «local» hn hlocal => exact hw.local hbroken hdisciplined hevidence hn hlocal
  | deliver hn => exact hlearns hn rfl rfl rfl rfl rfl rfl rfl
  | fetch value hn => exact hlearns hn rfl rfl rfl rfl rfl rfl rfl
  | @byzantine m hm =>
    have hgrow : w.sent ⊆ insert m w.sent := Finset.subset_insert m w.sent
    have hold : ∀ x ∈ insert m w.sent, x.sender ∉ c.byzantine → x ∈ w.sent := by
      intro x hx hhonest
      obtain rfl | hx := Finset.mem_insert.mp hx
      · exact absurd hm hhonest
      · exact hx
    refine ⟨fun n hn => ?_, ?_, ?_⟩
    · refine (hw.state n hn).mono hgrow fun x hx hnew hsender => hnew (hold x hx ?_)
      rw [hsender]
      exact hdisciplined.honest n hn
    · intro x hx hhonest hkind hvalue
      exact (hw.polka x (hold x hx hhonest) hhonest hkind hvalue).mono hgrow
    · intro x hx y hy hhonest hsame hheight hkind hvalue hkind' hvalue' hlater hne
      obtain ⟨s, hle, hlt, hs⟩ := hw.lock x (hold x hx hhonest) y
        (hold y hy (hsame ▸ hhonest)) hhonest hsame hheight hkind hvalue hkind' hvalue' hlater hne
      exact ⟨s, hle, hlt, hs.mono hgrow⟩

theorem voteRules_of_reachable {w : World} (hbroken : c.brokenLocking = false)
    (hw : Reachable c w) : VoteRules c w ∧ Disciplined c w ∧ Evidence c w := by
  refine Reachable.invariant (P := fun w => VoteRules c w ∧ Disciplined c w ∧ Evidence c w)
    ⟨VoteRules.init, Disciplined.init, Evidence.init⟩ ?_ hw
  rintro w a w' ⟨hrules, hdisciplined, hevidence⟩ hs
  exact ⟨hrules.step hbroken hdisciplined hevidence hs, hdisciplined.step hs, hevidence.step hs⟩

/-! ## Agreement -/

/-- An identity has sent a vote for a value in a round of a height. -/
def SentVote (w : World) (height : Int) (kind : Kind) (i : Nat) (round : Nat) (value : String) :
    Prop :=
  value ≠ nilValue ∧ ∃ m ∈ w.sent, m.kind = kind ∧ m.height = height ∧ m.sender = i ∧
    m.round = round ∧ m.value = value

/-- The votes at one height of a world. -/
def votingRecord (c : Config) (w : World) (height : Int) : Consensus.VotingRecord Nat String where
  members := Finset.range numIdentities
  faulty := c.byzantine
  threshold := quorum
  prevote := SentVote w height .prevote
  precommit := SentVote w height .precommit

/-- A polka among the messages sent is one of the voting record. -/
theorem SentPolka.polka {w : World} {height : Int} {round : Nat} {value : String}
    (hvalue : value ≠ nilValue) (hp : SentPolka w.sent height round value) :
    Consensus.Polka (votingRecord c w height) round value := by
  refine ⟨senders (prevotesFor w.sent height round value), fun i hi => ?_, hp, fun i hi => ?_⟩
  · obtain ⟨m, hm, rfl⟩ := Finset.mem_image.mp hi
    exact Finset.mem_range.mpr (Finset.mem_filter.mp hm).2.2.2.2.2
  · obtain ⟨m, hm, rfl⟩ := Finset.mem_image.mp hi
    obtain ⟨hm, hkind, hheight, hround, hval, -⟩ := Finset.mem_filter.mp hm
    exact ⟨hvalue, m, hm, hkind, hheight, rfl, hround, hval⟩

/-- The honest votes at a height keep the rules of agreement by locking. -/
theorem votingRecord_locking {w : World} (hw : VoteRules c w) (hdisciplined : Disciplined c w)
    (height : Int) : Consensus.Locking (votingRecord c w height) where
  overlap := by
    have := c.card_byzantine_le
    change (Finset.range numIdentities).card + c.byzantine.card < 2 * quorum
    simp only [Finset.card_range, numIdentities, quorum, maxFaulty] at this ⊢
    omega
  one_prevote := by
    rintro i r v w hhonest ⟨-, m, hm, hk, hh, rfl, hr, rfl⟩ ⟨-, m', hm', hk', hh', hs', hr', rfl⟩
    have hslot : m'.slot = m.slot := by simp [Message.slot, hk, hk', hh, hh', hr, hr']
    rw [hdisciplined.one m hm m' hm' hhonest hs' hslot]
  one_precommit := by
    rintro i r v w hhonest ⟨-, m, hm, hk, hh, rfl, hr, rfl⟩ ⟨-, m', hm', hk', hh', hs', hr', rfl⟩
    have hslot : m'.slot = m.slot := by simp [Message.slot, hk, hk', hh, hh', hr, hr']
    rw [hdisciplined.one m hm m' hm' hhonest hs' hslot]
  polka := by
    rintro i r v hhonest ⟨hvalue, m, hm, hk, hh, rfl, hr, rfl⟩
    have hpolka := hw.polka m hm hhonest hk hvalue
    rw [hh, hr] at hpolka
    exact hpolka.polka hvalue
  lock := by
    rintro i r r' v v' hhonest ⟨hvalue, m, hm, hk, hh, rfl, hr, rfl⟩
      ⟨hvalue', m', hm', hk', hh', hs', hr', rfl⟩ hlater hne
    obtain ⟨s, hle, hlt, hs⟩ := hw.lock m hm m' hm' hhonest hs' (hh'.trans hh.symm) hk hvalue hk'
      hvalue' (by omega) hne
    lift s to Nat using by omega
    rw [hh'] at hs
    exact ⟨s, by omega, by omega, hs.polka hvalue'⟩

/-- A decision is a commit of the voting record. -/
theorem committed_of_decision {w : World} {n : Node} {d : Decision} (hw : Evidence c w)
    (hn : n ∈ w.nodes) (hd : d ∈ n.decisions) :
    ∃ r, Consensus.Committed (votingRecord c w d.height) r d.value := by
  obtain ⟨hevidence, -⟩ := (hw.evident n hn).decision d hd
  have hsent := (hw.logged n hn).votes d hd
  have hround := round_nonneg_of_authenticated hevidence.authentic
  have hvalue : d.value ≠ nilValue := by
    rw [← hevidence.proposal.2.1]
    exact (proposal_of_authenticated hevidence.authentic hevidence.kind).1
  generalize hr : d.proposal.round = r at hround
  lift r to Nat using hround
  refine ⟨r, senders d.votes, fun i hi => ?_, hevidence.quorum, fun i hi => ?_⟩
  · obtain ⟨v, hv, rfl⟩ := Finset.mem_image.mp hi
    exact Finset.mem_range.mpr (sender_lt_of_authenticated (hevidence.votes v hv).1)
  · obtain ⟨v, hv, rfl⟩ := Finset.mem_image.mp hi
    obtain ⟨-, hkind, hheight, hsame, hval, -⟩ := hevidence.votes v hv
    exact ⟨hvalue, v, hsent hv, hkind, hheight, rfl, hsame.trans hr, hval⟩

/-- All decisions at a height are for one value. -/
def Agreement (w : World) : Prop :=
  ∀ n ∈ w.nodes, ∀ n' ∈ w.nodes, ∀ d ∈ n.decisions, ∀ d' ∈ n'.decisions,
    d.height = d'.height → d.value = d'.value

/-- No two nodes of a reachable world decide different values at a height. -/
theorem agreement_of_reachable (hbroken : c.brokenLocking = false) {w : World}
    (hw : Reachable c w) : Agreement w := by
  obtain ⟨hrules, hdisciplined, hevidence⟩ := voteRules_of_reachable hbroken hw
  intro n hn n' hn' d hd d' hd' hheight
  obtain ⟨r, hr⟩ := committed_of_decision hevidence hn hd
  obtain ⟨r', hr'⟩ := committed_of_decision hevidence hn' hd'
  rw [← hheight] at hr'
  exact (votingRecord_locking hrules hdisciplined d.height).agreement hr hr'

theorem agreement_sampleRun : ∃ w, Agreement w ∧
    w.nodes.map (fun n => n.decisions.map Decision.value) = [["X"], ["X"], []] := by
  obtain ⟨w, hw, hdecided⟩ := reachable_sampleRun
  exact ⟨w, agreement_of_reachable rfl hw, hdecided⟩

end ZoidbergChain.Tendermint
