import ZoidbergChain.Reputation.Order

/-!
# Offenses in the order of their arrival

The service of `Reputation.Model` keeps the ledger of `Reputation.Ledger`, so that its answers
depend on the order of the offenses exactly when the ledger's do.

- `Store.Keeps` relates the tables to the ledger, `keeps_apply` is one arrival and `keeps_deliver`
  a run of them.
- `penaltyAt_eq` reads the effective penalty off the ledger.
- `orderIndependent_iff` is the condition on a set of offenses.
-/

namespace ZoidbergChain

open Python Windows

namespace Reputation

/-! ## Runs -/

/-- Applies offenses one after the other, each with the state that the node has for it. -/
def deliver (s : Store) (arrivals : List (Offense × ReviewerStatus)) : Py Store :=
  arrivals.foldlM (fun s arrival => return (← applyVerifiedOffense s arrival.1 arrival.2).1) s

/-- `effective_status` and `effective_end_epoch` in an epoch. -/
def penaltyAt (s : Store) (address : String) (epoch : Int) : Option (ReviewerStatus × Int) :=
  (s.effectivePenalty address epoch).map fun e => (e.effectiveStatus, e.effectiveEndEpoch)

/-- Any two nodes that get all the offenses end up with the same penalties in force. -/
def OrderIndependent (reviewer : String) (offenses : List Offense) : Prop :=
  ∀ arrivals arrivals' : List (Offense × ReviewerStatus),
    Delivers offenses (arrivals.map Prod.fst) → Delivers offenses (arrivals'.map Prod.fst) →
      ∃ s s', deliver {} arrivals = .ok s ∧ deliver {} arrivals' = .ok s' ∧
        ∀ epoch, penaltyAt s reviewer epoch = penaltyAt s' reviewer epoch

/-! ## One offense -/

theorem schedule_status {type : OffenseType} (htype : type.isEscalating = true) {rank : Nat}
    (hrank : 1 ≤ rank) :
    (schedule type rank).1 = .cooldown ∨ (schedule type rank).1 = .suspended := by
  by_cases htwo : rank ≤ 2
  · exact Or.inl (schedule_of_le_two htype hrank htwo).1
  · exact Or.inr (congrArg Prod.fst (schedule_of_three_le htype (by omega)))

/-- What an escalating offense leads to. -/
theorem verdict_of_escalating {s : Store} {o : Offense} (htype : o.offenseType.isEscalating = true)
    (stateBefore : ReviewerStatus) :
    verdict s o stateBefore =
      let sequence := s.offenseCount o.reviewerAddress o.offenseType + 1
      let (status, duration) := schedule o.offenseType sequence
      if (s.effectivePenalty o.reviewerAddress o.reviewEpoch).map (·.effectiveStatus) =
          some .suspended then .ok { resultingState := .suspended, sequence }
      else
        .ok { resultingState := if status = .suspended then .suspended else .cooldown
              startEpoch := some o.reviewEpoch
              endEpoch := some (o.reviewEpoch + duration), sequence
              penalty := some
                (penaltyOf o stateBefore status duration (o.reviewEpoch + duration)) } := by
  obtain ⟨id, address, type, epoch, height, hash⟩ := o
  cases type <;> first | (cases htype; done) | rfl

/-- A penalty with a new identity is recorded. -/
theorem recordReviewerPenalty_eq {s : Store} {penalty : Penalty}
    (hstatus : penalty.penaltyStatus = .cooldown ∨ penalty.penaltyStatus = .suspended)
    (hduration : 0 < penalty.penaltyDurationEpochs ∧
      penalty.penaltyStartEpoch < penalty.penaltyEndEpoch)
    (hfresh : ∀ p ∈ s.penalties,
      p.penaltyId ≠ penalty.penaltyId ∧ p.offenseId ≠ penalty.offenseId) :
    recordReviewerPenalty s penalty = .ok { s with penalties := s.penalties ++ [penalty] } := by
  rw [recordReviewerPenalty, require_pos hstatus, require_pos hduration]
  show (if s.penalties.any _ = true then _ else _) = _
  refine if_neg fun hany => ?_
  obtain ⟨p, hp, hsame⟩ := List.any_eq_true.mp hany
  rw [Bool.or_eq_true, decide_eq_true_eq, decide_eq_true_eq] at hsame
  exact hsame.elim (hfresh p hp).1 (hfresh p hp).2

/-! ## The tables and the ledger -/

/-- The status of a list of severe windows. -/
def statusOf (severe : Bool) : ReviewerStatus := if severe = true then .suspended else .cooldown

theorem statusOf_prod_injective :
    Function.Injective fun e : Bool × Int => (statusOf e.1, e.2) := by
  rintro ⟨severe, stop⟩ ⟨severe', stop'⟩ heq
  cases severe <;> cases severe' <;> simp_all [statusOf]

/-- The window of a penalty. -/
def Penalty.window (p : Penalty) : Window Int where
  start := p.penaltyStartEpoch
  stop := p.penaltyEndEpoch
  severe := decide (p.penaltyStatus = .suspended)

/-- A penalty that the service records for a reviewer. -/
structure Penalty.Recorded (p : Penalty) (reviewer : String) (l : Ledger) : Prop where
  reviewer : p.reviewerAddress = reviewer
  rules : p.reputationRuleVersion = reputationRuleVersion
  status : p.penaltyStatus = .cooldown ∨ p.penaltyStatus = .suspended
  identity : p.penaltyId = p.offenseId
  offense : p.offenseId ∈ l.seen.map Offense.offenseId

/-- The tables of a node that has only seen escalating offenses of one reviewer. -/
structure Store.Keeps (s : Store) (reviewer : String) (l : Ledger) : Prop where
  offenses : s.offenses.map OffenseRecord.toOffense = l.seen
  penalties : s.penalties.map Penalty.window = l.windows
  reviewers : ∀ o ∈ l.seen, o.reviewerAddress = reviewer
  recorded : ∀ p ∈ s.penalties, p.Recorded reviewer l

theorem Store.Keeps.empty (reviewer : String) : Store.Keeps {} reviewer {} where
  offenses := rfl
  penalties := rfl
  reviewers := by simp
  recorded := by simp

section Keeps

variable {s : Store} {reviewer : String} {l : Ledger} (h : s.Keeps reviewer l)

include h

theorem reviewer_of_record {record : OffenseRecord} (hrecord : record ∈ s.offenses) :
    record.reviewerAddress = reviewer := by
  refine h.reviewers record.toOffense ?_
  rw [← h.offenses]
  exact List.mem_map_of_mem hrecord

theorem offensesOf_eq : s.offensesOf reviewer = s.offenses :=
  List.filter_eq_self.mpr fun _ hrecord => decide_eq_true (reviewer_of_record h hrecord)

theorem offenseCount_eq (type : OffenseType) :
    s.offenseCount reviewer type = rankOf l.seen type := by
  rw [Store.offenseCount, offensesOf_eq h, rankOf, ← h.offenses, List.countP_map]
  rfl

theorem mem_ids_iff {i : String} : i ∈ l.seen.map Offense.offenseId ↔
    ∃ record ∈ s.offenses, record.offenseId = i := by
  rw [← h.offenses, List.map_map, List.mem_map]
  rfl

/-! ## The effective penalty -/

theorem map_activePenalties (epoch : Int) :
    (s.activePenalties reviewer epoch).map Penalty.window = active l.windows epoch := by
  rw [active, ← h.penalties, List.filter_map, Store.activePenalties]
  congr 1
  refine List.filter_congr fun p hp => ?_
  have hrecorded := h.recorded p hp
  rw [decide_eq_true hrecorded.reviewer, decide_eq_true hrecorded.rules, Bool.true_and,
    Bool.true_and]
  rfl

theorem map_stop_activePenalties (epoch : Int) :
    (s.activePenalties reviewer epoch).map (·.penaltyEndEpoch) =
      (active l.windows epoch).map Window.stop := by
  rw [← map_activePenalties h, List.map_map]
  rfl

theorem any_activePenalties (epoch : Int) :
    (s.activePenalties reviewer epoch).any (·.penaltyStatus = .suspended) =
      (active l.windows epoch).any Window.severe := by
  rw [← map_activePenalties h, List.any_map]
  rfl

/-- There is a penalty to choose when there is one in force. -/
theorem exists_chosen {epoch : Int} {active : List Penalty}
    (hactive : s.activePenalties reviewer epoch = active) (hne : active ≠ []) :
    ∃ chosen, (active.filter (·.penaltyStatus =
      statusOf (active.any (·.penaltyStatus = .suspended)))).argmax Store.penaltyKey =
        some chosen := by
  refine Option.ne_none_iff_exists'.mp fun hnone => ?_
  have hempty := List.filter_eq_nil_iff.mp (List.argmax_eq_none.mp hnone)
  have hstatus : ∀ p ∈ active, p.penaltyStatus = .cooldown ∨ p.penaltyStatus = .suspended :=
    fun p hp => (h.recorded p (List.mem_of_mem_filter (hactive ▸ hp))).status
  by_cases hany : active.any (·.penaltyStatus = .suspended) = true
  · obtain ⟨p, hp, hsuspended⟩ := List.any_eq_true.mp hany
    refine hempty p hp ?_
    rw [hany]
    exact hsuspended
  · obtain ⟨p, hp⟩ := List.exists_mem_of_ne_nil _ hne
    refine hempty p hp (decide_eq_true ?_)
    rw [statusOf, if_neg hany]
    refine (hstatus p hp).resolve_right fun hsuspended => hany ?_
    exact List.any_eq_true.mpr ⟨p, hp, decide_eq_true hsuspended⟩

/-- The effective penalty is the effect of the windows. -/
theorem penaltyAt_eq (epoch : Int) : penaltyAt s reviewer epoch =
    (effect l.windows epoch).map fun e => (statusOf e.1, e.2) := by
  rw [effect, ← map_stop_activePenalties h, ← any_activePenalties h, Option.map_map]
  rw [penaltyAt, Store.effectivePenalty]
  generalize hactive : s.activePenalties reviewer epoch = active
  by_cases hne : active = []
  · rw [hne]
    rfl
  · obtain ⟨chosen, hchosen⟩ := exists_chosen h hactive hne
    obtain ⟨last, hlast⟩ : ∃ last, (active.map (·.penaltyEndEpoch)).max? = some last :=
      Option.ne_none_iff_exists'.mp fun hnone =>
        hne (List.map_eq_nil_iff.mp (List.max?_eq_none_iff.mp hnone))
    rw [statusOf] at hchosen
    simp only [hchosen, hlast, Option.bind_eq_bind, Option.bind_some, Option.map_some]
    rfl

theorem status_penaltyAt_isSuspended (epoch : Int) :
    (s.effectivePenalty reviewer epoch).map (·.effectiveStatus) = some .suspended ↔
      SevereAt l.windows epoch := by
  have heq := congrArg (Option.map Prod.fst) (penaltyAt_eq h epoch)
  rw [penaltyAt, Option.map_map, Option.map_map] at heq
  rw [show (s.effectivePenalty reviewer epoch).map (·.effectiveStatus) = _ from heq]
  constructor
  · intro hsome
    obtain ⟨⟨severe, stop⟩, heffect, hstatus⟩ := Option.map_eq_some_iff.mp hsome
    refine (effect_eq_some.mp heffect).1.mp ?_
    cases severe with
    | true => rfl
    | false => cases hstatus
  · intro hsevere
    cases heffect : effect l.windows epoch with
    | none =>
      obtain ⟨w, hw, hactive, -⟩ := hsevere
      exact absurd hactive (effect_eq_none.mp heffect w hw)
    | some found =>
      have htrue := (effect_eq_some.mp heffect).1.mpr hsevere
      simp [statusOf, htrue]

/-- It is the status that a reference sees. -/
theorem activeStatus_eq (votes : List DurableVote) (transitions : List ReviewerTransition)
    (epoch : Int) :
    activeStatus ⟨votes, s.penalties.map Penalty.toReviewerPenalty, transitions⟩ reviewer epoch
      reputationRuleVersion = (penaltyAt s reviewer epoch).map Prod.fst := by
  have hactive : ZoidbergChain.activePenalties
      ⟨votes, s.penalties.map Penalty.toReviewerPenalty, transitions⟩ reviewer epoch
        reputationRuleVersion =
      (s.activePenalties reviewer epoch).map Penalty.toReviewerPenalty := by
    rw [ZoidbergChain.activePenalties, if_neg (fun hne => hne rfl),
      ReviewerStore.listReviewerPenalties, List.filter_filter, List.filter_map]
    congr 1
    refine List.filter_congr fun p _ => ?_
    exact Bool.and_comm _ _ |>.trans rfl
  rw [penaltyAt_eq h, effect, ← map_stop_activePenalties h, ← any_activePenalties h,
    Option.map_map, Option.map_map]
  unfold activeStatus
  rw [hactive]
  generalize s.activePenalties reviewer epoch = active
  by_cases hne : active = []
  · rw [hne]
    rfl
  · obtain ⟨last, hlast⟩ : ∃ last, (active.map (·.penaltyEndEpoch)).max? = some last :=
      Option.ne_none_iff_exists'.mp fun hnone =>
        hne (List.map_eq_nil_iff.mp (List.max?_eq_none_iff.mp hnone))
    rw [hlast]
    show (if active.map Penalty.toReviewerPenalty = [] then none
      else if (active.map Penalty.toReviewerPenalty).any _ then _ else _) = some (statusOf _)
    rw [if_neg (mt List.map_eq_nil_iff.mp hne), List.any_map, statusOf]
    exact (apply_ite some _ _ _).symm

/-! ## One arrival -/

/-- The penalty of an escalating offense that has not been seen. -/
theorem recordReviewerPenalty_penaltyOf {o : Offense} (htype : o.offenseType.isEscalating = true)
    (hnew : o.offenseId ∉ l.seen.map Offense.offenseId) (stateBefore : ReviewerStatus) {rank : Nat}
    (hrank : 1 ≤ rank) (offenses : List OffenseRecord) :
    let penalty := penaltyOf o stateBefore (schedule o.offenseType rank).1
      (schedule o.offenseType rank).2 (o.reviewEpoch + (schedule o.offenseType rank).2)
    recordReviewerPenalty ⟨offenses, s.penalties⟩ penalty =
      .ok ⟨offenses, s.penalties ++ [penalty]⟩ := by
  have hlt : o.reviewEpoch < o.reviewEpoch + (schedule o.offenseType rank).2 :=
    (window_bounds htype hrank).1
  refine recordReviewerPenalty_eq ?_ ⟨?_, hlt⟩ fun p hp => ?_
  · exact schedule_status htype hrank
  · show 0 < (schedule o.offenseType rank).2
    omega
  · have hrecorded := h.recorded p hp
    have hne : p.offenseId ≠ o.offenseId := fun heq => hnew (heq ▸ hrecorded.offense)
    exact ⟨hrecorded.identity ▸ hne, hne⟩

/-- The tables after one arrival keep the ledger with it. -/
theorem keeps_apply {o : Offense} (ho : o.reviewerAddress = reviewer)
    (htype : o.offenseType.isEscalating = true) (stateBefore : ReviewerStatus) :
    ∃ s' outcome, applyVerifiedOffense s o stateBefore = .ok (s', outcome) ∧
      s'.Keeps reviewer (l.note o) := by
  by_cases hmem : o.offenseId ∈ l.seen.map Offense.offenseId
  · -- a replay
    rw [note_of_mem hmem]
    obtain ⟨record, hrecord, hid⟩ := (mem_ids_iff h).mp hmem
    obtain ⟨existing, hexisting⟩ : ∃ existing,
        s.offenses.find? (·.offenseId = o.offenseId) = some existing :=
      Option.isSome_iff_exists.mp (List.find?_isSome.mpr ⟨record, hrecord, decide_eq_true hid⟩)
    rw [applyVerifiedOffense, ho, offensesOf_eq h, hexisting]
    exact ⟨s, _, rfl, h⟩
  · have hnew : ∀ record ∈ s.offenses, ¬record.offenseId = o.offenseId :=
      fun record hrecord hid => hmem ((mem_ids_iff h).mpr ⟨record, hrecord, hid⟩)
    have hfind : (s.offensesOf o.reviewerAddress).find? (·.offenseId = o.offenseId) = none := by
      rw [ho, offensesOf_eq h, List.find?_eq_none]
      exact fun record hrecord hid => hnew record hrecord (of_decide_eq_true hid)
    have hany : s.offenses.any (·.offenseId = o.offenseId) = false :=
      List.any_eq_false.mpr fun record hrecord hid => hnew record hrecord (of_decide_eq_true hid)
    have hreviewers : ∀ o' ∈ l.seen ++ [o], o'.reviewerAddress = reviewer := by
      intro o' ho'
      rcases List.mem_append.mp ho' with ho' | ho'
      · exact h.reviewers o' ho'
      · rw [List.mem_singleton.mp ho']
        exact ho
    have hoffenses : ∀ record : OffenseRecord, record.toOffense = o →
        (s.offenses ++ [record]).map OffenseRecord.toOffense = l.seen ++ [o] := by
      intro record hrecord
      rw [List.map_append, h.offenses, List.map_singleton, hrecord]
    have hrecorded : ∀ windows, ∀ p ∈ s.penalties,
        p.Recorded reviewer { seen := l.seen ++ [o], windows := windows } := by
      intro windows p hp
      refine { h.recorded p hp with offense := ?_ }
      rw [List.map_append]
      exact List.mem_append_left _ (h.recorded p hp).offense
    have hrank := offenseCount_eq h o.offenseType
    rw [applyVerifiedOffense, hfind]
    dsimp only
    rw [verdict_of_escalating htype, ho, hrank]
    by_cases hs : SevereAt l.windows o.reviewEpoch
    · rw [note_of_severe hmem hs]
      dsimp only
      rw [if_pos ((status_penaltyAt_isSuspended h _).mpr hs), ok_bind, hany]
      refine ⟨_, _, rfl, hoffenses _ rfl, h.penalties, hreviewers, hrecorded _⟩
    · rw [note_of_fresh hmem hs]
      dsimp only
      rw [if_neg (mt (status_penaltyAt_isSuspended h _).mp hs), ok_bind, hany]
      dsimp only
      rw [if_neg Bool.false_ne_true,
        recordReviewerPenalty_penaltyOf h htype hmem stateBefore (Nat.le_add_left 1 _)]
      refine ⟨_, _, rfl, hoffenses _ rfl, ?_, hreviewers, ?_⟩
      · rw [List.map_append, h.penalties]
        rfl
      · intro p hp
        rcases List.mem_append.mp hp with hp | hp
        · exact hrecorded _ p hp
        · rw [List.mem_singleton.mp hp]
          refine ⟨ho, rfl, ?_, rfl, by simp [penaltyOf]⟩
          exact schedule_status htype (Nat.le_add_left 1 _)

end Keeps

theorem keeps_deliver {reviewer : String} {arrivals : List (Offense × ReviewerStatus)}
    (h : ∀ arrival ∈ arrivals, arrival.1.reviewerAddress = reviewer ∧
      arrival.1.offenseType.isEscalating = true) :
    ∃ s, deliver {} arrivals = .ok s ∧ s.Keeps reviewer (ledger (arrivals.map Prod.fst)) := by
  induction arrivals using List.reverseRecOn with
  | nil => exact ⟨{}, rfl, .empty reviewer⟩
  | append_singleton arrivals arrival ih =>
    obtain ⟨s, hs, hkeeps⟩ := ih fun a ha => h a (List.mem_append_left _ ha)
    obtain ⟨hreviewer, htype⟩ := h arrival (by simp)
    obtain ⟨s', outcome, happly, hkeeps'⟩ := keeps_apply hkeeps hreviewer htype arrival.2
    refine ⟨s', ?_, ?_⟩
    · rw [deliver, List.foldlM_append, show arrivals.foldlM _ ({} : Store) = _ from hs]
      show (do return (← applyVerifiedOffense s arrival.1 arrival.2).1 : Py Store) >>= _ = _
      rw [happly]
      rfl
    · rw [List.map_append, List.map_singleton, ledger_concat]
      exact hkeeps'

/-- The order of the arrivals makes no difference exactly for settled offenses. -/
theorem orderIndependent_iff {reviewer : String} {offenses : List Offense}
    (h : Incidents reviewer offenses) :
    OrderIndependent reviewer offenses ↔ Settled offenses := by
  have hrun : ∀ arrivals : List (Offense × ReviewerStatus),
      Delivers offenses (arrivals.map Prod.fst) →
      ∃ s, deliver {} arrivals = .ok s ∧ s.Keeps reviewer (ledger (arrivals.map Prod.fst)) := by
    intro arrivals hdelivers
    refine keeps_deliver fun arrival harrival => ?_
    have hmem := (hdelivers arrival.1).mp (List.mem_map_of_mem harrival)
    exact ⟨h.reviewer _ hmem, h.escalating _ hmem⟩
  rw [← settled_iff h]
  constructor
  · intro hindependent arrivals arrivals' hdelivers hdelivers' epoch
    -- any state before will do
    have hfst : ∀ arrivals : List Offense,
        (arrivals.map fun o => (o, ReviewerStatus.new)).map Prod.fst = arrivals := by
      intro arrivals
      rw [List.map_map]
      exact List.map_id _
    obtain ⟨s, s', hs, hs', hsame⟩ :=
      hindependent (arrivals.map (·, .new)) (arrivals'.map (·, .new))
        ((hfst arrivals).symm ▸ hdelivers) ((hfst arrivals').symm ▸ hdelivers')
    obtain ⟨_, heq, hkeeps⟩ := hrun _ ((hfst arrivals).symm ▸ hdelivers)
    obtain ⟨_, heq', hkeeps'⟩ := hrun _ ((hfst arrivals').symm ▸ hdelivers')
    obtain rfl := Except.ok.inj (hs.symm.trans heq)
    obtain rfl := Except.ok.inj (hs'.symm.trans heq')
    rw [hfst] at hkeeps hkeeps'
    have heffect := hsame epoch
    rw [penaltyAt_eq hkeeps, penaltyAt_eq hkeeps'] at heffect
    exact Option.map_injective statusOf_prod_injective heffect
  · intro hsame arrivals arrivals' hdelivers hdelivers'
    obtain ⟨s, hs, hkeeps⟩ := hrun arrivals hdelivers
    obtain ⟨s', hs', hkeeps'⟩ := hrun arrivals' hdelivers'
    refine ⟨s, s', hs, hs', fun epoch => ?_⟩
    rw [penaltyAt_eq hkeeps, penaltyAt_eq hkeeps', hsame _ _ hdelivers hdelivers' epoch]

/-! ## Two equivocations -/

/-- An equivocation. -/
def sampleEquivocation (offenseId : String) (reviewEpoch : Int) : Offense where
  offenseId := offenseId
  reviewerAddress := "0x1111111111111111111111111111111111111111"
  offenseType := .signedVoteEquivocation
  reviewEpoch := reviewEpoch
  referenceFinalizedHeight := 10 * reviewEpoch
  referenceFinalizedBlockHash := "aa"

/-- Two in one epoch have the same penalties in every order. -/
theorem orderIndependent_sample :
    OrderIndependent "0x1111111111111111111111111111111111111111"
      [sampleEquivocation "0a" 4, sampleEquivocation "0b" 4] := by
  refine (orderIndependent_iff ⟨by decide, by decide, by decide⟩).mpr ?_
  have hnone : ∀ m, ¬Suspends [sampleEquivocation "0a" 4, sampleEquivocation "0b" 4] m := by
    rintro m ⟨type, hthree⟩
    have hle : (fixedAt [sampleEquivocation "0a" 4, sampleEquivocation "0b" 4] type m).length ≤
        steps [sampleEquivocation "0a" 4, sampleEquivocation "0b" 4] type :=
      List.length_filter_le ..
    have htwo : steps [sampleEquivocation "0a" 4, sampleEquivocation "0b" 4] type ≤ 2 := by
      cases type <;> decide
    omega
  refine ⟨fun m _ hm => absurd hm (hnone m), fun o ho => ?_⟩
  refine ⟨_, .cooldown ho ?_ ?_ ?_, .refl _⟩
  · revert o
    decide
  · have hepoch : ∀ a ∈ [sampleEquivocation "0a" 4, sampleEquivocation "0b" 4],
        a.reviewEpoch = 4 := by decide
    exact fun a ha b hb _ _ => (hepoch a ha).trans (hepoch b hb).symm
  · rintro ⟨m, hm, -⟩
    exact hnone m hm

/-- The one of epoch 0, after the one of epoch 100, starts a cooldown of ten epochs and not of
three. -/
theorem not_orderIndependent : ¬∀ (reviewer : String) (offenses : List Offense),
    Incidents reviewer offenses → OrderIndependent reviewer offenses := by
  intro hall
  have hindependent := hall "0x1111111111111111111111111111111111111111"
    [sampleEquivocation "0a" 0, sampleEquivocation "0b" 100] ⟨by decide, by decide, by decide⟩
  obtain ⟨s, s', hs, hs', hsame⟩ := hindependent
    [(sampleEquivocation "0a" 0, .new), (sampleEquivocation "0b" 100, .new)]
    [(sampleEquivocation "0b" 100, .new), (sampleEquivocation "0a" 0, .new)]
    (by simp [Delivers]) (by simp [Delivers, or_comm])
  have hfirst : (penaltyAt · "0x1111111111111111111111111111111111111111" 5) <$> deliver {}
      [(sampleEquivocation "0a" 0, .new), (sampleEquivocation "0b" 100, .new)] = .ok none := by
    decide +kernel
  have hsecond : (penaltyAt · "0x1111111111111111111111111111111111111111" 5) <$> deliver {}
      [(sampleEquivocation "0b" 100, .new), (sampleEquivocation "0a" 0, .new)] =
        .ok (some (.cooldown, 10)) := by
    decide +kernel
  rw [hs] at hfirst
  rw [hs'] at hsecond
  cases (Except.ok.inj hfirst).symm.trans ((hsame 5).trans (Except.ok.inj hsecond))

end Reputation

end ZoidbergChain
