import ZoidbergChain.PagedReview.Index

/-!
# A late close never changes a review

The page closes a session at some height after its deadline, while votes keep arriving. Here
the boundaries of a run are the heights with their lower bounds, and every step is given the
complete list of the earlier ones.

- `Chronicle`: the boundaries grow strictly, up to those of the state.
- `Timed` is what the boundaries say of a session: its votes came before the first height that
  reached the deadline, and its close names that height.
- `Frozen` is what a step may do to a session whose deadline is reached.
- `freezeLaw_of_run`: in every run the votes of a session are frozen once the lower bound has
  reached its deadline, and its close is that of the first such height.
-/

namespace ZoidbergChain

open Python

namespace PagedReview

variable {H : Hashing} {state out last : State} {args : Args} {report : Report}
  {history history' : List (Int × Int)}

/-! ## Boundaries -/

/-- An accepted step that is given all earlier boundaries. -/
def Tick (H : Hashing) (a b : State × List (Int × Int)) : Prop :=
  ∃ args report, args.boundaries = a.2 ∧ step H a.1 args = .ok (b.1, report) ∧
    b.2 = a.2 ++ [report.boundary]

/-- `Run H a b`: such steps lead from `a` to `b`. -/
def Run (H : Hashing) : State × List (Int × Int) → State × List (Int × Int) → Prop :=
  Relation.ReflTransGen (Tick H)

/-- The heights and the lower bounds of a history grow strictly, up to the last ones. -/
structure Chronicle (history : List (Int × Int)) (height lower : Int) : Prop where
  grows : history.Pairwise fun a b => a.1 < b.1 ∧ a.2 < b.2
  last : ∀ b ∈ history, b.1 ≤ height ∧ b.2 ≤ lower

/-- `f` is the first height of the history whose lower bound has reached `d`. -/
def FirstReaching (history : List (Int × Int)) (d f : Int) : Prop :=
  ∃ lower, (f, lower) ∈ history ∧ d ≤ lower ∧ ∀ b ∈ history, b.1 < f → b.2 < d

theorem Chronicle.extend {height lower height' lower' : Int} (h : Chronicle history height lower)
    (hheight : height < height') (hlower : lower < lower') :
    Chronicle (history ++ [(height', lower')]) height' lower' := by
  constructor
  · rw [List.pairwise_append]
    refine ⟨h.grows, List.pairwise_singleton _ _, fun a ha b hb => ?_⟩
    obtain rfl := List.mem_singleton.mp hb
    obtain ⟨h₁, h₂⟩ := h.last a ha
    exact ⟨by omega, by omega⟩
  · intro b hb
    obtain hb | hb := List.mem_append.mp hb
    · obtain ⟨h₁, h₂⟩ := h.last b hb
      exact ⟨by omega, by omega⟩
    · obtain rfl := List.mem_singleton.mp hb
      exact ⟨le_refl _, le_refl _⟩

/-- The search of the source finds the first height. -/
theorem freezeHeight_first {d f height lower : Int} (h : Chronicle history height lower)
    (hok : freezeHeight d history = .ok f) : FirstReaching history d f := by
  unfold freezeHeight at hok
  split at hok
  · next b hfind =>
    obtain rfl := Except.ok.inj hok
    obtain ⟨hreach, as, bs, rfl, hearlier⟩ := List.find?_eq_some_iff_append.mp hfind
    refine ⟨b.2, by simp, by simpa using hreach, fun a ha hlt => ?_⟩
    obtain ha | ha := List.mem_append.mp ha
    · simpa using hearlier a ha
    · -- behind the found boundary the heights are greater
      obtain ⟨-, hgrows, -⟩ := List.pairwise_append.mp h.grows
      obtain rfl | ha := List.mem_cons.mp ha
      · omega
      · have := (List.pairwise_cons.mp hgrows).1 a ha
        omega
  · cases hok

/-- A later boundary does not change the first height. -/
theorem FirstReaching.extend {d f height lower : Int} {b : Int × Int}
    (h : FirstReaching history d f) (hchronicle : Chronicle history height lower)
    (hlater : height < b.1) : FirstReaching (history ++ [b]) d f := by
  obtain ⟨reached, hmem, hreach, hearlier⟩ := h
  refine ⟨reached, List.mem_append_left _ hmem, hreach, fun a ha hlt => ?_⟩
  obtain ha | ha := List.mem_append.mp ha
  · exact hearlier a ha hlt
  · obtain rfl := List.mem_singleton.mp ha
    have := (hchronicle.last _ hmem).1
    simp only at this
    omega

/-! ## What the boundaries say of a session -/

/-- The admitted votes of a session. -/
def Session.votes (s : Session) : List Slot := s.slots.values

/-- The close of a session is that of the first height that reached its deadline, and its
votes came strictly between its start and that height. -/
structure ClosedOnTime (history : List (Int × Int)) (s : Session) (row : CloseRow) : Prop where
  started : ∃ started, s.started = some started ∧
    ∀ slot ∈ s.votes, started < slot.height ∧ slot.height < row.freezeHeight
  deadline : ∃ d, s.deadline = some d ∧ FirstReaching history d row.freezeHeight ∧
    row = closeRow s d row.freezeHeight

/-- A session at a height: before its start it has no votes, its votes came while the lower
bound had not reached the deadline, and its close is that of its first height. -/
structure Timed (history : List (Int × Int)) (height : Int) (s : Session) : Prop where
  waiting : s.deadline = none → s.slots = [] ∧ s.started = none
  live : ∀ d, s.deadline = some d → ∃ started, s.started = some started ∧ started ≤ height ∧
    ∀ slot ∈ s.votes, started < slot.height ∧ slot.height ≤ height ∧
      ∀ b ∈ history, b.1 ≤ slot.height → b.2 < d
  closed : ∀ row, s.close = some row → ∃ d, s.deadline = some d ∧
    FirstReaching history d row.freezeHeight ∧ row = closeRow s d row.freezeHeight

/-- Every session is timed. -/
def AllTimed (history : List (Int × Int)) (height : Int) (sessions : Table String Session) : Prop :=
  ∀ sid s, sessions.get? sid = some s → Timed history height s

theorem Timed.extend {height lower : Int} {b : Int × Int} {s : Session}
    (h : Timed history height s) (hchronicle : Chronicle history height lower)
    (hlater : height < b.1) : Timed (history ++ [b]) b.1 s := by
  refine ⟨h.waiting, fun d hd => ?_, fun row hrow => ?_⟩
  · obtain ⟨started, hstarted, hle, hvotes⟩ := h.live d hd
    refine ⟨started, hstarted, by omega, fun slot hslot => ?_⟩
    obtain ⟨hafter, hbefore, hbounds⟩ := hvotes slot hslot
    refine ⟨hafter, by omega, fun a ha hle => ?_⟩
    obtain ha | ha := List.mem_append.mp ha
    · exact hbounds a ha hle
    · obtain rfl := List.mem_singleton.mp ha
      omega
  · obtain ⟨d, hd, hfirst, hrow'⟩ := h.closed row hrow
    exact ⟨d, hd, hfirst.extend hchronicle hlater, hrow'⟩

/-- The votes of a closed session came before its freeze height. -/
theorem Timed.closedOnTime {height : Int} {s : Session} {row : CloseRow}
    (h : Timed history height s) (hrow : s.close = some row) : ClosedOnTime history s row := by
  obtain ⟨d, hd, hfirst, hrow'⟩ := h.closed row hrow
  obtain ⟨started, hstarted, -, hvotes⟩ := h.live d hd
  refine ⟨⟨started, hstarted, fun slot hslot => ?_⟩, d, hd, hfirst, hrow'⟩
  obtain ⟨hafter, -, hbounds⟩ := hvotes slot hslot
  refine ⟨hafter, ?_⟩
  -- a vote at the freeze height would have seen the lower bound at the deadline
  by_contra hnot
  obtain ⟨reached, hmem, hreach, -⟩ := hfirst
  have := hbounds _ hmem (by omega)
  simp only at this
  omega

theorem AllTimed.set {height : Int} {sessions : Table String Session} {sid : String}
    {s' : Session} (h : AllTimed history height sessions) (hs' : Timed history height s') :
    AllTimed history height (sessions.set sid s') := by
  intro k s hs
  obtain ⟨rfl, rfl⟩ | ⟨-, hs⟩ := Table.get?_set_eq_some.mp hs
  · exact hs'
  · exact h k s hs

/-! ## What a step does to a session whose deadline is reached -/

/-- The votes of a session whose deadline the lower bound has reached stay as they are. -/
def Frozen (lower : Int) (s s' : Session) : Prop :=
  s.expired lower → s'.deadline = s.deadline ∧ s'.started = s.started ∧ s'.count = s.count ∧
    s'.fold = s.fold ∧ s'.counts = s.counts ∧ s'.slots = s.slots

theorem Frozen.refl (lower : Int) (s : Session) : Frozen lower s s :=
  fun _ => ⟨rfl, rfl, rfl, rfl, rfl, rfl⟩

theorem Frozen.trans {lower : Int} {s s' s'' : Session} (h : Frozen lower s s')
    (h' : Frozen lower s' s'') : Frozen lower s s'' := by
  intro hexpired
  obtain ⟨h₁, h₂, h₃, h₄, h₅, h₆⟩ := h hexpired
  have hexpired' : s'.expired lower := by
    unfold Session.expired
    rwa [h₁]
  obtain ⟨h₁', h₂', h₃', h₄', h₅', h₆'⟩ := h' hexpired'
  exact ⟨h₁'.trans h₁, h₂'.trans h₂, h₃'.trans h₃, h₄'.trans h₄, h₅'.trans h₅, h₆'.trans h₆⟩

theorem Session.expired_mono {lower lower' : Int} {s : Session} (h : s.expired lower)
    (hle : lower ≤ lower') : s.expired lower' := by
  obtain ⟨d, hd, hreach⟩ := h
  exact ⟨d, hd, hreach.trans hle⟩

/-- One session is replaced by one that a reached deadline allows. -/
theorem Carried.set_frozen {lower : Int} {t : Table String Session} {sid : String} {s s' : Session}
    (hs : t.get? sid = some s) (hfrozen : Frozen lower s s') :
    Carried (Frozen lower) t (t.set sid s') := by
  refine Carried.set (Frozen.refl lower) fun k hk => ?_
  obtain rfl := Option.some.inj (hk.symm.trans hs)
  exact hfrozen

/-! ## The loops of a step -/

theorem closePage_timed {h height lower : Int} {sids : List String} {index : Nat}
    {rows : List CloseRow} (hchronicle : Chronicle history h lower)
    (hok : closePage history h out sids index = .ok (last, rows))
    (htimed : AllTimed history height out.sessions) (bound : Int) :
    AllTimed history height last.sessions ∧
      Carried (Frozen bound) out.sessions last.sessions := by
  refine closePage_rule (P := fun _ next => AllTimed history height next.sessions ∧
    Carried (Frozen bound) out.sessions next.sessions) ?_ hok
    ⟨htimed, Carried.refl (Frozen.refl bound) _⟩
  rintro next sid rest s d f index ⟨htimed, hcarried⟩ hs hd hf -
  have hold := htimed sid s hs
  refine ⟨htimed.set ⟨hold.waiting, hold.live, fun row hrow => ?_⟩,
    hcarried.trans (Carried.set_frozen hs fun _ => ⟨rfl, rfl, rfl, rfl, rfl, rfl⟩) Frozen.trans⟩
  obtain rfl := Option.some.inj hrow
  exact ⟨d, hd, freezeHeight_first hchronicle hf, rfl⟩

theorem startPending_timed {m h height bound : Int} {sids : List String}
    (hok : startPending m h out sids = .ok last)
    (hidx : Indexed sids out.expiry height out.sessions)
    (htimed : AllTimed history h out.sessions) :
    AllTimed history h last.sessions ∧ Carried (Frozen bound) out.sessions last.sessions := by
  have hall := startPending_rule (P := fun rest next =>
    Indexed rest next.expiry height next.sessions ∧ AllTimed history h next.sessions ∧
    Carried (Frozen bound) out.sessions next.sessions) ?_ hok
    ⟨hidx, htimed, Carried.refl (Frozen.refl bound) _⟩
  · exact hall.2
  rintro next sid rest s ⟨hidx, htimed, hcarried⟩ hs
  have hold := htimed sid s hs
  -- a waiting session has no votes and no close
  have hplaced := hidx.placed sid s hs
  have hunset : s.deadline = none :=
    hplaced.pending.mp (by simp [hidx.named sid s hs])
  obtain ⟨hslots, -⟩ := hold.waiting hunset
  refine ⟨hidx.start hs rfl rfl rfl,
    htimed.set ⟨fun hset => ?_, fun d hd => ?_, fun row hrow => ?_⟩,
    hcarried.trans (Carried.set_frozen hs fun hexpired => ?_) Frozen.trans⟩
  · cases hset
  · refine ⟨h, rfl, le_refl _, fun slot hslot => ?_⟩
    simp [Session.votes, hslots, Table.values] at hslot
  · have hclose : s.close = some row := hrow
    rw [(hplaced.unset hunset).1] at hclose
    cases hclose
  · obtain ⟨d, hd, -⟩ := hexpired
    rw [hunset] at hd
    cases hd

/-- A vote at the last boundary finds the lower bound below the deadline. -/
theorem Admission.timed {v : VoteFact} {h bound : Int} {index : Nat}
    (hvote : Admission out v h index last) (hchronicle : Chronicle history h out.lower)
    (hbound : bound ≤ out.lower) (htimed : AllTimed history h out.sessions) :
    AllTimed history h last.sessions ∧ Carried (Frozen bound) out.sessions last.sessions := by
  cases hvote with
  | refused => exact ⟨htimed, Carried.refl (Frozen.refl bound) _⟩
  | conflict s conflicts hs =>
    have hold := htimed v.sid s hs
    exact ⟨htimed.set ⟨hold.waiting, hold.live, hold.closed⟩,
      Carried.set_frozen hs fun _ => ⟨rfl, rfl, rfl, rfl, rfl, rfl⟩⟩
  | admitted s d c started status fold charged hs hd hc hstarted hheight hopen hslot hstatus hvoter
      hcharged =>
    have hsessions : charged.sessions = out.sessions := by
      obtain ⟨rfl, -⟩ | ⟨rfl, -⟩ := hcharged <;> rfl
    have hold := htimed v.sid s hs
    show AllTimed history h (charged.sessions.set v.sid _) ∧
      Carried (Frozen bound) out.sessions (charged.sessions.set v.sid _)
    rw [hsessions]
    -- the deadline of the session is ahead of every lower bound so far
    have hahead : ∀ deadline, s.deadline = some deadline → out.lower < deadline := by
      intro deadline hdeadline
      by_contra hnot
      exact hopen ⟨deadline, hdeadline, by omega⟩
    refine ⟨htimed.set ⟨fun hunset => ?_, fun deadline hdeadline => ?_, fun row hrow => ?_⟩,
      Carried.set_frozen hs fun hexpired => absurd (Session.expired_mono hexpired hbound) hopen⟩
    · -- a session without a deadline has not started
      rw [(hold.waiting hunset).2] at hstarted
      cases hstarted
    · obtain ⟨started', hstarted', hle, hvotes⟩ := hold.live deadline hdeadline
      obtain rfl : started' = started := Option.some.inj (hstarted'.symm.trans hstarted)
      refine ⟨started', hstarted, hle, fun slot hmem => ?_⟩
      obtain ⟨⟨key, slot⟩, hentry, rfl⟩ := List.mem_map.mp hmem
      obtain heq | hentry := Table.mem_set hentry
      · obtain ⟨-, rfl⟩ := Prod.mk.inj heq
        refine ⟨hheight, le_refl _, fun b hb _ => ?_⟩
        have h₁ := (hchronicle.last b hb).2
        have h₂ := hahead deadline hdeadline
        omega
      · exact hvotes slot (List.mem_map_of_mem (f := Prod.snd) hentry)
    · -- a closed session has a reached deadline
      obtain ⟨deadline, hdeadline, ⟨lower, hmem, hreach, -⟩, -⟩ := hold.closed row hrow
      have h₁ := (hchronicle.last _ hmem).2
      have h₂ := hahead deadline hdeadline
      simp only at h₁
      omega

theorem opens_timed {h bound : Int} {opens : List OpenFact}
    (hok : opens.foldlM (openOne H state) out = .ok last)
    (htimed : AllTimed history h out.sessions) :
    AllTimed history h last.sessions ∧ Carried (Frozen bound) out.sessions last.sessions := by
  refine opens_rule (P := fun _ next => AllTimed history h next.sessions ∧
    Carried (Frozen bound) out.sessions next.sessions) ?_ hok
    ⟨htimed, Carried.refl (Frozen.refl bound) _⟩
  rintro next o rest fold ⟨htimed, hcarried⟩ hnew
  refine ⟨htimed.set ⟨fun _ => ⟨rfl, rfl⟩, fun d hd => ?_, fun row hrow => ?_⟩,
    hcarried.trans (Carried.set (Frozen.refl bound) fun s hs => ?_) Frozen.trans⟩
  · cases hd
  · cases hrow
  · rw [hnew] at hs
    cases hs

theorem admitAll_timed {h bound : Int} {votes : List VoteFact} {index : Nat}
    {observations : List String} (hok : admitAll H h out votes index = .ok (last, observations))
    (hchronicle : Chronicle history h out.lower) (hbound : bound ≤ out.lower)
    (htimed : AllTimed history h out.sessions) :
    AllTimed history h last.sessions ∧ Carried (Frozen bound) out.sessions last.sessions := by
  have hall := admitAll_rule (P := fun next => next.lower = out.lower ∧
    AllTimed history h next.sessions ∧ Carried (Frozen bound) out.sessions next.sessions) ?_ hok
    ⟨rfl, htimed, Carried.refl (Frozen.refl bound) _⟩
  · exact hall.2
  rintro mid v index next ⟨hlower, htimed, hcarried⟩ hvote
  obtain ⟨htimed', hcarried'⟩ :=
    hvote.timed (hlower ▸ hchronicle) (hlower ▸ hbound) htimed
  exact ⟨hvote.clock.lower.trans hlower, htimed', hcarried.trans hcarried' Frozen.trans⟩

/-! ## Runs -/

/-- What holds of a run up to a state and its history. -/
structure Timely (state : State) (history : List (Int × Int)) : Prop where
  indexed : Indexed state.pending state.expiry state.height state.sessions
  chronicle : Chronicle history state.height state.lower
  timed : AllTimed history state.height state.sessions
  median : state.lower ≤ state.median

/-- The four loops of a step, at its boundary. -/
theorem step_timed {bound : Int}
    (hidx : Indexed state.pending state.expiry state.height state.sessions)
    (hok : step H state args = .ok (out, report))
    (hhistory : history = args.boundaries ++ [report.boundary])
    (hchronicle : Chronicle history (state.height + 1) out.lower) (hbound : bound ≤ out.lower)
    (htimed : AllTimed history (state.height + 1) state.sessions) :
    AllTimed history out.height out.sessions ∧
      Carried (Frozen bound) state.sessions out.sessions := by
  have hlower : out.lower = report.boundary.2 := by rw [(step_clock hok).1]
  rw [hlower] at hchronicle hbound
  obtain ⟨m, closed, started, voted, opened, tip, finalized, hst, rfl⟩ := step_eq_ok hok
  have hclose := hst.close
  rw [← hhistory] at hclose
  obtain ⟨htimed₁, hfrozen₁⟩ := closePage_timed hchronicle hclose htimed bound
  rw [page_eq hidx.sorted] at hclose
  have hsplit := List.take_append_drop
    (min pageSize (state.expiry.filter (Entry.due report.boundary.2)).length) state.expiry
  obtain ⟨⟨sessions, rfl, -⟩, hclosed, -, -, -⟩ :=
    closePage_spec (hsplit.symm ▸ hidx) hsplit.symm hclose
  obtain ⟨htimed₂, hfrozen₂⟩ := startPending_timed hst.start hclosed htimed₁
  obtain ⟨htimed₃, hfrozen₃⟩ := admitAll_timed hst.vote hchronicle hbound htimed₂
  obtain ⟨htimed₄, hfrozen₄⟩ := opens_timed hst.opens htimed₃
  exact ⟨htimed₄, ((hfrozen₁.trans hfrozen₂ Frozen.trans).trans hfrozen₃ Frozen.trans).trans
    hfrozen₄ Frozen.trans⟩

theorem Timely.tick (hs : Timely state history) (hboundaries : args.boundaries = history)
    (hok : step H state args = .ok (out, report)) :
    Timely out (history ++ [report.boundary]) ∧ state.lower ≤ out.lower ∧
      Carried (Frozen state.lower) state.sessions out.sessions := by
  obtain ⟨hindexed, -, -⟩ := step_indexed hs.indexed hok
  obtain ⟨hboundary, hheight, hlower, hmedian⟩ := step_clock hok
  have hgrows : state.lower < out.lower := by
    have := hs.median
    omega
  have hlater : state.height < state.height + 1 := by omega
  -- the boundary of the step extends the chronicle
  have hchronicle : Chronicle (history ++ [report.boundary]) (state.height + 1) out.lower := by
    rw [hboundary]
    exact hs.chronicle.extend hlater hgrows
  have htimed : AllTimed (history ++ [report.boundary]) (state.height + 1) state.sessions := by
    intro sid s hget
    rw [hboundary]
    exact (hs.timed sid s hget).extend hs.chronicle hlater
  obtain ⟨htimed', hfrozen⟩ := step_timed hs.indexed hok (by rw [hboundaries]) hchronicle hgrows.le
    htimed
  exact ⟨⟨hindexed, hheight ▸ hchronicle, htimed', by omega⟩, hgrows.le, hfrozen⟩

theorem Timely.init : Timely {} [] := by
  refine ⟨(indexed_of_reachable (H := sampleHashing) .refl).1, ⟨.nil, nofun⟩, ?_, le_refl _⟩
  intro sid s hs
  cases hs

theorem Frozen.of_le {lower lower' : Int} {s s' : Session} (h : Frozen lower' s s')
    (hle : lower ≤ lower') : Frozen lower s s' :=
  fun hexpired => h (Session.expired_mono hexpired hle)

/-- Along a run the sessions whose deadline was reached at its start are frozen. -/
theorem Timely.run {a b : State × List (Int × Int)} (hs : Timely a.1 a.2) (hrun : Run H a b) :
    Timely b.1 b.2 ∧ a.1.lower ≤ b.1.lower ∧
      Carried (Frozen a.1.lower) a.1.sessions b.1.sessions := by
  induction hrun with
  | refl => exact ⟨hs, le_refl _, Carried.refl (Frozen.refl _) _⟩
  | @tail mid b _ htick ih =>
    obtain ⟨hmid, hle, hfrozen⟩ := ih
    obtain ⟨args, report, hboundaries, hok, hhistory⟩ := htick
    obtain ⟨hout, hle', hfrozen'⟩ := hmid.tick hboundaries hok
    rw [← hhistory] at hout
    refine ⟨hout, hle.trans hle', hfrozen.trans (fun sid s hget => ?_) Frozen.trans⟩
    obtain ⟨s', hget', hrel⟩ := hfrozen' sid s hget
    exact ⟨s', hget', hrel.of_le hle⟩

/-- The law of delayed closes, of a state with the complete history behind it. -/
structure FreezeLaw (H : Hashing) (state : State) (history : List (Int × Int)) : Prop where
  /-- Once the lower bound has reached its deadline, a session keeps its votes for ever. -/
  frozen : ∀ last history', Run H (state, history) (last, history') →
    ∀ sid s d, state.sessions.get? sid = some s → s.deadline = some d → d ≤ state.lower →
      ∃ s', last.sessions.get? sid = some s' ∧ s'.count = s.count ∧ s'.fold = s.fold ∧
        s'.counts = s.counts ∧ s'.slots = s.slots
  /-- The closes of the next step are those of the first heights that reached the deadlines. -/
  closes : ∀ args out report, args.boundaries = history → step H state args = .ok (out, report) →
    ∀ row ∈ report.closes, ∃ s, out.sessions.get? row.sid = some s ∧ s.close = some row ∧
      ClosedOnTime (history ++ [report.boundary]) s row
  /-- So is every close of the state. -/
  closed : ∀ sid s row, state.sessions.get? sid = some s → s.close = some row →
    ClosedOnTime history s row

/-- In every run from the empty state, however late the page materializes a close, the votes
of the session are those it had when the lower bound reached its deadline. -/
theorem freezeLaw_of_run (hrun : Run H ({}, []) (state, history)) :
    FreezeLaw H state history := by
  obtain ⟨hs, -, -⟩ := Timely.init.run hrun
  constructor
  case frozen =>
    intro last history' hlater sid s d hget hd hreach
    obtain ⟨-, -, hfrozen⟩ := Timely.run (a := (state, history)) hs hlater
    obtain ⟨s', hget', hrel⟩ := hfrozen sid s hget
    obtain ⟨-, -, hcount, hfold, hcounts, hslots⟩ := hrel ⟨d, hd, hreach⟩
    exact ⟨s', hget', hcount, hfold, hcounts, hslots⟩
  case closes =>
    intro args out report hboundaries hok row hrow
    obtain ⟨s, hget, hclose⟩ := (step_indexed hs.indexed hok).2.2.closed row hrow
    obtain ⟨hout, -, -⟩ := hs.tick hboundaries hok
    exact ⟨s, hget, hclose, (hout.timed _ s hget).closedOnTime hclose⟩
  case closed =>
    intro sid s row hget hclose
    exact (hs.timed sid s hget).closedOnTime hclose

theorem run_sampleRun {voted closed : State} {three four : List (Int × Int)}
    (h : sampleRun = .ok ((voted, three), closed, four)) :
    Run sampleHashing ({}, []) (voted, three) ∧
      Run sampleHashing (voted, three) (closed, four) := by
  have htick : ∀ {state out : State} {history history' : List (Int × Int)} {reading : Int}
      {opens : List OpenFact} {votes : List VoteFact},
      sampleStep state history reading opens votes = .ok (out, history') →
      Tick sampleHashing (state, history) (out, history') := by
    intro state out history history' reading opens votes h
    obtain ⟨⟨out', report⟩, hok, h⟩ := bind_eq_ok.mp h
    obtain ⟨rfl, rfl⟩ := Prod.mk.inj (Except.ok.inj h)
    exact ⟨_, report, rfl, hok, rfl⟩
  obtain ⟨⟨opened, one⟩, h₁, h⟩ := bind_eq_ok.mp h
  obtain ⟨⟨started, two⟩, h₂, h⟩ := bind_eq_ok.mp h
  obtain ⟨a, -, h⟩ := bind_eq_ok.mp h
  obtain ⟨⟨voted', three'⟩, h₃, h⟩ := bind_eq_ok.mp h
  obtain ⟨⟨closed', four'⟩, h₄, h⟩ := bind_eq_ok.mp h
  cases h
  exact ⟨((Relation.ReflTransGen.single (htick h₁)).tail (htick h₂)).tail (htick h₃),
    .single (htick h₄)⟩

theorem freezeLaw_sampleRun : ∃ voted three closed four,
    sampleRun = .ok ((voted, three), closed, four) ∧ FreezeLaw sampleHashing closed four ∧
    four = [(1, 299), (2, 304), (3, 309), (4, 1599)] ∧
    closed.sessions.map (fun e => (e.2.count, e.2.close.map CloseRow.freezeHeight)) =
      [(2, some 4), (0, some 4)] := by
  obtain ⟨voted, three, closed, four, h⟩ := sampleRun_ok
  have hrun : sampleRun.map (fun r =>
      (r.2.2, r.2.1.sessions.map fun e => (e.2.count, e.2.close.map CloseRow.freezeHeight))) =
      .ok ([(1, 299), (2, 304), (3, 309), (4, 1599)], [(2, some 4), (0, some 4)]) := by
    decide +kernel
  rw [h] at hrun
  obtain ⟨hhistory, hclosed⟩ := Prod.mk.inj (Except.ok.inj hrun)
  obtain ⟨hvoted, hlast⟩ := run_sampleRun h
  exact ⟨voted, three, closed, four, h, freezeLaw_of_run (hvoted.trans hlast), hhistory, hclosed⟩

end PagedReview

end ZoidbergChain
