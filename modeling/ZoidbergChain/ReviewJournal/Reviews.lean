import ZoidbergChain.ReviewJournal.Closing

/-!
# Reviews of one original

- `Retry` relates the two sessions that an original can have.
- `Reviews` is the invariant: submissions, originals and creators go together, two sessions
  of one original are a session and its retry, and the settled originals have passed.
- `reviewLaw_of_reachable` states what follows for every reachable state and for the next
  batch.
-/

namespace ZoidbergChain

open Python

namespace ReviewJournal

variable {H : Hashing}

/-- The session is closed with that outcome. -/
def Session.HasOutcome (s : Session) (outcome : String) : Prop :=
  ∃ closed, s.closed = some closed ∧ closed.item "outcome" = .ok (.str outcome)

/-- The session `y` retries the session `x`. -/
structure Retry (x y : Session) : Prop where
  first : x.attempt = 0
  second : y.attempt = 1
  later : x.opened < y.opened
  closed : x.closed ≠ none
  unfailed : ¬x.HasOutcome "FAIL"

/-- The sessions and the settled originals of a state that started with no session and
with nothing settled at the media height `base`. -/
structure Reviews (base : Int) (state : State) : Prop where
  identity : ∀ {i x j y}, state.sessions.get? i = some x → state.sessions.get? j = some y →
    x.submission = y.submission ∨ x.original = y.original →
    x.submission = y.submission ∧ x.original = y.original ∧ x.creator = y.creator
  retry : ∀ {i x j y}, state.sessions.get? i = some x → state.sessions.get? j = some y → i ≠ j →
    x.original = y.original → Retry x y ∨ Retry y x
  settled : ∀ {original hash}, state.settled.get? original = some hash →
    ∃ i x, state.sessions.get? i = some x ∧ x.original = original ∧ x.HasOutcome "PASS"
  media : state.media.1 = base + state.settled.length

/-! ## Sessions that continue -/

/-- The session keeps what the review rules read of it. -/
structure Continues (s s' : Session) : Prop where
  submission : s'.submission = s.submission
  original : s'.original = s.original
  creator : s'.creator = s.creator
  opened : s'.opened = s.opened
  attempt : s'.attempt = s.attempt
  closed : ∀ v, s.closed = some v → s'.closed = some v

theorem Continues.refl (s : Session) : Continues s s :=
  ⟨rfl, rfl, rfl, rfl, rfl, fun _ h => h⟩

theorem Continues.hasOutcome {s s' : Session} (hc : Continues s s') {outcome : String}
    (h : s.HasOutcome outcome) : s'.HasOutcome outcome := by
  obtain ⟨v, hv, hitem⟩ := h
  exact ⟨v, hc.closed v hv, hitem⟩

theorem Continues.retry {x x' y y' : Session} (hx : Continues x x') (hy : Continues y y')
    (h : Retry x y) : Retry x' y' where
  first := hx.attempt.trans h.first
  second := hy.attempt.trans h.second
  later := by
    rw [hx.opened, hy.opened]
    exact h.later
  closed := by
    obtain ⟨v, hv⟩ := Option.ne_none_iff_exists'.mp h.closed
    rw [hx.closed v hv]
    exact Option.some_ne_none v
  unfailed := by
    rintro ⟨w, hw, hitem⟩
    obtain ⟨v, hv⟩ := Option.ne_none_iff_exists'.mp h.closed
    obtain rfl := Option.some.inj ((hx.closed v hv).symm.trans hw)
    exact h.unfailed ⟨v, hv, hitem⟩

/-- All sessions continue, and there is no new one. -/
structure SessionsContinue (out out' : State) : Prop where
  kept : ∀ {i s}, out.sessions.get? i = some s →
    ∃ s', out'.sessions.get? i = some s' ∧ Continues s s'
  come : ∀ {i s'}, out'.sessions.get? i = some s' →
    ∃ s, out.sessions.get? i = some s ∧ Continues s s'

theorem SessionsContinue.of_eq {out out' : State} (h : out'.sessions = out.sessions) :
    SessionsContinue out out' :=
  ⟨fun hs => ⟨_, h ▸ hs, .refl _⟩, fun hs => ⟨_, h ▸ hs, .refl _⟩⟩

/-- A session is replaced by one that continues it. -/
theorem SessionsContinue.set {out out' : State} {sid : String} {s s' : Session}
    (hs : out.sessions.get? sid = some s) (hsessions : out'.sessions = out.sessions.set sid s')
    (hc : Continues s s') : SessionsContinue out out' := by
  refine ⟨fun {i t} ht => ?_, fun {i t} ht => ?_⟩
  · by_cases hi : i = sid
    · subst hi
      obtain rfl := Option.some.inj (hs.symm.trans ht)
      exact ⟨s', by rw [hsessions, Table.get?_set_self], hc⟩
    · exact ⟨t, by rwa [hsessions, Table.get?_set_of_ne (Ne.symm hi)], .refl t⟩
  · rw [hsessions] at ht
    obtain ⟨rfl, rfl⟩ | ⟨-, ht⟩ := Table.get?_set_eq_some.mp ht
    · exact ⟨s, hs, hc⟩
    · exact ⟨t, ht, .refl t⟩

theorem Reviews.continue {base : Int} {out out' : State} (hr : Reviews base out)
    (hc : SessionsContinue out out') (hmedia : out'.media = out.media)
    (hsettled : out'.settled = out.settled) : Reviews base out' where
  identity hx hy h := by
    obtain ⟨x, hx, hcx⟩ := hc.come hx
    obtain ⟨y, hy, hcy⟩ := hc.come hy
    rw [hcx.submission, hcx.original, hcx.creator, hcy.submission, hcy.original, hcy.creator] at *
    exact hr.identity hx hy h
  retry hx hy hne h := by
    obtain ⟨x, hx, hcx⟩ := hc.come hx
    obtain ⟨y, hy, hcy⟩ := hc.come hy
    rw [hcx.original, hcy.original] at h
    exact (hr.retry hx hy hne h).imp (hcx.retry hcy) (hcy.retry hcx)
  settled h := by
    rw [hsettled] at h
    obtain ⟨i, x, hx, horiginal, hpass⟩ := hr.settled h
    obtain ⟨x', hx', hcx⟩ := hc.kept hx
    exact ⟨i, x', hx', hcx.original.trans horiginal, hcx.hasOutcome hpass⟩
  media := by
    rw [hmedia, hsettled]
    exact hr.media

/-! ## Opening a session -/

theorem lastOpened_spec (best : Session) (rest : List Session) :
    lastOpened best rest ∈ best :: rest ∧
      ∀ s ∈ best :: rest, s.opened ≤ (lastOpened best rest).opened := by
  induction rest generalizing best with
  | nil => exact ⟨List.mem_singleton_self best, fun s hs => by rw [List.mem_singleton.mp hs]; rfl⟩
  | cons t rest ih =>
    by_cases hlt : best.opened < t.opened
    · obtain ⟨hmem, hle⟩ := ih t
      rw [lastOpened, if_pos hlt]
      refine ⟨List.mem_cons_of_mem _ hmem, fun s hs => ?_⟩
      obtain rfl | hs := List.mem_cons.mp hs
      · exact le_of_lt (lt_of_lt_of_le hlt (hle t (List.mem_cons_self ..)))
      · exact hle s hs
    · obtain ⟨hmem, hle⟩ := ih best
      have hbest := hle best (List.mem_cons_self ..)
      rw [lastOpened, if_neg hlt]
      refine ⟨?_, fun s hs => ?_⟩
      · obtain hlast | hlast := List.mem_cons.mp hmem
        · rw [hlast]
          exact List.mem_cons_self ..
        · exact List.mem_cons_of_mem _ (List.mem_cons_of_mem _ hlast)
      · obtain rfl | hs := List.mem_cons.mp hs
        · exact hbest
        obtain rfl | hs := List.mem_cons.mp hs
        · exact (not_lt.mp hlt).trans hbest
        · exact hle s (List.mem_cons_of_mem _ hs)

/-- What the source checks of the session that an OPEN event retries. -/
structure RetryAllowed (batch : Batch) (e : OpenEvent) (last : Session) : Prop where
  submission : e.submission = last.submission
  original : e.original = last.original
  creator : e.creator = last.creator
  closed : last.closed ≠ none
  first : last.attempt = 0
  second : e.attempt = 1
  unfailed : ¬last.HasOutcome "FAIL"
  delay : last.close + (last.close - last.opened) ≤ batch.height

theorem checkPrior_cases {out : State} {batch : Batch} {e : OpenEvent} {prior : List Session}
    (h : checkPrior out batch e prior = .ok ()) : prior = [] ∨
      ∃ last ∈ prior, (∀ s ∈ prior, s.opened ≤ last.opened) ∧ RetryAllowed batch e last := by
  cases prior with
  | nil => exact Or.inl rfl
  | cons s rest =>
    obtain ⟨hmem, hle⟩ := lastOpened_spec s rest
    refine Or.inr ⟨_, hmem, hle, ?_⟩
    simp only [checkPrior, bind_eq_ok, require_eq_ok, orRaise_eq_ok, Prod.mk.injEq,
      exists_const] at h
    obtain ⟨⟨hsubmission, horiginal, hcreator⟩, closed, hclosed, ⟨hfirst, hsecond⟩, outcome,
      houtcome, hunfailed, -, hdelay⟩ := h
    refine ⟨hsubmission, horiginal, hcreator, ?_, hfirst, hsecond, ?_, hdelay⟩
    · rw [hclosed]
      exact Option.some_ne_none closed
    · rintro ⟨v, hv, hitem⟩
      obtain rfl := Option.some.inj (hclosed.symm.trans hv)
      obtain rfl := Except.ok.inj (houtcome.symm.trans hitem)
      simp [Value.pyEq] at hunfailed

theorem mem_priorSessions {out : State} (hs : Keyed out) {e : OpenEvent} {s : Session} :
    s ∈ priorSessions out e ↔ (∃ sid, out.sessions.get? sid = some s) ∧
      (s.submission = e.submission ∨ s.original = e.original) := by
  simp only [priorSessions, Table.values, List.mem_filter, List.mem_map, Prod.exists,
    exists_eq_right, decide_eq_true_eq]
  refine and_congr_left fun _ => exists_congr fun sid => ?_
  exact ⟨fun h => (hs.get?_of_mem h).1, Table.mem_of_get?⟩

/-- The prior session that a retry is checked against is the only one. -/
theorem Reviews.prior_eq {base : Int} {out : State} (hr : Reviews base out) (hs : Keyed out)
    {batch : Batch} {e : OpenEvent} {last : Session} (hlast : last ∈ priorSessions out e)
    (hmax : ∀ s ∈ priorSessions out e, s.opened ≤ last.opened)
    (hallowed : RetryAllowed batch e last) {i : String} {x : Session}
    (hx : out.sessions.get? i = some x)
    (hprior : x.submission = e.submission ∨ x.original = e.original) : x = last := by
  obtain ⟨⟨j, hj⟩, -⟩ := (mem_priorSessions hs).mp hlast
  rw [hallowed.submission, hallowed.original] at hprior
  obtain ⟨-, horiginal, -⟩ := hr.identity hx hj hprior
  by_cases hij : i = j
  · subst hij
    exact Option.some.inj (hx.symm.trans hj)
  · obtain hretry | hretry := hr.retry hx hj hij horiginal
    · have := hretry.second.symm.trans hallowed.first
      omega
    · have hmem : x ∈ priorSessions out e := by
        refine (mem_priorSessions hs).mpr ⟨⟨i, hx⟩, ?_⟩
        rwa [hallowed.submission, hallowed.original]
      have := hmax x hmem
      have := hretry.later
      omega

/-- An opened session is the first of its original, or it retries the only one. -/
theorem Reviews.opened {base : Int} {state out : State} {batch : Batch} {e : OpenEvent}
    {window : Int} (hr : Reviews base out) (hm : MidBatch H state batch out)
    (hnew : out.sessions.get? e.sid = none)
    (hprior : checkPrior out batch e (priorSessions out e) = .ok ()) (hwindow : 2 ≤ window)
    (hfixed : window = state.window) :
    Reviews base { out with
      sessions := out.sessions.set e.sid (newSession state batch out e window) } := by
  have hcase : ∀ {i x}, out.sessions.get? i = some x →
      x.submission = e.submission ∨ x.original = e.original → RetryAllowed batch e x := by
    intro i x hx h
    obtain hnil | ⟨last, hlast, hmax, hallowed⟩ := checkPrior_cases hprior
    · have hmem := (mem_priorSessions hm.keyed).mpr ⟨⟨i, hx⟩, h⟩
      rw [hnil] at hmem
      cases hmem
    · rwa [hr.prior_eq hm.keyed hlast hmax hallowed hx h]
  have hretry : ∀ {i x}, out.sessions.get? i = some x → x.original = e.original →
      Retry x (newSession state batch out e window) := by
    intro i x hx h
    have hallowed := hcase hx (Or.inr h)
    have hclose := (hm.onTime i x hx).window
    have hdelay := hallowed.delay
    refine ⟨hallowed.first, hallowed.second, ?_, hallowed.closed, hallowed.unfailed⟩
    change x.opened < batch.height
    omega
  constructor
  · intro i x j y hx hy h
    obtain ⟨-, rfl⟩ | ⟨-, hx⟩ := Table.get?_set_eq_some.mp hx <;>
      obtain ⟨-, rfl⟩ | ⟨-, hy⟩ := Table.get?_set_eq_some.mp hy
    · exact ⟨rfl, rfl, rfl⟩
    · have hallowed := hcase hy (h.imp Eq.symm Eq.symm)
      exact ⟨hallowed.submission, hallowed.original, hallowed.creator⟩
    · have hallowed := hcase hx h
      exact ⟨hallowed.submission.symm, hallowed.original.symm, hallowed.creator.symm⟩
    · exact hr.identity hx hy h
  · intro i x j y hx hy hne h
    obtain ⟨rfl, rfl⟩ | ⟨-, hx⟩ := Table.get?_set_eq_some.mp hx <;>
      obtain ⟨rfl, rfl⟩ | ⟨-, hy⟩ := Table.get?_set_eq_some.mp hy
    · exact absurd rfl hne
    · exact Or.inr (hretry hy h.symm)
    · exact Or.inl (hretry hx h)
    · exact hr.retry hx hy hne h
  · intro original hash h
    obtain ⟨i, x, hx, hpass⟩ := hr.settled h
    refine ⟨i, x, ?_, hpass⟩
    have hne : e.sid ≠ i := by
      rintro rfl
      rw [hnew] at hx
      cases hx
    exact (Table.get?_set_of_ne hne).trans hx
  · exact hr.media

/-! ## Settling an original -/

theorem validateMedia_spec {out : State} {m : Media} {verdict : String}
    (h : validateMedia out m out.media = .ok verdict) : ∃ s,
      out.sessions.get? m.session = some s ∧ s.HasOutcome "PASS" ∧ m.original = s.original ∧
      out.settled.get? m.original = none ∧ m.height = out.media.1 + 1 := by
  simp only [validateMedia, bind_eq_ok, require_eq_ok, orRaise_eq_ok, exists_const] at h
  obtain ⟨-, -, -, -, -, s, hs, closed, hclosed, -, outcome, houtcome, hpass, ⟨hmedia, hparent⟩,
    ⟨horiginal, hunsettled⟩, -⟩ := h
  rw [Value.pyEq_str] at hpass
  subst hpass
  rw [hmedia] at hparent
  have hheight : m.height - 1 = out.media.1 := by rw [← hparent]
  exact ⟨s, hs, ⟨closed, hclosed, houtcome⟩, horiginal, horiginal ▸ hunsettled, by omega⟩

theorem Reviews.anchor {base : Int} {out : State} {m : Media} (hr : Reviews base out)
    (hmedia : validateMedia out m out.media = .ok "PASS") :
    Reviews base { out with
      media := (m.height, m.hash), settled := out.settled.set m.original m.hash } := by
  obtain ⟨s, hs, hpass, horiginal, hunsettled, hheight⟩ := validateMedia_spec hmedia
  refine ⟨hr.identity, hr.retry, fun {original hash} h => ?_, ?_⟩
  · obtain ⟨rfl, -⟩ | ⟨-, h⟩ := Table.get?_set_eq_some.mp h
    · exact ⟨m.session, s, hs, horiginal.symm, hpass⟩
    · exact hr.settled h
  · have := hr.media
    rw [Table.set_of_notMem (Table.get?_eq_none.mp hunsettled)]
    simp only [List.length_append, List.length_singleton]
    omega

/-! ## One batch -/

theorem Session.Voted.continues {height : Int} {s s' : Session} (hv : s.Voted height s') :
    Continues s s' := by
  rw [hv.same]
  exact ⟨rfl, rfl, rfl, rfl, rfl, fun _ h => h⟩

theorem AfterCloses.continues {state : State} {height : Int} {s s' : Session}
    (h : AfterCloses H (dueSessions state height) s s') : Continues s s' := by
  obtain ⟨rfl, -⟩ | ⟨hmem, v, closeSource, -, rfl⟩ := h
  · exact .refl s'
  · refine ⟨rfl, rfl, rfl, rfl, rfl, fun w hw => ?_⟩
    rw [(mem_dueSessions.mp hmem).2.1] at hw
    cases hw

theorem VoteCase.continues {height : Int} {out out' : State} (h : VoteCase height out out') :
    SessionsContinue out out' ∧ out'.media = out.media ∧ out'.settled = out.settled := by
  cases h with
  | observed => exact ⟨.of_eq rfl, rfl, rfl⟩
  | voted charges hs _ _ _ hvoted => exact ⟨.set hs rfl hvoted.continues, rfl, rfl⟩

theorem Reviews.event {base : Int} {state out out' : State} {batch : Batch} {event : Event}
    {i : Nat} (hr : Reviews base out) (hm : MidBatch H state batch out)
    (hkind : event.kind ≠ "CLOSE") (he : EventCase H state batch out i event out') :
    Reviews base out' := by
  cases he with
  | close => exact absurd rfl hkind
  | opened hnew _ hprior hwindow hfixed => exact hr.opened hm hnew hprior hwindow hfixed
  | vote observations hvote =>
    obtain ⟨hc, hmedia, hsettled⟩ := hvote.continues
    exact hr.continue ⟨hc.kept, hc.come⟩ hmedia hsettled
  | penalty => exact hr.continue (.of_eq rfl) rfl rfl
  | status => exact hr.continue (.of_eq rfl) rfl rfl
  | anchor hmedia => exact hr.anchor hmedia

theorem Reviews.events {base : Int} {state out last : State} {batch : Batch} {events : List Event}
    {i : Nat} (hr : Reviews base out) (hm : MidBatch H state batch out)
    (hkind : ∀ e ∈ events, e.kind ≠ "CLOSE")
    (h : applyEvents H state batch out events i = .ok last) : Reviews base last := by
  induction events generalizing out i with
  | nil => exact Except.ok.inj h ▸ hr
  | cons e events ih =>
    obtain ⟨next, hnext, hrest⟩ := bind_eq_ok.mp h
    have hcase := applyEvent_cases hnext
    have hhead := hkind e (List.mem_cons_self ..)
    exact ih (hr.event hm hhead hcase) (hm.event hhead hcase)
      (fun e' he' => hkind e' (List.mem_cons_of_mem e he')) hrest

/-- The sessions that the batch has opened so far are of unsettled originals. -/
def OpensUnsettled (state out : State) : Prop :=
  ∀ sid s, out.sessions.get? sid = some s → state.sessions.get? sid = none →
    out.settled.get? s.original = none

theorem OpensUnsettled.continue {state out out' : State} (ho : OpensUnsettled state out)
    (hc : SessionsContinue out out') (hsettled : out'.settled = out.settled) :
    OpensUnsettled state out' := by
  intro sid s' hs' hnone
  obtain ⟨s, hs, hcontinues⟩ := hc.come hs'
  rw [hsettled, hcontinues.original]
  exact ho sid s hs hnone

/-- An OPEN event checks its original, and a batch with one settles nothing. -/
theorem OpensUnsettled.events {state out last : State} {batch : Batch} {events : List Event}
    {i : Nat} (ho : OpensUnsettled state out) (hclose : ∀ e ∈ events, e.kind ≠ "CLOSE")
    (hanchor : ∀ e ∈ events, e.kind ≠ "ANCHOR")
    (h : applyEvents H state batch out events i = .ok last) : OpensUnsettled state last := by
  induction events generalizing out i with
  | nil => exact Except.ok.inj h ▸ ho
  | cons e events ih =>
    obtain ⟨next, hnext, hrest⟩ := bind_eq_ok.mp h
    refine ih ?_ (fun e' he' => hclose e' (List.mem_cons_of_mem e he'))
      (fun e' he' => hanchor e' (List.mem_cons_of_mem e he')) hrest
    cases applyEvent_cases hnext with
    | close => exact absurd rfl (hclose _ (List.mem_cons_self ..))
    | opened hnew hunsettled _ _ _ =>
      intro sid s hs hnone
      obtain ⟨-, rfl⟩ | ⟨-, hs⟩ := Table.get?_set_eq_some.mp hs
      · exact hunsettled
      · exact ho sid s hs hnone
    | vote observations hvote =>
      obtain ⟨hc, -, hsettled⟩ := hvote.continues
      exact ho.continue ⟨hc.kept, hc.come⟩ hsettled
    | penalty => exact ho.continue (.of_eq rfl) rfl
    | status => exact ho.continue (.of_eq rfl) rfl
    | anchor => exact absurd rfl (hanchor _ (List.mem_cons_self ..))

/-- All sessions were there before the batch. -/
def OpensNothing (state out : State) : Prop :=
  ∀ sid s, out.sessions.get? sid = some s → state.sessions.get? sid ≠ none

theorem OpensNothing.continue {state out out' : State} (ho : OpensNothing state out)
    (hc : SessionsContinue out out') : OpensNothing state out' := by
  intro sid s' hs'
  obtain ⟨s, hs, -⟩ := hc.come hs'
  exact ho sid s hs

theorem OpensNothing.events {state out last : State} {batch : Batch} {events : List Event}
    {i : Nat} (ho : OpensNothing state out) (hclose : ∀ e ∈ events, e.kind ≠ "CLOSE")
    (hopen : ∀ e ∈ events, e.kind ≠ "OPEN")
    (h : applyEvents H state batch out events i = .ok last) : OpensNothing state last := by
  induction events generalizing out i with
  | nil => exact Except.ok.inj h ▸ ho
  | cons e events ih =>
    obtain ⟨next, hnext, hrest⟩ := bind_eq_ok.mp h
    refine ih ?_ (fun e' he' => hclose e' (List.mem_cons_of_mem e he'))
      (fun e' he' => hopen e' (List.mem_cons_of_mem e he')) hrest
    cases applyEvent_cases hnext with
    | close => exact absurd rfl (hclose _ (List.mem_cons_self ..))
    | opened => exact absurd rfl (hopen _ (List.mem_cons_self ..))
    | vote observations hvote =>
      obtain ⟨hc, -⟩ := hvote.continues
      exact ho.continue ⟨hc.kept, hc.come⟩
    | penalty => exact ho.continue (.of_eq rfl)
    | status => exact ho.continue (.of_eq rfl)
    | anchor => exact ho.continue (.of_eq rfl)

theorem kind_ne_of_count {events : List Event} {kind : String} (h : countKind events kind = 0) :
    ∀ e ∈ events, e.kind ≠ kind := by
  intro e he hkind
  have := List.filter_eq_nil_iff.mp (List.length_eq_zero_iff.mp h) e he
  simp [hkind] at this

theorem ClosesDue.continue {state mid : State} {height : Int}
    (hd : ClosesDue H (dueSessions state height) state mid) : SessionsContinue state mid := by
  refine ⟨fun {i s} hs => ?_, fun {i s'} hs' => ?_⟩
  · obtain ⟨s', hs', hafter⟩ := hd.kept i s hs
    exact ⟨s', hs', hafter.continues⟩
  · obtain ⟨s, hs, hafter⟩ := hd.come i s' hs'
    exact ⟨s, hs, hafter.continues⟩

theorem Reviews.step {base : Int} {state out : State} (hr : Reviews base state)
    (hp : Punctual H state) (h : Step H state out) :
    Reviews base out ∧ OpensUnsettled state out := by
  obtain ⟨batch, cert, available, h⟩ := h
  have hb := apply_eq_ok h
  obtain ⟨mid, rest, last, i, hd, hrest, hlast, rfl⟩ := hb.closesDue hp.keyed
  have hclose := fun e he => (hrest e he).2
  have hsame : mid.media = state.media ∧ mid.settled = state.settled := by
    obtain ⟨sessions, rfl, -⟩ := hd.same
    exact ⟨rfl, rfl⟩
  have hmid := hr.continue hd.continue hsame.1 hsame.2
  refine ⟨(hmid.events (midBatch_of_closes hp hb.height hd) hclose hlast).continue
    (.of_eq rfl) rfl rfl, ?_⟩
  have hnothing : OpensNothing state mid := by
    intro sid s' hs' hnone
    obtain ⟨s, hs, -⟩ := hd.come sid s' hs'
    rw [hnone] at hs
    cases hs
  obtain hanchor | hopen := hb.anchor
  · refine OpensUnsettled.continue (OpensUnsettled.events ?_ hclose
      (fun e he => kind_ne_of_count hanchor e (hrest e he).1) hlast) (.of_eq rfl) rfl
    exact fun sid s hs hnone => absurd hnone (hnothing sid s hs)
  · have hlastNothing := hnothing.events hclose
      (fun e he => kind_ne_of_count hopen e (hrest e he).1) hlast
    exact fun sid s hs hnone => absurd hnone (hlastNothing sid s hs)

/-! ## Every run -/

theorem Reviews.init {initial : State} (hsessions : initial.sessions = [])
    (hsettled : initial.settled = []) : Reviews initial.media.1 initial := by
  constructor <;> intros <;> simp_all

theorem reviews_of_reachable {initial state : State} (hsessions : initial.sessions = [])
    (hsettled : initial.settled = []) (hs : Reachable H initial state) :
    Punctual H state ∧ Reviews initial.media.1 state := by
  induction hs with
  | refl => exact ⟨.init hsessions, .init hsessions hsettled⟩
  | tail _ hstep ih => exact ⟨ih.1.step hstep, (ih.2.step ih.1 hstep).1⟩

/-- The review rules in a state: about its sessions, its settled originals and its media
height, which was `base`, and about the sessions that the next batch opens. -/
structure ReviewLaw (H : Hashing) (base : Int) (state : State) : Prop where
  identity : ∀ {i x j y}, state.sessions.get? i = some x → state.sessions.get? j = some y →
    (x.submission = y.submission ↔ x.original = y.original) ∧
      (x.original = y.original → x.creator = y.creator)
  oneOpen : ∀ {i x j y}, state.sessions.get? i = some x → state.sessions.get? j = some y →
    x.original = y.original → x.closed = none → y.closed = none → i = j
  twoEver : ∀ original,
    (state.sessions.filter fun e => e.2.original = original).length ≤ 2
  settled : ∀ {original hash}, state.settled.get? original = some hash →
    ∃ i x, state.sessions.get? i = some x ∧ x.original = original ∧ x.HasOutcome "PASS"
  media : state.media.1 = base + state.settled.length
  opens : ∀ {out}, Step H state out → ∀ {i y}, out.sessions.get? i = some y →
    state.sessions.get? i = none → out.settled.get? y.original = none ∧
      ∀ {j x}, out.sessions.get? j = some x → j ≠ i → x.original = y.original →
        ¬x.HasOutcome "FAIL"

/-- A list without repetitions is short when no three of its items differ. -/
theorem length_le_two_of_nodup {α : Type} {l : List α} (hl : l.Nodup)
    (h : ∀ a ∈ l, ∀ b ∈ l, ∀ d ∈ l, a ≠ b → a ≠ d → b ≠ d → False) : l.length ≤ 2 := by
  match l, hl with
  | [], _ | [_], _ | [_, _], _ => simp
  | a :: b :: d :: rest, hl =>
    simp only [List.nodup_cons, List.mem_cons, not_or] at hl
    exact absurd (h a (by simp) b (by simp) d (by simp) hl.1.1 hl.1.2.1 hl.2.1.1) id

/-- An original has no third session. -/
theorem Reviews.twoEver {base : Int} {state : State} (hr : Reviews base state)
    (hs : Keyed state) (original : String) :
    (state.sessions.filter fun e => e.2.original = original).length ≤ 2 := by
  refine length_le_two_of_nodup (hs.nodup.of_map.filter _) ?_
  intro a ha b hb d hd hab had hbd
  obtain ⟨ha, hao⟩ := List.mem_filter.mp ha
  obtain ⟨hb, hbo⟩ := List.mem_filter.mp hb
  obtain ⟨hd, hdo⟩ := List.mem_filter.mp hd
  have hga := (hs.get?_of_mem ha).1
  have hgb := (hs.get?_of_mem hb).1
  have hgd := (hs.get?_of_mem hd).1
  have hkey : ∀ {p q : String × Session}, state.sessions.get? p.1 = some p.2 →
      state.sessions.get? q.1 = some q.2 → p ≠ q → p.1 ≠ q.1 := by
    intro p q hp hq hne heq
    rw [heq, hq] at hp
    exact hne (Prod.ext heq (Option.some.inj hp).symm)
  have hsame : ∀ {p q : String × Session}, decide (p.2.original = original) = true →
      decide (q.2.original = original) = true → p.2.original = q.2.original :=
    fun hp hq => (of_decide_eq_true hp).trans (of_decide_eq_true hq).symm
  have h₁ := hr.retry hga hgb (hkey hga hgb hab) (hsame hao hbo)
  have h₂ := hr.retry hga hgd (hkey hga hgd had) (hsame hao hdo)
  have h₃ := hr.retry hgb hgd (hkey hgb hgd hbd) (hsame hbo hdo)
  -- the attempts of three sessions would be three numbers among 0 and 1
  rcases h₁ with h₁ | h₁ <;> rcases h₂ with h₂ | h₂ <;> rcases h₃ with h₃ | h₃ <;>
    · have := h₁.first
      have := h₁.second
      have := h₂.first
      have := h₂.second
      have := h₃.first
      have := h₃.second
      omega

/-- In every state that accepted batches reach from one without sessions and settled
originals, the review rules hold. -/
theorem reviewLaw_of_reachable {initial state : State} (hsessions : initial.sessions = [])
    (hsettled : initial.settled = []) (hs : Reachable H initial state) :
    ReviewLaw H initial.media.1 state := by
  obtain ⟨hp, hr⟩ := reviews_of_reachable hsessions hsettled hs
  refine ⟨fun hx hy => ⟨?_, ?_⟩, fun hx hy h hxopen hyopen => ?_, hr.twoEver hp.keyed,
    hr.settled, hr.media, fun {out} hstep {i y} hy hnew => ?_⟩
  · constructor
    · exact fun h => (hr.identity hx hy (Or.inl h)).2.1
    · exact fun h => (hr.identity hx hy (Or.inr h)).1
  · exact fun h => (hr.identity hx hy (Or.inr h)).2.2
  · by_contra hne
    obtain hretry | hretry := hr.retry hx hy hne h
    · exact hretry.closed hxopen
    · exact hretry.closed hyopen
  · obtain ⟨hrout, hunsettled⟩ := hr.step hp hstep
    refine ⟨hunsettled i y hy hnew, fun {j x} hx hne horiginal => ?_⟩
    have hopened := (((closingLaw_of_reachable hsessions hs).evolve out hstep).fresh i y hy hnew).1
    have hle := ((hp.step hstep).onTime j x hx).opened
    obtain hretry | hretry := hrout.retry hx hy hne horiginal
    · exact hretry.unfailed
    · have := hretry.later
      omega

theorem reviewLaw_sampleRun : ∃ voted closed settled,
    sampleRun = .ok (voted, closed, settled) ∧ ReviewLaw sampleHashing 0 settled ∧
    settled.settled = [("original-s", "media-x")] := by
  obtain ⟨voted, closed, settled, h⟩ := sampleRun_ok
  refine ⟨voted, closed, settled, h,
    @reviewLaw_of_reachable _ sampleInitial _ rfl rfl (reachable_sampleRun h).2, ?_⟩
  have hsettled : sampleRun.map (fun r => r.2.2.settled) = .ok [("original-s", "media-x")] := by
    decide +kernel
  rw [h] at hsettled
  exact Except.ok.inj hsettled

end ReviewJournal

end ZoidbergChain
