import ZoidbergChain.ReviewJournal.Model

/-!
# Review sessions close on time

- `OnTime` is what holds of a session at a height: it is open before its close height,
  from then on it carries the result of its own votes, and these were admitted strictly
  between its two heights.
- `Evolves` is what a batch may do to a session that it finds.
- `MidBatch` holds from the last CLOSE event of a batch to its end.
- `closingLaw_of_reachable`: in every reachable state the sessions are on time, and the
  next batch only lets them evolve.
-/

namespace ZoidbergChain

open Python

namespace ReviewJournal

variable {H : Hashing}

/-! ## The laws -/

/-- The session is open before its close height and closed, with the result of its
admitted votes, from then on. -/
structure OnTime (H : Hashing) (window height : Int) (s : Session) : Prop where
  window : s.close = s.opened + window
  opened : s.opened ≤ height
  unset : height < s.close → s.closed = none
  tallied : s.close ≤ height →
    ∃ v r, s.closed = some v ∧ result H s = .ok r ∧ v.pyEq r.toValue = true
  admitted : ∀ row ∈ s.admitted, s.opened < row.position.1 ∧ row.position.1 < s.close

/-- A session after the batch at `height`: a closed one is as it was, and votes come in
strictly between the two heights of the session. -/
structure Evolves (height : Int) (s s' : Session) : Prop where
  opened : s'.opened = s.opened
  close : s'.close = s.close
  frozen : s.closed ≠ none → s' = s
  admitted : s'.admitted = s.admitted ∨ s.opened < height ∧ height < s.close

/-- The sessions of `out` come from those of `state`, or were opened at `height`. -/
structure SessionsEvolve (height : Int) (state out : State) : Prop where
  kept : ∀ sid s, state.sessions.get? sid = some s →
    ∃ s', out.sessions.get? sid = some s' ∧ Evolves height s s'
  fresh : ∀ sid s', out.sessions.get? sid = some s' → state.sessions.get? sid = none →
    s'.opened = height ∧ s'.admitted = []

theorem Evolves.refl (height : Int) (s : Session) : Evolves height s s :=
  ⟨rfl, rfl, fun _ => rfl, Or.inl rfl⟩

/-! ## The required CLOSE events -/

theorem startsWithCloses_iff {events : List Event} {expected : List CloseResult}
    (h : startsWithCloses events expected = true) :
    ∃ closes rest, events = closes.map Event.close ++ rest ∧
      List.Forall₂ (fun v (r : CloseResult) => v.pyEq r.toValue = true) closes expected := by
  induction expected generalizing events with
  | nil => exact ⟨[], events, rfl, .nil⟩
  | cons r expected ih =>
    cases events with
    | nil => cases h
    | cons e events =>
      obtain ⟨he, hrest⟩ := Bool.and_eq_true_iff.mp h
      obtain ⟨closes, rest, rfl, hcloses⟩ := ih hrest
      cases e with
      | close v => exact ⟨v :: closes, rest, rfl, .cons he hcloses⟩
      | _ => cases he

/-- Behind the required CLOSE events there is no other one. -/
theorem kind_ne_close_of_count {closes : List Value} {rest : List Event}
    (h : countKind (closes.map Event.close ++ rest) "CLOSE" = closes.length) :
    ∀ e ∈ rest, e.kind ≠ "CLOSE" := by
  have hall : (closes.map Event.close).filter (fun e => e.kind = "CLOSE") =
      closes.map Event.close := by
    rw [List.filter_eq_self]
    intro e he
    obtain ⟨v, -, rfl⟩ := List.mem_map.mp he
    rfl
  rw [countKind, List.filter_append, hall, List.length_append, List.length_map] at h
  have hnil : rest.filter (fun e => e.kind = "CLOSE") = [] := List.length_eq_zero_iff.mp (by omega)
  intro e he hkind
  have := List.filter_eq_nil_iff.mp hnil e he
  simp [hkind] at this

theorem applyEvents_append {state out last : State} {batch : Batch} {xs ys : List Event} {i : Nat} :
    applyEvents H state batch out (xs ++ ys) i = .ok last ↔
      ∃ mid, applyEvents H state batch out xs i = .ok mid ∧
        applyEvents H state batch mid ys (i + xs.length) = .ok last := by
  induction xs generalizing out i with
  | nil => simp [applyEvents]
  | cons e xs ih =>
    simp only [List.cons_append, applyEvents, bind_eq_ok, ih, List.length_cons]
    constructor
    · rintro ⟨next, hnext, mid, hmid, hlast⟩
      exact ⟨mid, ⟨next, hnext, hmid⟩, by rwa [Nat.add_right_comm, Nat.add_assoc] at hlast⟩
    · rintro ⟨mid, ⟨next, hnext, hmid⟩, hlast⟩
      exact ⟨next, hnext, mid, hmid, by rwa [Nat.add_right_comm, Nat.add_assoc]⟩

/-- The value of a due CLOSE event stands for the session with that result. -/
def ClosesSession (H : Hashing) (v : Value) (s : Session) : Prop :=
  ∃ r, result H s = .ok r ∧ v.pyEq r.toValue = true

theorem result_session {s : Session} {r : CloseResult} (h : result H s = .ok r) :
    r.session = s.sid := by
  simp only [result, bind_eq_ok, Except.ok.injEq] at h
  obtain ⟨-, -, -, -, rfl⟩ := h
  rfl

/-- The result of a session does not depend on how it was closed. -/
theorem result_closed (s : Session) (closed : Option Value)
    (closeSource : Option (Int × String × Nat)) :
    result H { s with closed, closeSource } = result H s := rfl

theorem ClosesSession.item_session {v : Value} {s : Session} {sid : String}
    (h : ClosesSession H v s) (hsid : v.item "session" = .ok (.str sid)) : sid = s.sid := by
  obtain ⟨r, hr, hv⟩ := h
  obtain ⟨u, hu, hequal⟩ := Value.item_of_pyEq hv hsid
  obtain rfl : .str r.session = u := Option.some.inj hu
  rw [Value.pyEq_str] at hequal
  rw [← result_session hr]
  exact Value.str.inj hequal

/-- The required CLOSE events close the due sessions and touch nothing else. -/
theorem applyEvents_closes {state out mid : State} {batch : Batch} {closes : List Value}
    {due : List Session} {i : Nat} (hcloses : List.Forall₂ (ClosesSession H) closes due)
    (hdue : ∀ s ∈ due, out.sessions.get? s.sid = some s) (hnodup : (due.map Session.sid).Nodup)
    (h : applyEvents H state batch out (closes.map Event.close) i = .ok mid) :
    (∃ sessions, mid = { out with sessions } ∧ sessions.keys = out.sessions.keys) ∧
    (∀ sid ∉ due.map Session.sid, mid.sessions.get? sid = out.sessions.get? sid) ∧
    ∀ s ∈ due, ∃ v closeSource, ClosesSession H v s ∧
      mid.sessions.get? s.sid = some { s with closed := some v, closeSource } := by
  induction hcloses generalizing out i with
  | nil =>
    obtain rfl := Except.ok.inj h
    exact ⟨⟨out.sessions, rfl, rfl⟩, fun _ _ => rfl, nofun⟩
  | @cons v s closes due hv _ ih =>
    obtain ⟨next, hnext, hrest⟩ := bind_eq_ok.mp h
    cases applyEvent_cases hnext with
    | close hsid hs =>
      obtain rfl := hv.item_session hsid
      obtain rfl := Option.some.inj ((hdue s (List.mem_cons_self ..)).symm.trans hs)
      obtain ⟨hhead, hnodup⟩ := List.nodup_cons.mp hnodup
      have hother : ∀ {sid}, sid ≠ s.sid → ∀ a,
          (out.sessions.set s.sid a).get? sid = out.sessions.get? sid :=
        fun hne a => Table.get?_set_of_ne hne.symm
      obtain ⟨⟨sessions, hmid, hkeys⟩, hkept, hclosed⟩ := ih (fun t ht => by
        have hne : t.sid ≠ s.sid := fun heq => hhead (heq ▸ List.mem_map_of_mem ht)
        rw [hother hne]
        exact hdue t (List.mem_cons_of_mem _ ht)) hnodup hrest
      refine ⟨⟨sessions, hmid, hkeys.trans (Table.keys_set_of_mem ?_)⟩, fun sid hsid => ?_,
        fun t ht => ?_⟩
      · by_contra habsent
        rw [Table.get?_eq_none.mpr habsent] at hs
        cases hs
      · obtain ⟨hne, hsid⟩ := not_or.mp (mt List.mem_cons.mpr hsid)
        rw [hkept sid hsid, hother hne]
      · obtain rfl | ht := List.mem_cons.mp ht
        · refine ⟨v, some (batch.height, H.batch batch, i), hv, ?_⟩
          rw [hkept t.sid hhead]
          exact Table.get?_set_self _ _ _
        · exact hclosed t ht

/-! ## The sessions that are due -/

/-- The keys of the sessions are their ids. -/
structure Keyed (state : State) : Prop where
  nodup : state.sessions.keys.Nodup
  sid : ∀ sid s, state.sessions.get? sid = some s → s.sid = sid

theorem Keyed.get?_of_mem {state : State} (hs : Keyed state) {sid : String} {s : Session}
    (hmem : (sid, s) ∈ state.sessions) : state.sessions.get? sid = some s ∧ s.sid = sid := by
  have hget := Table.get?_of_mem hs.nodup hmem
  exact ⟨hget, hs.sid sid s hget⟩

theorem mem_dueSessions {state : State} {height : Int} {s : Session} :
    s ∈ dueSessions state height ↔
      (∃ sid, (sid, s) ∈ state.sessions) ∧ s.closed = none ∧ s.close = height := by
  simp [dueSessions]

theorem nodup_dueSessions {state : State} (hs : Keyed state) (height : Int) :
    ((dueSessions state height).map Session.sid).Nodup := by
  have hsorted := List.perm_insertionSort (fun a b : String × Session => a.1 ≤ b.1) state.sessions
  have hsub : List.Sublist ((dueSessions state height).map Session.sid)
      (((state.sessions.insertionSort fun a b => a.1 ≤ b.1).map Prod.snd).map Session.sid) :=
    List.filter_sublist.map _
  refine hsub.nodup ?_
  have hkeys : ((state.sessions.insertionSort fun a b => a.1 ≤ b.1).map Prod.snd).map Session.sid =
      (state.sessions.insertionSort fun a b => a.1 ≤ b.1).map Prod.fst := by
    rw [List.map_map]
    refine List.map_congr_left fun e he => ?_
    exact (hs.get?_of_mem (hsorted.mem_iff.mp he)).2
  rw [hkeys]
  exact (hsorted.map Prod.fst).nodup_iff.mpr hs.nodup

/-! ## One batch -/

/-- What holds from the last CLOSE event of a batch to its end. -/
structure MidBatch (H : Hashing) (state : State) (batch : Batch) (out : State) : Prop where
  keyed : Keyed out
  window : out.window = state.window
  onTime : ∀ sid s, out.sessions.get? sid = some s → OnTime H state.window batch.height s
  evolve : SessionsEvolve batch.height state out

/-- The sessions of a state are on time at its height. -/
structure Punctual (H : Hashing) (state : State) : Prop where
  keyed : Keyed state
  onTime : ∀ sid s, state.sessions.get? sid = some s → OnTime H state.window state.height s

/-- At the next height the sessions that are not due are on time as they are. -/
theorem OnTime.next {window height : Int} {s : Session} (hs : OnTime H window height s)
    (hdue : s.closed = none → s.close ≠ height + 1) : OnTime H window (height + 1) s where
  window := hs.window
  opened := by
    have := hs.opened
    omega
  unset hbefore := hs.unset (by omega)
  tallied hafter := by
    by_cases hnow : s.close ≤ height
    · exact hs.tallied hnow
    · exact absurd (show s.close = height + 1 by omega) (hdue (hs.unset (by omega)))
  admitted := hs.admitted

/-- A due session is on time when it is closed with its result. -/
theorem OnTime.closes {window height : Int} {s : Session} (hs : OnTime H window height s)
    (hdue : s.close = height + 1) {v : Value} (hv : ClosesSession H v s)
    (closeSource : Option (Int × String × Nat)) :
    OnTime H window (height + 1) { s with closed := some v, closeSource } where
  window := hs.window
  opened := by
    have := hs.opened
    change s.opened ≤ height + 1
    omega
  unset hbefore := by
    change height + 1 < s.close at hbefore
    omega
  tallied _ := by
    obtain ⟨r, hr, hequal⟩ := hv
    exact ⟨v, r, rfl, by rwa [result_closed], hequal⟩
  admitted := hs.admitted

/-- A session after the CLOSE events of a batch, where `due` are the due ones. -/
def AfterCloses (H : Hashing) (due : List Session) (s s' : Session) : Prop :=
  s' = s ∧ s ∉ due ∨ s ∈ due ∧ ∃ v closeSource, ClosesSession H v s ∧
    s' = { s with closed := some v, closeSource }

/-- The CLOSE events of a batch close the due sessions, and do nothing else. -/
structure ClosesDue (H : Hashing) (due : List Session) (state mid : State) : Prop where
  same : ∃ sessions, mid = { state with sessions } ∧ sessions.keys = state.sessions.keys
  kept : ∀ sid s, state.sessions.get? sid = some s →
    ∃ s', mid.sessions.get? sid = some s' ∧ AfterCloses H due s s'
  come : ∀ sid s', mid.sessions.get? sid = some s' →
    ∃ s, state.sessions.get? sid = some s ∧ AfterCloses H due s s'

theorem closesDue_of_closes {state mid : State} {batch : Batch} {closes : List Value}
    (hs : Keyed state)
    (hcloses : List.Forall₂ (ClosesSession H) closes (dueSessions state batch.height))
    (h : applyEvents H state batch state (closes.map Event.close) 0 = .ok mid) :
    ClosesDue H (dueSessions state batch.height) state mid := by
  have hdue : ∀ s ∈ dueSessions state batch.height, state.sessions.get? s.sid = some s := by
    intro s hmem
    obtain ⟨⟨sid, hentry⟩, -⟩ := mem_dueSessions.mp hmem
    obtain ⟨hget, rfl⟩ := hs.get?_of_mem hentry
    exact hget
  obtain ⟨hsame, hkept, hclosed⟩ := applyEvents_closes hcloses hdue (nodup_dueSessions hs _) h
  have hold : ∀ {sid}, sid ∉ (dueSessions state batch.height).map Session.sid →
      ∀ {s}, state.sessions.get? sid = some s → s ∉ dueSessions state batch.height :=
    fun hmem s hget hs₀ => hmem (hs.sid _ s hget ▸ List.mem_map_of_mem hs₀)
  refine ⟨hsame, fun sid s hget => ?_, fun sid s' hget => ?_⟩ <;>
    by_cases hmem : sid ∈ (dueSessions state batch.height).map Session.sid
  · obtain ⟨t, ht, rfl⟩ := List.mem_map.mp hmem
    obtain rfl := Option.some.inj (hget.symm.trans (hdue t ht))
    obtain ⟨v, closeSource, hv, hget'⟩ := hclosed s ht
    exact ⟨_, hget', Or.inr ⟨ht, v, closeSource, hv, rfl⟩⟩
  · exact ⟨s, (hkept sid hmem).trans hget, Or.inl ⟨rfl, hold hmem hget⟩⟩
  · obtain ⟨t, ht, rfl⟩ := List.mem_map.mp hmem
    obtain ⟨v, closeSource, hv, hget'⟩ := hclosed t ht
    exact ⟨t, hdue t ht, Or.inr ⟨ht, v, closeSource, hv, Option.some.inj (hget.symm.trans hget')⟩⟩
  · rw [hkept sid hmem] at hget
    exact ⟨s', hget, Or.inl ⟨rfl, hold hmem hget⟩⟩

theorem AfterCloses.sid {due : List Session} {s s' : Session} (h : AfterCloses H due s s') :
    s'.sid = s.sid := by
  obtain ⟨rfl, -⟩ | ⟨-, v, closeSource, -, rfl⟩ := h <;> rfl

theorem AfterCloses.evolves {state : State} {height : Int} {s s' : Session}
    (h : AfterCloses H (dueSessions state height) s s') : Evolves height s s' := by
  obtain ⟨rfl, -⟩ | ⟨hmem, v, closeSource, -, rfl⟩ := h
  · exact .refl height s'
  · exact ⟨rfl, rfl, fun hclosed => absurd (mem_dueSessions.mp hmem).2.1 hclosed, Or.inl rfl⟩

theorem ClosesDue.keyed {due : List Session} {state mid : State} (hd : ClosesDue H due state mid)
    (hs : Keyed state) : Keyed mid where
  nodup := by
    obtain ⟨sessions, rfl, hkeys⟩ := hd.same
    exact hkeys ▸ hs.nodup
  sid sid s' hget := by
    obtain ⟨s, hs₀, hafter⟩ := hd.come sid s' hget
    rw [hafter.sid]
    exact hs.sid sid s hs₀

theorem midBatch_of_closes {state mid : State} {batch : Batch} (hs : Punctual H state)
    (hheight : batch.height = state.height + 1)
    (hd : ClosesDue H (dueSessions state batch.height) state mid) :
    MidBatch H state batch mid where
  keyed := hd.keyed hs.keyed
  window := by
    obtain ⟨sessions, rfl, -⟩ := hd.same
    rfl
  onTime sid s' hget := by
    obtain ⟨s, hs₀, hafter⟩ := hd.come sid s' hget
    rw [hheight] at hafter ⊢
    obtain ⟨rfl, hnot⟩ | ⟨hmem, v, source, hv, rfl⟩ := hafter
    · refine (hs.onTime sid s' hs₀).next fun hopen hclose => hnot ?_
      exact mem_dueSessions.mpr ⟨⟨sid, Table.mem_of_get? hs₀⟩, hopen, hclose⟩
    · exact (hs.onTime sid s hs₀).closes (mem_dueSessions.mp hmem).2.2 hv source
  evolve := by
    refine ⟨fun sid s hget => ?_, fun sid s' hget hnone => ?_⟩
    · obtain ⟨s', hs', hafter⟩ := hd.kept sid s hget
      exact ⟨s', hs', hafter.evolves⟩
    · obtain ⟨s, hs₀, -⟩ := hd.come sid s' hget
      rw [hnone] at hs₀
      cases hs₀

/-! ### The events behind the CLOSE events -/

theorem Session.Voted.onTime {height window : Int} {s s' : Session} (hv : s.Voted height s')
    (hs : OnTime H window height s) (hopen : s.closed = none) (hlater : s.opened < height)
    (hearlier : height < s.close) : OnTime H window height s' := by
  obtain ⟨hsame, hadmitted⟩ := hv
  have hopened : s'.opened = s.opened := by rw [hsame]
  have hclose : s'.close = s.close := by rw [hsame]
  have hclosed : s'.closed = s.closed := by rw [hsame]
  refine ⟨?_, ?_, fun _ => hclosed.trans hopen, fun hafter => ?_, fun row hrow => ?_⟩
  · rw [hopened, hclose]
    exact hs.window
  · rw [hopened]
    exact hs.opened
  · omega
  · rw [hopened, hclose]
    obtain hsameRows | ⟨new, hrows, hposition⟩ := hadmitted
    · exact hs.admitted row (hsameRows ▸ hrow)
    · rw [hrows, List.mem_append, List.mem_singleton] at hrow
      obtain hrow | rfl := hrow
      · exact hs.admitted row hrow
      · omega

theorem Evolves.voted {height : Int} {s₀ s s' : Session} (he : Evolves height s₀ s)
    (hv : s.Voted height s') (hopen : s.closed = none) (hlater : s.opened < height)
    (hearlier : height < s.close) : Evolves height s₀ s' where
  opened := by
    rw [hv.same]
    exact he.opened
  close := by
    rw [hv.same]
    exact he.close
  frozen hclosed := by
    rw [he.frozen hclosed] at hopen
    exact absurd hopen hclosed
  admitted := Or.inr (by rw [← he.opened, ← he.close]; exact ⟨hlater, hearlier⟩)

/-- The sessions of the state do not change. -/
theorem MidBatch.keep {state out out' : State} {batch : Batch} (hm : MidBatch H state batch out)
    (hsessions : out'.sessions = out.sessions) (hwindow : out'.window = out.window) :
    MidBatch H state batch out' where
  keyed := ⟨hsessions ▸ hm.keyed.nodup, fun sid s h => hm.keyed.sid sid s (hsessions ▸ h)⟩
  window := hwindow.trans hm.window
  onTime sid s h := hm.onTime sid s (hsessions ▸ h)
  evolve := ⟨fun sid s h => hsessions ▸ hm.evolve.kept sid s h,
    fun sid s h hnone => hm.evolve.fresh sid s (hsessions ▸ h) hnone⟩

/-- The session `sid` of the state is set to `s'`. -/
theorem MidBatch.set {state out out' : State} {batch : Batch} {sid : String} {s' : Session}
    (hm : MidBatch H state batch out) (hsessions : out'.sessions = out.sessions.set sid s')
    (hwindow : out'.window = out.window) (hsid : s'.sid = sid)
    (honTime : OnTime H state.window batch.height s')
    (hkept : ∀ s, state.sessions.get? sid = some s → Evolves batch.height s s')
    (hfresh : state.sessions.get? sid = none → s'.opened = batch.height ∧ s'.admitted = []) :
    MidBatch H state batch out' := by
  have hget : ∀ key s, out'.sessions.get? key = some s →
      key = sid ∧ s = s' ∨ key ≠ sid ∧ out.sessions.get? key = some s :=
    fun key s h => Table.get?_set_eq_some.mp (hsessions ▸ h)
  refine ⟨⟨hsessions ▸ Table.keys_set_nodup hm.keyed.nodup, fun key s h => ?_⟩,
    hwindow.trans hm.window, fun key s h => ?_, fun key s h => ?_, fun key s h hnone => ?_⟩
  · obtain ⟨rfl, rfl⟩ | ⟨-, h⟩ := hget key s h
    · exact hsid
    · exact hm.keyed.sid key s h
  · obtain ⟨-, rfl⟩ | ⟨-, h⟩ := hget key s h
    · exact honTime
    · exact hm.onTime key s h
  · rw [hsessions]
    by_cases hkey : key = sid
    · subst hkey
      exact ⟨s', Table.get?_set_self _ _ _, hkept s h⟩
    · rw [Table.get?_set_of_ne (Ne.symm hkey)]
      exact hm.evolve.kept key s h
  · obtain ⟨rfl, rfl⟩ | ⟨-, h⟩ := hget key s h
    · exact hfresh hnone
    · exact hm.evolve.fresh key s h hnone

theorem newSession_onTime {state out : State} {batch : Batch} {e : OpenEvent} {window : Int}
    (hwindow : 2 ≤ window) :
    OnTime H window batch.height (newSession state batch out e window) where
  window := rfl
  opened := Int.le_refl batch.height
  unset _ := rfl
  tallied hafter := by
    change batch.height + window ≤ batch.height at hafter
    omega
  admitted _ hrow := absurd hrow List.not_mem_nil

theorem MidBatch.event {state out out' : State} {batch : Batch} {event : Event} {i : Nat}
    (hm : MidBatch H state batch out) (hkind : event.kind ≠ "CLOSE")
    (he : EventCase H state batch out i event out') : MidBatch H state batch out' := by
  cases he with
  | close => exact absurd rfl hkind
  | @opened e window hnew _ _ hwindow hfixed =>
    subst hfixed
    refine hm.set rfl rfl rfl (newSession_onTime hwindow) (fun s hs => ?_) fun _ => ⟨rfl, rfl⟩
    obtain ⟨s', hs', -⟩ := hm.evolve.kept _ s hs
    rw [hnew] at hs'
    cases hs'
  | vote observations hvote =>
    cases hvote with
    | observed => exact hm.keep rfl rfl
    | @voted sid s s' charges hs hopen hlater hearlier hvoted =>
      refine hm.set rfl rfl ?_ (hvoted.onTime (hm.onTime sid s hs) hopen hlater hearlier)
        (fun s₀ hs₀ => ?_) fun hnone => ?_
      · rw [hvoted.same]
        exact hm.keyed.sid sid s hs
      · obtain ⟨t, ht, hevolves⟩ := hm.evolve.kept sid s₀ hs₀
        obtain rfl := Option.some.inj (ht.symm.trans hs)
        exact hevolves.voted hvoted hopen hlater hearlier
      · -- a session that this batch opened takes no vote in it
        have := (hm.evolve.fresh sid s hs hnone).1
        omega
  | penalty => exact hm.keep rfl rfl
  | status => exact hm.keep rfl rfl
  | anchor => exact hm.keep rfl rfl

theorem MidBatch.events {state out last : State} {batch : Batch} {events : List Event} {i : Nat}
    (hm : MidBatch H state batch out) (hkind : ∀ e ∈ events, e.kind ≠ "CLOSE")
    (h : applyEvents H state batch out events i = .ok last) : MidBatch H state batch last := by
  induction events generalizing out i with
  | nil => exact Except.ok.inj h ▸ hm
  | cons e events ih =>
    obtain ⟨next, hnext, hrest⟩ := bind_eq_ok.mp h
    exact ih (hm.event (hkind e (List.mem_cons_self ..)) (applyEvent_cases hnext))
      (fun e' he' => hkind e' (List.mem_cons_of_mem e he')) hrest

/-! ## Every run -/

theorem forall₂_dueCloses {due : List Session} {expected : List CloseResult} {closes : List Value}
    (hdue : due.mapM (result H) = .ok expected)
    (hcloses : List.Forall₂ (fun v (r : CloseResult) => v.pyEq r.toValue = true) closes expected) :
    List.Forall₂ (ClosesSession H) closes due := by
  induction due generalizing expected closes with
  | nil =>
    obtain rfl : expected = [] := by
      rw [List.mapM_nil] at hdue
      exact (Except.ok.inj hdue).symm
    cases hcloses
    exact .nil
  | cons s due ih =>
    rw [List.mapM_cons] at hdue
    simp only [bind_eq_ok, pure_eq_ok] at hdue
    obtain ⟨r, hr, rest, hrest, rfl⟩ := hdue
    cases hcloses with
    | cons hv hcloses => exact .cons ⟨r, hr, hv⟩ (ih hrest hcloses)

/-- An accepted batch closes the due sessions first, and no other event is a CLOSE. -/
theorem AppliedBatch.closesDue {state out : State} {batch : Batch} (hs : Keyed state)
    (hb : AppliedBatch H state batch out) : ∃ mid rest last i,
      ClosesDue H (dueSessions state batch.height) state mid ∧
      (∀ e ∈ rest, e ∈ batch.events ∧ e.kind ≠ "CLOSE") ∧
      applyEvents H state batch mid rest i = .ok last ∧
      out = { last with height := batch.height, tip := H.batch batch } := by
  obtain ⟨expected, hdue, hstart, hcount⟩ := hb.closes
  obtain ⟨last, hlast, hout⟩ := hb.events
  obtain ⟨closes, rest, hevents, hcloses⟩ := startsWithCloses_iff hstart
  rw [hevents] at hcount hlast
  rw [← hcloses.length_eq] at hcount
  obtain ⟨mid, hmid, hrest⟩ := applyEvents_append.mp hlast
  refine ⟨mid, rest, last, _, closesDue_of_closes hs (forall₂_dueCloses hdue hcloses) hmid,
    fun e he => ⟨?_, kind_ne_close_of_count hcount e he⟩, hrest, hout⟩
  rw [hevents]
  exact List.mem_append_right _ he

theorem Punctual.midBatch {state out : State} {batch : Batch} (hs : Punctual H state)
    (hb : AppliedBatch H state batch out) : MidBatch H state batch out ∧
      out.height = batch.height := by
  obtain ⟨mid, rest, last, i, hd, hrest, hlast, rfl⟩ := hb.closesDue hs.keyed
  have hm := midBatch_of_closes hs hb.height hd
  exact ⟨(hm.events (fun e he => (hrest e he).2) hlast).keep rfl rfl, rfl⟩

theorem Punctual.step {state out : State} (hs : Punctual H state) (h : Step H state out) :
    Punctual H out := by
  obtain ⟨batch, cert, available, h⟩ := h
  obtain ⟨hm, hheight⟩ := hs.midBatch (apply_eq_ok h)
  refine ⟨hm.keyed, fun sid s hget => ?_⟩
  rw [hm.window, hheight]
  exact hm.onTime sid s hget

theorem Punctual.init {state : State} (hinit : state.sessions = []) : Punctual H state := by
  refine ⟨⟨by simp [hinit, Table.keys], ?_⟩, ?_⟩ <;> intro sid s h <;> simp [hinit] at h

theorem punctual_of_reachable {initial state : State} (hinit : initial.sessions = [])
    (hs : Reachable H initial state) : Punctual H state := by
  induction hs with
  | refl => exact .init hinit
  | tail _ hstep ih => exact ih.step hstep

/-- The law of closing in a state: every session is on time, and every batch that is
accepted next only lets the sessions evolve. -/
structure ClosingLaw (H : Hashing) (state : State) : Prop where
  onTime : ∀ sid s, state.sessions.get? sid = some s → OnTime H state.window state.height s
  evolve : ∀ out, Step H state out → SessionsEvolve out.height state out

/-- In every state that accepted batches reach from one without sessions, the sessions
obey the law of closing. -/
theorem closingLaw_of_reachable {initial state : State} (hinit : initial.sessions = [])
    (hs : Reachable H initial state) : ClosingLaw H state := by
  have hpunctual := punctual_of_reachable hinit hs
  refine ⟨hpunctual.onTime, ?_⟩
  rintro out ⟨batch, cert, available, h⟩
  obtain ⟨hm, hheight⟩ := hpunctual.midBatch (apply_eq_ok h)
  rw [hheight]
  exact hm.evolve

theorem closingLaw_sampleRun : ∃ voted closed settled,
    sampleRun = .ok (voted, closed, settled) ∧ ClosingLaw sampleHashing closed ∧
    closed.sessions.map (fun e => (e.2.opened, e.2.close, e.2.closed.isSome)) =
      [(1, 3, true)] := by
  obtain ⟨voted, closed, settled, h⟩ := sampleRun_ok
  refine ⟨voted, closed, settled, h,
    @closingLaw_of_reachable _ sampleInitial _ rfl (reachable_sampleRun h).1, ?_⟩
  have hsessions : sampleRun.map (fun r =>
      r.2.1.sessions.map fun e => (e.2.opened, e.2.close, e.2.closed.isSome)) =
      .ok [(1, 3, true)] := by decide +kernel
  rw [h] at hsessions
  exact Except.ok.inj hsessions

end ReviewJournal

end ZoidbergChain
