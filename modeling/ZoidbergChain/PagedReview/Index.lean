import ZoidbergChain.PagedReview.Model

/-!
# Every review session is in one place

- `Indexed` is what the list of waiting sessions and the ordered expiry list must say of the
  sessions. Each loop of a step keeps it.
- `closePage_spec`: the page closes the entries it names, in order, and nothing else.
- `indexLaw_of_reachable`: in every reachable state each session is pending, listed or closed,
  and the next step closes the first due entries, at most a page of them.
-/

namespace ZoidbergChain

open Python

namespace PagedReview

/-! ## The order of the entries -/

namespace Entry

theorem before_irrefl (a : Entry) : ¬a.before a := by
  simp [before]

theorem before_trans {a b c : Entry} (hab : a.before b) (hbc : b.before c) : a.before c := by
  unfold before at *
  obtain hlt | ⟨heq, hsid⟩ := hab
  · obtain h | ⟨h, -⟩ := hbc
    · exact Or.inl (by omega)
    · exact Or.inl (by omega)
  · obtain h | ⟨h, hsid'⟩ := hbc
    · exact Or.inl (by omega)
    · exact Or.inr ⟨by omega, hsid.trans hsid'⟩

theorem before_or_eq_or_before (a b : Entry) : a.before b ∨ a = b ∨ b.before a := by
  unfold before
  obtain hlt | heq | hgt := lt_trichotomy a.1 b.1
  · exact Or.inl (Or.inl hlt)
  · obtain hsid | hsid | hsid := lt_trichotomy a.2 b.2
    · exact Or.inl (Or.inr ⟨heq, hsid⟩)
    · exact Or.inr (Or.inl (Prod.ext heq hsid))
    · exact Or.inr (Or.inr (Or.inr ⟨heq.symm, hsid⟩))
  · exact Or.inr (Or.inr (Or.inl hgt))

theorem before_le {a b : Entry} (h : a.before b) : a.1 ≤ b.1 := by
  obtain hlt | ⟨heq, -⟩ := h
  · exact hlt.le
  · exact heq.le

end Entry

theorem insort_perm (e : Entry) (es : List Entry) : (insort e es).Perm (e :: es) := by
  induction es with
  | nil => exact List.Perm.refl _
  | cons f es ih =>
    rw [insort]
    split
    · exact List.Perm.refl _
    · exact (ih.cons f).trans (List.Perm.swap e f es)

theorem mem_insort {e f : Entry} {es : List Entry} : f ∈ insort e es ↔ f = e ∨ f ∈ es := by
  rw [(insort_perm e es).mem_iff, List.mem_cons]

/-- A new entry goes to its place. -/
theorem insort_sorted {e : Entry} {es : List Entry} (hsorted : es.Pairwise Entry.before)
    (hnew : e ∉ es) : (insort e es).Pairwise Entry.before := by
  induction es with
  | nil => simp [insort]
  | cons f es ih =>
    obtain ⟨hf, hes⟩ := List.pairwise_cons.mp hsorted
    obtain ⟨hne, hnew⟩ := not_or.mp (mt List.mem_cons.mpr hnew)
    rw [insort]
    split
    · next hbefore =>
      refine List.pairwise_cons.mpr ⟨fun g hg => ?_, hsorted⟩
      obtain rfl | hg := List.mem_cons.mp hg
      · exact hbefore
      · exact Entry.before_trans hbefore (hf g hg)
    · next hbefore =>
      refine List.pairwise_cons.mpr ⟨fun g hg => ?_, ih hes hnew⟩
      obtain rfl | hg := mem_insort.mp hg
      · exact ((Entry.before_or_eq_or_before g f).resolve_left hbefore).resolve_left hne
      · exact hf g hg

/-- The entry is due. -/
def Entry.due (lower : Int) (e : Entry) : Bool := e.1 ≤ lower

/-- In a sorted list the due entries are the first ones. -/
theorem filter_take_due {es : List Entry} (hsorted : es.Pairwise Entry.before) (lower : Int)
    (n : Nat) :
    (es.take n).filter (Entry.due lower) =
      es.take (min n (es.filter (Entry.due lower)).length) := by
  induction es generalizing n with
  | nil => simp
  | cons e es ih =>
    obtain ⟨he, hes⟩ := List.pairwise_cons.mp hsorted
    cases n with
    | zero => simp
    | succ n =>
      by_cases hdue : Entry.due lower e = true
      · simp [hdue, ih hes n, Nat.succ_min_succ]
      · -- behind an entry that is not due none is
        have hnone : es.filter (Entry.due lower) = [] := by
          rw [List.filter_eq_nil_iff]
          intro f hf hfdue
          have hle := Entry.before_le (he f hf)
          simp only [Entry.due, decide_eq_true_eq] at hdue hfdue
          omega
        simp [hdue, hnone, ih hes n]

/-! ## The places -/

/-- What the lists say of a session: those without a deadline wait, those with one are
listed until they are closed. -/
structure Placed (waiting : List String) (expiry : List Entry) (height : Int) (s : Session) :
    Prop where
  pending : s.sid ∈ waiting ↔ s.deadline = none
  listed : ∀ d, (d, s.sid) ∈ expiry ↔ s.deadline = some d ∧ s.close = none
  unset : s.deadline = none → s.close = none ∧ s.opened = height

/-- The waiting sessions and the expiry list index the sessions. -/
structure Indexed (waiting : List String) (expiry : List Entry) (height : Int)
    (sessions : Table String Session) : Prop where
  keys : sessions.keys.Nodup
  named : ∀ sid s, sessions.get? sid = some s → s.sid = sid
  nodup : waiting.Nodup
  sorted : expiry.Pairwise Entry.before
  waits : ∀ sid ∈ waiting, ∃ s, sessions.get? sid = some s
  expires : ∀ e ∈ expiry, ∃ s, sessions.get? e.2 = some s
  placed : ∀ sid s, sessions.get? sid = some s → Placed waiting expiry height s

section Indexed

variable {waiting waiting' : List String} {expiry expiry' : List Entry} {height : Int}
  {sessions : Table String Session} {sid : String} {s s' : Session}

/-- One session changes its place, the lists say the same of the others. -/
theorem Indexed.update (h : Indexed waiting expiry height sessions) (hsid : s'.sid = sid)
    (hnodup : waiting'.Nodup) (hsorted : expiry'.Pairwise Entry.before)
    (hwaiting : ∀ k, k ≠ sid → (k ∈ waiting' ↔ k ∈ waiting))
    (hexpiry : ∀ d k, k ≠ sid → ((d, k) ∈ expiry' ↔ (d, k) ∈ expiry))
    (hplaced : Placed waiting' expiry' height s') :
    Indexed waiting' expiry' height (sessions.set sid s') := by
  have hget : ∀ k, k ≠ sid → (sessions.set sid s').get? k = sessions.get? k :=
    fun k hk => Table.get?_set_of_ne (Ne.symm hk)
  constructor
  case keys => exact Table.keys_set_nodup h.keys
  case named =>
    intro k t ht
    obtain ⟨rfl, rfl⟩ | ⟨-, ht⟩ := Table.get?_set_eq_some.mp ht
    · exact hsid
    · exact h.named k t ht
  case nodup => exact hnodup
  case sorted => exact hsorted
  case waits =>
    intro k hk
    by_cases heq : k = sid
    · exact ⟨s', heq ▸ Table.get?_set_self ..⟩
    · rw [hget k heq]
      exact h.waits k ((hwaiting k heq).mp hk)
  case expires =>
    rintro ⟨d, k⟩ hk
    show ∃ t, (sessions.set sid s').get? k = some t
    by_cases heq : k = sid
    · exact ⟨s', heq ▸ Table.get?_set_self ..⟩
    · rw [hget k heq]
      exact h.expires (d, k) ((hexpiry d k heq).mp hk)
  case placed =>
    intro k t ht
    obtain ⟨rfl, rfl⟩ | ⟨hne, ht⟩ := Table.get?_set_eq_some.mp ht
    · exact hplaced
    · have hname := h.named k t ht
      have hold := h.placed k t ht
      refine ⟨?_, fun d => ?_, hold.unset⟩
      · rw [hname, hwaiting k hne, ← hname]
        exact hold.pending
      · rw [hname, hexpiry d k hne, ← hname]
        exact hold.listed d

/-- The session keeps its place. -/
theorem Indexed.keep (h : Indexed waiting expiry height sessions)
    (hs : sessions.get? sid = some s) (hsid : s'.sid = s.sid) (hdeadline : s'.deadline = s.deadline)
    (hclose : s'.close = s.close) (hopened : s'.opened = s.opened) :
    Indexed waiting expiry height (sessions.set sid s') := by
  have hold := h.placed sid s hs
  refine h.update (hsid.trans (h.named sid s hs)) h.nodup h.sorted (fun _ _ => Iff.rfl)
    (fun _ _ _ => Iff.rfl) ⟨?_, fun d => ?_, ?_⟩
  · rw [hsid, hdeadline]
    exact hold.pending
  · rw [hsid, hdeadline, hclose]
    exact hold.listed d
  · rw [hdeadline, hclose, hopened]
    exact hold.unset

/-- A listed session is closed. -/
theorem Indexed.close {d : Int} (h : Indexed waiting ((d, sid) :: expiry) height sessions)
    (hs : sessions.get? sid = some s) (hsid : s'.sid = s.sid)
    (hdeadline : s'.deadline = s.deadline) (hclose : s'.close ≠ none) :
    Indexed waiting expiry height (sessions.set sid s') := by
  have hname := h.named sid s hs
  have hold := h.placed sid s hs
  obtain ⟨hbefore, hsorted⟩ := List.pairwise_cons.mp h.sorted
  obtain ⟨hd, -⟩ := (hold.listed d).mp (by simp [hname])
  refine h.update (hsid.trans hname) h.nodup hsorted (fun _ _ => Iff.rfl) (fun d' k hk => ?_)
    ⟨?_, fun d' => ?_, fun hnone => ?_⟩
  · simp [hk]
  · rw [hsid, hdeadline]
    exact hold.pending
  · -- the one entry of the session is gone
    refine iff_of_false (fun hmem => ?_) (fun hset => hclose hset.2)
    rw [hsid] at hmem
    obtain ⟨hd', -⟩ := (hold.listed d').mp (List.mem_cons_of_mem _ hmem)
    obtain rfl : d' = d := Option.some.inj (hd'.symm.trans hd)
    rw [hname] at hmem
    exact Entry.before_irrefl _ (hbefore _ hmem)
  · rw [hdeadline, hd] at hnone
    cases hnone

/-- A waiting session is listed. -/
theorem Indexed.start {d : Int} (h : Indexed (sid :: waiting) expiry height sessions)
    (hs : sessions.get? sid = some s) (hsid : s'.sid = s.sid) (hdeadline : s'.deadline = some d)
    (hclose : s'.close = s.close) :
    Indexed waiting (insort (d, sid) expiry) height (sessions.set sid s') := by
  have hname := h.named sid s hs
  have hold := h.placed sid s hs
  obtain ⟨hnew, hnodup⟩ := List.nodup_cons.mp h.nodup
  have hunset : s.deadline = none := hold.pending.mp (by simp [hname])
  -- no entry of the session is in the list
  have hnone : ∀ d', (d', sid) ∉ expiry := by
    intro d' hmem
    rw [← hname] at hmem
    rw [((hold.listed d').mp hmem).1] at hunset
    cases hunset
  refine h.update (hsid.trans hname) hnodup (insort_sorted h.sorted (hnone d)) (fun k hk => ?_)
    (fun d' k hk => ?_) ⟨?_, fun d' => ?_, fun hset => ?_⟩
  · simp [hk]
  · simp [mem_insort, hk]
  · simp [hsid, hname, hnew, hdeadline]
  · rw [mem_insort, hsid, hname, hdeadline, hclose, (hold.unset hunset).1]
    simp [hnone d', eq_comm]
  · rw [hdeadline] at hset
    cases hset

/-- A new session waits. -/
theorem Indexed.open (h : Indexed waiting expiry height sessions)
    (hnew : sessions.get? sid = none) (hsid : s'.sid = sid) (hdeadline : s'.deadline = none)
    (hclose : s'.close = none) (hopened : s'.opened = height) :
    Indexed (waiting ++ [sid]) expiry height (sessions.set sid s') := by
  have hnotin : sid ∉ waiting := by
    intro hmem
    obtain ⟨s, hs⟩ := h.waits sid hmem
    rw [hnew] at hs
    cases hs
  have hnone : ∀ d, (d, sid) ∉ expiry := by
    intro d hmem
    obtain ⟨s, hs⟩ := h.expires _ hmem
    rw [hnew] at hs
    cases hs
  refine h.update hsid ?_ h.sorted (fun k hk => ?_) (fun _ _ _ => Iff.rfl)
    ⟨?_, fun d => ?_, fun _ => ⟨hclose, hopened⟩⟩
  · rw [List.nodup_append]
    refine ⟨h.nodup, by simp, ?_⟩
    rintro k hk k' hk' rfl
    exact hnotin (List.mem_singleton.mp hk' ▸ hk)
  · simp [hk]
  · simp [hsid, hdeadline]
  · rw [hsid]
    exact iff_of_false (hnone d) (by simp [hdeadline])

/-- Where no session waits, the height does not matter. -/
theorem Indexed.at_height (h : Indexed [] expiry height sessions) (height' : Int) :
    Indexed [] expiry height' sessions := by
  refine { h with placed := fun sid s hs => ?_ }
  have hold := h.placed sid s hs
  refine { hold with unset := fun hunset => ?_ }
  exact absurd (hold.pending.mpr hunset) (by simp)

/-- No session has two entries. -/
theorem Indexed.entries_nodup (h : Indexed waiting expiry height sessions) :
    (expiry.map Prod.snd).Nodup := by
  have hinj : ∀ a ∈ expiry, ∀ b ∈ expiry, a.2 = b.2 → a = b := by
    rintro ⟨d, k⟩ ha ⟨d', k'⟩ hb heq
    obtain rfl : k = k' := heq
    obtain ⟨s, hs⟩ := h.expires _ ha
    obtain rfl : s.sid = k := h.named _ s hs
    have hold := h.placed _ s hs
    obtain ⟨hd, -⟩ := (hold.listed d).mp ha
    obtain ⟨hd', -⟩ := (hold.listed d').mp hb
    rw [Option.some.inj (hd.symm.trans hd')]
  have hnodup : expiry.Nodup := by
    refine h.sorted.imp ?_
    rintro a b hab rfl
    exact Entry.before_irrefl a hab
  exact List.Nodup.map_on hinj hnodup

end Indexed

/-! ## One step -/

section Step

variable {H : Hashing} {state out last : State} {args : Args} {report : Report} {m h : Int}

/-- Every session of `t` is in `t'`, related to what it was. -/
def Carried (R : Session → Session → Prop) (t t' : Table String Session) : Prop :=
  ∀ sid s, t.get? sid = some s → ∃ s', t'.get? sid = some s' ∧ R s s'

theorem Carried.refl {R : Session → Session → Prop} (hR : ∀ s, R s s) (t : Table String Session) :
    Carried R t t :=
  fun _ s hs => ⟨s, hs, hR s⟩

theorem Carried.trans {R : Session → Session → Prop} {t t' t'' : Table String Session}
    (h : Carried R t t') (h' : Carried R t' t'') (hR : ∀ {a b c}, R a b → R b c → R a c) :
    Carried R t t'' := by
  intro sid s hs
  obtain ⟨s', hs', hrel⟩ := h sid s hs
  obtain ⟨s'', hs'', hrel'⟩ := h' sid s' hs'
  exact ⟨s'', hs'', hR hrel hrel'⟩

theorem Carried.set {R : Session → Session → Prop} (hR : ∀ s, R s s) {t : Table String Session}
    {sid : String} {s' : Session} (hs' : ∀ s, t.get? sid = some s → R s s') :
    Carried R t (t.set sid s') := by
  intro k s hs
  by_cases heq : sid = k
  · subst heq
    exact ⟨s', Table.get?_set_self .., hs' s hs⟩
  · exact ⟨s, by rwa [Table.get?_set_of_ne heq], hR s⟩

/-- The page closes its entries in order and leaves the other sessions alone. -/
theorem closePage_spec {boundaries : List (Int × Int)} {waiting : List String}
    {es tail : List Entry} {height : Int} {index : Nat} {rows : List CloseRow}
    (hidx : Indexed waiting (es ++ tail) height out.sessions) (hexpiry : out.expiry = es ++ tail)
    (hok : closePage boundaries h out (es.map Prod.snd) index = .ok (last, rows)) :
    (∃ sessions, last = { out with sessions, expiry := tail } ∧
      sessions.keys = out.sessions.keys) ∧
    Indexed waiting tail height last.sessions ∧
    rows.map CloseRow.sid = es.map Prod.snd ∧
    (∀ sid ∉ es.map Prod.snd, last.sessions.get? sid = out.sessions.get? sid) ∧
    ∀ row ∈ rows, ∃ s closePosition, out.sessions.get? row.sid = some s ∧
      last.sessions.get? row.sid = some { s with close := some row, closePosition } := by
  induction es generalizing out index rows with
  | nil =>
    obtain ⟨rfl, rfl⟩ := Prod.mk.inj (Except.ok.inj hok)
    exact ⟨⟨out.sessions, by rw [← List.nil_append tail, ← hexpiry], rfl⟩, hidx, rfl,
      fun _ _ => rfl, nofun⟩
  | cons e es ih =>
    obtain ⟨d', sid⟩ := e
    rw [List.map_cons, closePage] at hok
    obtain ⟨s, hs, hok⟩ := bind_eq_ok.mp hok
    obtain ⟨d, hd, hok⟩ := bind_eq_ok.mp hok
    obtain ⟨f, -, hok⟩ := bind_eq_ok.mp hok
    obtain ⟨expiry, hremove, hok⟩ := bind_eq_ok.mp hok
    obtain ⟨⟨last', rows'⟩, hrest, hok⟩ := bind_eq_ok.mp hok
    obtain ⟨rfl, rfl⟩ := Prod.mk.inj (Except.ok.inj hok)
    rw [orRaise_eq_ok] at hs hd
    obtain rfl : s.sid = sid := hidx.named _ s hs
    -- the removed entry is the first one
    obtain ⟨hd', -⟩ := ((hidx.placed _ s hs).listed d').mp (by simp)
    obtain rfl : d' = d := Option.some.inj (hd'.symm.trans hd)
    have hexpiry' : expiry = es ++ tail := by
      rw [removeEntry, hexpiry, List.cons_append, if_pos (List.mem_cons_self ..),
        List.erase_cons_head] at hremove
      exact (Except.ok.inj hremove).symm
    have hnotin : s.sid ∉ es.map Prod.snd := by
      have hnodup := hidx.entries_nodup
      rw [List.cons_append, List.map_cons, List.nodup_cons, List.map_append] at hnodup
      exact fun hmem => hnodup.1 (List.mem_append_left _ hmem)
    have hidx₁ : Indexed waiting (es ++ tail) height (out.sessions.set s.sid
        { s with close := some (closeRow s d' f), closePosition := some (h, index) }) :=
      hidx.close hs rfl rfl (Option.some_ne_none _)
    obtain ⟨⟨sessions, rfl, hkeys⟩, hidx', hrows, hothers, hclosed⟩ := ih hidx₁ hexpiry' hrest
    refine ⟨⟨sessions, rfl, ?_⟩, hidx', ?_, fun k hk => ?_, fun row hrow => ?_⟩
    · rw [hkeys]
      refine Table.keys_set_of_mem ?_
      by_contra hnot
      rw [Table.get?_eq_none.mpr hnot] at hs
      cases hs
    · simp [hrows, closeRow]
    · obtain ⟨hne, hk⟩ := not_or.mp (mt List.mem_cons.mpr hk)
      rw [hothers k hk, Table.get?_set_of_ne (Ne.symm hne)]
    · obtain rfl | hrow := List.mem_cons.mp hrow
      · refine ⟨s, some (h, index), hs, ?_⟩
        show sessions.get? s.sid = _
        rw [hothers s.sid hnotin]
        exact Table.get?_set_self ..
      · obtain ⟨t, closePosition, ht, hlast⟩ := hclosed row hrow
        have hne : row.sid ≠ s.sid := by
          intro heq
          have hmem : row.sid ∈ es.map Prod.snd := hrows ▸ List.mem_map_of_mem hrow
          exact hnotin (heq ▸ hmem)
        exact ⟨t, closePosition, by rwa [Table.get?_set_of_ne (Ne.symm hne)] at ht, hlast⟩

/-- The page is the first due entries. -/
theorem page_eq (hsorted : state.expiry.Pairwise Entry.before) (lower : Int) :
    page state lower = (state.expiry.take
      (min pageSize (state.expiry.filter (Entry.due lower)).length)).map Prod.snd := by
  rw [← filter_take_due hsorted]
  rfl

theorem startPending_frame {sids : List String} (hok : startPending m h out sids = .ok last) :
    ∃ sessions expiry, last = { out with sessions, expiry } := by
  refine startPending_rule
    (P := fun _ next => ∃ sessions expiry, next = { out with sessions, expiry })
    ?_ hok ⟨_, _, rfl⟩
  rintro next sid rest s ⟨sessions, expiry, rfl⟩ -
  exact ⟨_, _, rfl⟩

/-- The close of a session stays. -/
def SameClose (s s' : Session) : Prop := s'.close = s.close

theorem SameClose.refl (s : Session) : SameClose s s := rfl

theorem SameClose.trans {s s' s'' : Session} (h : SameClose s s') (h' : SameClose s' s'') :
    SameClose s s'' :=
  Eq.trans h' h

theorem startPending_indexed {height : Int} {sids : List String}
    (hok : startPending m h out sids = .ok last)
    (hidx : Indexed sids out.expiry height out.sessions) :
    Indexed [] last.expiry height last.sessions ∧ Carried SameClose out.sessions last.sessions := by
  refine startPending_rule (P := fun rest next => Indexed rest next.expiry height next.sessions ∧
    Carried SameClose out.sessions next.sessions) ?_ hok ⟨hidx, Carried.refl SameClose.refl _⟩
  rintro next sid rest s ⟨hidx, hcarried⟩ hs
  refine ⟨hidx.start hs rfl rfl rfl,
    hcarried.trans (Carried.set SameClose.refl ?_) SameClose.trans⟩
  intro t ht
  obtain rfl := Option.some.inj (ht.symm.trans hs)
  rfl

theorem Admission.indexed {v : VoteFact} {index : Nat} {waiting : List String} {height : Int}
    (hvote : Admission out v h index last) (hidx : Indexed waiting out.expiry height out.sessions) :
    Indexed waiting last.expiry height last.sessions ∧
      Carried SameClose out.sessions last.sessions ∧ last.expiry = out.expiry ∧
      last.pending = out.pending := by
  -- both updates keep the place of the session of the vote
  have hset : ∀ (next : State) (s s' : Session), next.sessions = out.sessions.set v.sid s' →
      next.expiry = out.expiry → next.pending = out.pending → out.sessions.get? v.sid = some s →
      s'.sid = s.sid → s'.deadline = s.deadline → s'.close = s.close → s'.opened = s.opened →
      Indexed waiting next.expiry height next.sessions ∧
        Carried SameClose out.sessions next.sessions ∧ next.expiry = out.expiry ∧
        next.pending = out.pending := by
    intro next s s' hsessions hexpiry hpending hs hsid hdeadline hclose hopened
    rw [hsessions, hexpiry, hpending]
    refine ⟨hidx.keep hs hsid hdeadline hclose hopened, Carried.set SameClose.refl ?_, rfl, rfl⟩
    intro t ht
    obtain rfl := Option.some.inj (ht.symm.trans hs)
    exact hclose
  cases hvote with
  | refused => exact ⟨hidx, Carried.refl SameClose.refl _, rfl, rfl⟩
  | conflict s conflicts hs => exact hset _ s _ rfl rfl rfl hs rfl rfl rfl rfl
  | admitted s d c started status fold charged hs hd hc hstarted hheight hopen hslot hstatus hvoter
      hcharged =>
    obtain ⟨rfl, -⟩ | ⟨rfl, -⟩ := hcharged
    · exact hset _ s _ rfl rfl rfl hs rfl rfl rfl rfl
    · exact hset _ s _ rfl rfl rfl hs rfl rfl rfl rfl

theorem admitAll_indexed {votes : List VoteFact} {index : Nat} {observations : List String}
    {waiting : List String} {height : Int}
    (hok : admitAll H h out votes index = .ok (last, observations))
    (hidx : Indexed waiting out.expiry height out.sessions) :
    Indexed waiting last.expiry height last.sessions ∧
      Carried SameClose out.sessions last.sessions ∧ last.expiry = out.expiry ∧
      last.pending = out.pending := by
  refine admitAll_rule (P := fun next => Indexed waiting next.expiry height next.sessions ∧
    Carried SameClose out.sessions next.sessions ∧ next.expiry = out.expiry ∧
    next.pending = out.pending) ?_ hok ⟨hidx, Carried.refl SameClose.refl _, rfl, rfl⟩
  rintro mid v index next ⟨hidx, hcarried, hexpiry, hpending⟩ hvote
  obtain ⟨hidx', hcarried', hexpiry', hpending'⟩ := hvote.indexed hidx
  exact ⟨hidx', hcarried.trans hcarried' SameClose.trans, hexpiry'.trans hexpiry,
    hpending'.trans hpending⟩

theorem opens_indexed {opens : List OpenFact}
    (hok : opens.foldlM (openOne H state) out = .ok last)
    (hidx : Indexed out.pending out.expiry (state.height + 1) out.sessions) :
    Indexed last.pending last.expiry (state.height + 1) last.sessions ∧
      Carried SameClose out.sessions last.sessions ∧ last.expiry = out.expiry ∧
      last.pending.length = out.pending.length + opens.length := by
  have hall := opens_rule (P := fun rest next =>
    Indexed next.pending next.expiry (state.height + 1) next.sessions ∧
    Carried SameClose out.sessions next.sessions ∧ next.expiry = out.expiry ∧
    next.pending.length + rest.length = out.pending.length + opens.length) ?_ hok
    ⟨hidx, Carried.refl SameClose.refl _, rfl, rfl⟩
  · simpa using hall
  rintro next o rest fold ⟨hidx, hcarried, hexpiry, hlength⟩ hnew
  refine ⟨hidx.open hnew rfl rfl rfl rfl,
    hcarried.trans (Carried.set SameClose.refl fun t ht => ?_) SameClose.trans, hexpiry, ?_⟩
  · rw [hnew] at ht
    cases ht
  · simpa [Nat.add_assoc, Nat.add_comm 1] using hlength

/-! ## The law -/

/-- The places of a session. -/
inductive Place
  | pending
  | listed
  | closed

/-- The session is at the place. -/
def Session.At (s : Session) (state : State) : Place → Prop
  | .pending => s.sid ∈ state.pending
  | .listed => ∃ d, (d, s.sid) ∈ state.expiry
  | .closed => ∃ row, s.close = some row

/-- The number of the sessions that are not closed and whose deadline the lower bound has
reached. -/
def State.dueCount (state : State) (lower : Int) : Nat :=
  (state.sessions.values.filter fun s => s.close = none ∧ s.expired lower).length

/-- A step closes the first due entries of the list, at most a page, in order, and no other
session. -/
structure ClosesFirst (state out : State) (report : Report) : Prop where
  first : report.closes.map CloseRow.sid =
    (state.expiry.take (min 16 (state.dueCount report.boundary.2))).map Prod.snd
  closed : ∀ row ∈ report.closes, ∃ s, out.sessions.get? row.sid = some s ∧ s.close = some row
  others : ∀ sid s, state.sessions.get? sid = some s → sid ∉ report.closes.map CloseRow.sid →
    ∃ s', out.sessions.get? sid = some s' ∧ s'.close = s.close
  lower : out.lower = report.boundary.2

/-- The bookkeeping of the sessions in a state, and of the steps from it. -/
structure IndexLaw (H : Hashing) (state : State) : Prop where
  keys : state.sessions.keys.Nodup
  place : ∀ sid s, state.sessions.get? sid = some s → s.sid = sid ∧ ∃! p, s.At state p
  pending : ∀ sid ∈ state.pending, ∃ s, state.sessions.get? sid = some s ∧
    s.deadline = none ∧ s.opened = state.height
  listed : ∀ d sid, (d, sid) ∈ state.expiry → ∃ s, state.sessions.get? sid = some s ∧
    s.deadline = some d ∧ s.close = none
  closed : ∀ sid s, state.sessions.get? sid = some s → s.close ≠ none → s.deadline ≠ none
  sorted : state.expiry.Pairwise Entry.before
  nodup : state.pending.Nodup ∧ (state.expiry.map Prod.snd).Nodup
  cap : state.expiry.length + state.pending.length ≤ 4096
  closes : ∀ args out report, step H state args = .ok (out, report) →
    ClosesFirst state out report

theorem Indexed.expires_iff {waiting : List String} {expiry : List Entry} {height : Int}
    {sessions : Table String Session} (hidx : Indexed waiting expiry height sessions) (d : Int)
    (sid : String) :
    (d, sid) ∈ expiry ↔
      ∃ s, sessions.get? sid = some s ∧ s.deadline = some d ∧ s.close = none := by
  constructor
  · intro hmem
    obtain ⟨s, hs⟩ := hidx.expires _ hmem
    obtain rfl : s.sid = sid := hidx.named _ s hs
    exact ⟨s, hs, ((hidx.placed _ s hs).listed d).mp hmem⟩
  · rintro ⟨s, hs, hset⟩
    obtain rfl : s.sid = sid := hidx.named _ s hs
    exact ((hidx.placed _ s hs).listed d).mpr hset

/-- The due entries are those of the due sessions. -/
theorem Indexed.dueCount_eq (hidx : Indexed state.pending state.expiry state.height state.sessions)
    (lower : Int) : (state.expiry.filter (Entry.due lower)).length = state.dueCount lower := by
  -- both sides list the same session ids once
  have hentries : ((state.expiry.filter (Entry.due lower)).map Prod.snd).Nodup :=
    hidx.entries_nodup.sublist (List.filter_sublist.map _)
  have hsids : state.sessions.values.map Session.sid = state.sessions.keys := by
    rw [Table.values, Table.keys, List.map_map]
    refine List.map_congr_left ?_
    rintro ⟨sid, s⟩ hmem
    exact hidx.named sid s (Table.get?_of_mem hidx.keys hmem)
  have hdue : ((state.sessions.values.filter fun s => s.close = none ∧ s.expired lower).map
      Session.sid).Nodup := by
    have hnodup : (state.sessions.values.map Session.sid).Nodup := hsids ▸ hidx.keys
    exact hnodup.sublist (List.filter_sublist.map _)
  have hperm : ((state.expiry.filter (Entry.due lower)).map Prod.snd).Perm
      ((state.sessions.values.filter fun s => s.close = none ∧ s.expired lower).map
        Session.sid) := by
    rw [List.perm_ext_iff_of_nodup hentries hdue]
    intro sid
    simp only [List.mem_map, List.mem_filter, Prod.exists, exists_eq_right, Entry.due,
      decide_eq_true_eq]
    constructor
    · rintro ⟨d, hmem, hd⟩
      obtain ⟨s, hs, hdeadline, hclose⟩ := (hidx.expires_iff d sid).mp hmem
      refine ⟨s, ⟨?_, hclose, d, hdeadline, hd⟩, hidx.named sid s hs⟩
      exact List.mem_map_of_mem (f := Prod.snd) (Table.mem_of_get? hs)
    · rintro ⟨s, ⟨hmem, hclose, d, hdeadline, hd⟩, rfl⟩
      obtain ⟨⟨sid, t⟩, hentry, rfl⟩ := List.mem_map.mp hmem
      have hs := Table.get?_of_mem hidx.keys hentry
      obtain rfl : t.sid = sid := hidx.named _ t hs
      exact ⟨d, (hidx.expires_iff d t.sid).mpr ⟨t, hs, hdeadline, hclose⟩, hd⟩
  have hlength := hperm.length_eq
  rwa [List.length_map, List.length_map] at hlength

/-- What a step does to the index. -/
theorem step_indexed (hidx : Indexed state.pending state.expiry state.height state.sessions)
    (hok : step H state args = .ok (out, report)) :
    Indexed out.pending out.expiry out.height out.sessions ∧
      out.expiry.length + out.pending.length ≤ 4096 ∧ ClosesFirst state out report := by
  obtain ⟨m, closed, started, voted, opened, tip, finalized, hst, rfl⟩ := step_eq_ok hok
  have hclose := hst.close
  rw [page_eq hidx.sorted, hidx.dueCount_eq] at hclose
  obtain ⟨⟨sessions, rfl, -⟩, hclosed, hrows, hothers, hrow⟩ :=
    closePage_spec (by rwa [List.take_append_drop]) (List.take_append_drop _ _).symm hclose
  obtain ⟨hstarted, hcarried₁⟩ := startPending_indexed hst.start hclosed
  obtain ⟨hvoted, hcarried₂, -, hpending⟩ :=
    admitAll_indexed hst.vote (hstarted.at_height (state.height + 1))
  have hpending : voted.pending = [] := hpending
  obtain ⟨hopened, hcarried₃, hexpiry, hlength⟩ :=
    opens_indexed hst.opens (by rw [hpending]; exact hvoted)
  -- behind the page no close changes
  have hcarried := (hcarried₁.trans hcarried₂ SameClose.trans).trans hcarried₃ SameClose.trans
  refine ⟨hopened, ?_, hrows, fun row hmem => ?_, fun sid s hs hnot => ?_, ?_⟩
  · show opened.expiry.length + opened.pending.length ≤ 4096
    rw [hexpiry, hlength, hpending, List.length_nil, Nat.zero_add]
    exact hst.cap
  · obtain ⟨s, closePosition, -, hs⟩ := hrow row hmem
    exact hcarried _ _ hs
  · rw [hrows] at hnot
    exact hcarried _ _ ((hothers sid hnot).trans hs)
  · rw [(step_clock hok).1]

theorem indexed_of_reachable (hs : Reachable H state) :
    Indexed state.pending state.expiry state.height state.sessions ∧
      state.expiry.length + state.pending.length ≤ 4096 := by
  induction hs with
  | refl =>
    constructor
    · constructor
      case keys => exact List.nodup_nil
      case named =>
        intro sid s hs
        cases hs
      case nodup => exact List.nodup_nil
      case sorted => exact List.Pairwise.nil
      case waits => exact nofun
      case expires => exact nofun
      case placed =>
        intro sid s hs
        cases hs
    · have hexpiry : ({} : State).expiry = [] := rfl
      have hpending : ({} : State).pending = [] := rfl
      rw [hexpiry, hpending]
      simp
  | tail _ hstep ih =>
    obtain ⟨args, report, hok⟩ := hstep
    obtain ⟨hidx, hcap, -⟩ := step_indexed ih.1 hok
    exact ⟨hidx, hcap⟩

/-- The place of a session is told by its deadline and its close. -/
theorem Indexed.place
    (hidx : Indexed state.pending state.expiry state.height state.sessions) {sid : String}
    {s : Session} (hs : state.sessions.get? sid = some s) : ∃! p, s.At state p := by
  have hplaced := hidx.placed sid s hs
  cases hdeadline : s.deadline with
  | none =>
    have hnot : ∀ d, (d, s.sid) ∉ state.expiry := by
      intro d hmem
      rw [((hplaced.listed d).mp hmem).1] at hdeadline
      cases hdeadline
    refine ⟨.pending, hplaced.pending.mpr hdeadline, fun p hp => ?_⟩
    cases p with
    | pending => rfl
    | listed => exact absurd hp.choose_spec (hnot _)
    | closed =>
      obtain ⟨row, hrow⟩ := hp
      rw [(hplaced.unset hdeadline).1] at hrow
      cases hrow
  | some d =>
    have hnot : s.sid ∉ state.pending := by
      rw [hplaced.pending, hdeadline]
      exact Option.some_ne_none d
    cases hclose : s.close with
    | none =>
      refine ⟨.listed, ⟨d, (hplaced.listed d).mpr ⟨hdeadline, hclose⟩⟩, fun p hp => ?_⟩
      cases p with
      | pending => exact absurd hp hnot
      | listed => rfl
      | closed =>
        obtain ⟨row, hrow⟩ := hp
        rw [hclose] at hrow
        cases hrow
    | some row =>
      refine ⟨.closed, ⟨row, hclose⟩, fun p hp => ?_⟩
      cases p with
      | pending => exact absurd hp hnot
      | listed =>
        obtain ⟨d', hmem⟩ := hp
        rw [((hplaced.listed d').mp hmem).2] at hclose
        cases hclose
      | closed => rfl

/-- The index of every reachable state is in order, and the steps from it close the first
due entries. -/
theorem indexLaw_of_reachable (hs : Reachable H state) : IndexLaw H state := by
  obtain ⟨hidx, hcap⟩ := indexed_of_reachable hs
  constructor
  case keys => exact hidx.keys
  case place => exact fun sid s hget => ⟨hidx.named sid s hget, hidx.place hget⟩
  case pending =>
    intro sid hmem
    obtain ⟨s, hget⟩ := hidx.waits sid hmem
    obtain rfl : s.sid = sid := hidx.named sid s hget
    have hplaced := hidx.placed _ s hget
    have hunset := hplaced.pending.mp hmem
    exact ⟨s, hget, hunset, (hplaced.unset hunset).2⟩
  case listed => exact fun d sid hmem => (hidx.expires_iff d sid).mp hmem
  case closed =>
    intro sid s hget hclose hunset
    exact hclose ((hidx.placed sid s hget).unset hunset).1
  case sorted => exact hidx.sorted
  case nodup => exact ⟨hidx.nodup, hidx.entries_nodup⟩
  case cap => exact hcap
  case closes => exact fun args out report hok => (step_indexed hidx hok).2.2

theorem reachable_sampleRun {voted closed : State} {three four : List (Int × Int)}
    (h : sampleRun = .ok ((voted, three), closed, four)) :
    Reachable sampleHashing voted ∧ Reachable sampleHashing closed := by
  have hstep : ∀ {state out : State} {boundaries boundaries' : List (Int × Int)} {reading : Int}
      {opens : List OpenFact} {votes : List VoteFact},
      sampleStep state boundaries reading opens votes = .ok (out, boundaries') →
      Step sampleHashing state out := by
    intro state out boundaries boundaries' reading opens votes h
    obtain ⟨⟨out', report⟩, hok, h⟩ := bind_eq_ok.mp h
    obtain ⟨rfl, -⟩ := Prod.mk.inj (Except.ok.inj h)
    exact ⟨_, report, hok⟩
  obtain ⟨⟨opened, one⟩, h₁, h⟩ := bind_eq_ok.mp h
  obtain ⟨⟨started, two⟩, h₂, h⟩ := bind_eq_ok.mp h
  obtain ⟨a, -, h⟩ := bind_eq_ok.mp h
  obtain ⟨⟨voted', three'⟩, h₃, h⟩ := bind_eq_ok.mp h
  obtain ⟨⟨closed', four'⟩, h₄, h⟩ := bind_eq_ok.mp h
  cases h
  have hvoted : Reachable sampleHashing voted :=
    ((Relation.ReflTransGen.single (hstep h₁)).tail (hstep h₂)).tail (hstep h₃)
  exact ⟨hvoted, hvoted.tail (hstep h₄)⟩

theorem indexLaw_sampleRun : ∃ voted three closed four,
    sampleRun = .ok ((voted, three), closed, four) ∧ IndexLaw sampleHashing voted ∧
    voted.expiry = [(1506, "a"), (1506, "b")] ∧
    closed.sessions.map (fun e => (e.1, e.2.close.isSome)) = [("a", true), ("b", true)] := by
  obtain ⟨voted, three, closed, four, h⟩ := sampleRun_ok
  have hrun : sampleRun.map (fun r =>
      (r.1.1.expiry, r.2.1.sessions.map fun e => (e.1, e.2.close.isSome))) =
      .ok ([(1506, "a"), (1506, "b")], [("a", true), ("b", true)]) := by decide +kernel
  rw [h] at hrun
  obtain ⟨hvoted, hclosed⟩ := Prod.mk.inj (Except.ok.inj hrun)
  exact ⟨voted, three, closed, four, h, indexLaw_of_reachable (reachable_sampleRun h).1, hvoted,
    hclosed⟩

end Step

end PagedReview

end ZoidbergChain
