import ZoidbergChain.PagedReview.Index

/-!
# The ledgers of the review sessions

- `SessionAccounts`: the counts of a session are those of its slots.
- `Ledger`: the quota table is that of the charges, and no wallet is over its quota.
- `accountingLaw_of_reachable`: both hold in every reachable state, charges are never taken
  back or repeated, and the clock moves at every step.
-/

namespace ZoidbergChain

open Python

namespace PagedReview

variable {H : Hashing} {state out last : State} {args : Args} {report : Report}

/-! ## The counts of a session -/

/-- `counts[d][c]`. -/
def cell (counts : List (List Nat)) (d c : Nat) : Nat := (counts.getD d []).getD c 0

/-- The slots of a dimension that pass a test. -/
def Session.slotsWith (s : Session) (d : Nat) (p : Slot → Bool) : List ((Nat × String) × Slot) :=
  s.slots.filter fun e => e.1.1 = d && p e.2

/-- Two rows of four counts. -/
structure IsGrid (counts : List (List Nat)) : Prop where
  rows : counts.length = 2
  columns : ∀ row ∈ counts, row.length = 4

/-- The counts of a session are those of its slots. -/
structure SessionAccounts (s : Session) : Prop where
  grid : IsGrid s.counts
  nodup : s.slots.keys.Nodup
  total : s.count = s.slots.length
  choices : ∀ d < 2, ∀ c < 3, cell s.counts d c = (s.slotsWith d fun slot => slot.choice = c).length
  established : ∀ d < 2, cell s.counts d 3 = (s.slotsWith d fun slot => slot.status = 2).length

theorem getD_modify {α : Type} (l : List α) (i j : Nat) (f : α → α) (a : α) (hj : j < l.length) :
    (l.modify i f).getD j a = if i = j then f (l.getD j a) else l.getD j a := by
  rw [List.getD_eq_getElem?_getD, List.getD_eq_getElem?_getD, List.getElem?_modify,
    List.getElem?_eq_getElem hj]
  split <;> simp_all

theorem IsGrid.addVote {counts : List (List Nat)} (h : IsGrid counts) (d c : Nat) (status : Int) :
    IsGrid (addVote counts d c status) := by
  refine ⟨by simp [PagedReview.addVote, h.rows], fun row hrow => ?_⟩
  obtain ⟨i, hi, rfl⟩ := List.getElem_of_mem hrow
  have hi' : i < counts.length := by simpa [PagedReview.addVote] using hi
  have hold := h.columns _ (List.getElem_mem hi')
  simp only [PagedReview.addVote, List.getElem_modify]
  split
  · simpa using hold
  · exact hold

/-- A vote adds one to its choice, and one to the established voters if it is one of them. -/
theorem cell_addVote {counts : List (List Nat)} (h : IsGrid counts) {d d' c c' : Nat}
    (hd' : d' < 2) (hc' : c' < 4) (status : Int) :
    cell (addVote counts d c status) d' c' = cell counts d' c' +
      (if d = d' ∧ c = c' then 1 else 0) + if d = d' ∧ c' = 3 ∧ status = 2 then 1 else 0 := by
  unfold cell addVote
  rw [getD_modify _ _ _ _ _ (h.rows ▸ hd')]
  by_cases hd : d = d'
  · have hrow : (counts.getD d' []).length = 4 := by
      rw [List.getD_eq_getElem?_getD, List.getElem?_eq_getElem (h.rows ▸ hd')]
      exact h.columns _ (List.getElem_mem _)
    rw [if_pos hd, getD_modify _ _ _ _ _ (by rw [List.length_modify]; omega),
      getD_modify _ _ _ _ _ (by omega)]
    by_cases hthree : 3 = c'
    · subst hthree
      by_cases hc : c = 3 <;> simp [hd, hc]
    · by_cases hc : c = c' <;> simp [hd, hc, hthree, Ne.symm hthree]
  · simp [hd]

theorem SessionAccounts.admitted {s : Session} (h : SessionAccounts s) {d c : Nat} {wallet : String}
    (hc : c < 3) (hslot : s.slots.get? (d, wallet) = none) (height : Int)
    (index : Nat) (status : Int) (fold : String) :
    SessionAccounts { s with
      slots := s.slots.set (d, wallet) { choice := c, height, index, status }
      count := s.count + 1, counts := addVote s.counts d c status, fold } := by
  -- the slot is a new one, at the end
  have hnew := Table.get?_eq_none.mp hslot
  have hslots := Table.set_of_notMem (a := ({ choice := c, height, index, status } : Slot)) hnew
  constructor
  case grid => exact h.grid.addVote d c status
  case nodup => exact Table.keys_set_nodup h.nodup
  case total =>
    show s.count + 1 = (s.slots.set _ _).length
    rw [hslots, List.length_append, h.total, List.length_singleton]
  case choices =>
    intro d' hd' c' hc'
    have hthree : c' ≠ 3 := by omega
    simp only [Session.slotsWith, hslots, cell_addVote h.grid hd' (by omega : c' < 4),
      h.choices d' hd' c' hc', List.filter_append, List.length_append]
    by_cases heq : d = d' ∧ c = c'
    · simp [heq, hthree]
    · have hfilter : ¬((d == d') && (c == c')) = true := by simpa using heq
      simp only [not_and] at heq
      by_cases hdd : d = d' <;> simp_all
  case established =>
    intro d' hd'
    have hthree : c ≠ 3 := by omega
    simp only [Session.slotsWith, hslots, cell_addVote h.grid hd' (by omega : 3 < 4),
      h.established d' hd', List.filter_append, List.length_append]
    by_cases hdd : d = d' <;> by_cases hstatus : status = 2 <;> simp [hdd, hstatus, hthree]

/-- What else changes in a session does not matter. -/
theorem SessionAccounts.of_same {s s' : Session} (h : SessionAccounts s)
    (hslots : s'.slots = s.slots) (hcount : s'.count = s.count) (hcounts : s'.counts = s.counts) :
    SessionAccounts s' := by
  have hwith : ∀ d p, s'.slotsWith d p = s.slotsWith d p := by
    intro d p
    rw [Session.slotsWith, hslots, Session.slotsWith]
  constructor
  case grid => exact hcounts ▸ h.grid
  case nodup => exact hslots ▸ h.nodup
  case total => rw [hcount, hslots, h.total]
  case choices =>
    intro d hd c hc
    rw [hcounts, hwith, h.choices d hd c hc]
  case established =>
    intro d hd
    rw [hcounts, hwith, h.established d hd]

theorem SessionAccounts.fresh (o : OpenFact) (state : State) (fold : String) :
    SessionAccounts (o.session state fold) := by
  have hzero : ∀ d < 2, ∀ c < 4, cell [[0, 0, 0, 0], [0, 0, 0, 0]] d c = 0 := by decide
  constructor
  case grid => exact ⟨rfl, by simp [OpenFact.session]⟩
  case nodup => exact List.nodup_nil
  case total => rfl
  case choices => exact fun d hd c hc => hzero d hd c (by omega)
  case established => exact fun d hd => hzero d hd 3 (by omega)

/-! ## Charges and quotas -/

/-- `used.get((wallet, epoch), 0)`. -/
def State.usedIn (state : State) (wallet : String) (epoch : Int) : Nat :=
  (state.used.get? (wallet, epoch)).getD 0

/-- The submissions charged to a wallet in an epoch. -/
def State.chargedIn (state : State) (wallet : String) (epoch : Int) : List String :=
  (state.charges.filter fun e => e.1.1 = wallet && e.2 = epoch).map fun e => e.1.2

/-- Every session lists the wallet as probationary. -/
def State.Probationary (state : State) (wallet : String) : Prop :=
  ∀ sid s, state.sessions.get? sid = some s → s.eligibility.get? wallet = some 1

/-- The quota table counts the charges, and no wallet is over its quota. -/
structure Ledger (state : State) : Prop where
  nodup : state.charges.keys.Nodup
  used : ∀ wallet epoch, state.usedIn wallet epoch = (state.chargedIn wallet epoch).length
  most : ∀ wallet epoch, state.usedIn wallet epoch ≤ 25
  probationary : ∀ wallet, state.Probationary wallet → ∀ epoch, state.usedIn wallet epoch ≤ 5

/-- The books of a state. -/
structure Books (state : State) : Prop where
  accounts : ∀ sid s, state.sessions.get? sid = some s → SessionAccounts s
  ledger : Ledger state

/-- A session is replaced by one with the same voters, or added, and nothing is charged. -/
theorem Books.set {sid : String} {s' : Session} (h : Books state)
    (hsessions : out.sessions = state.sessions.set sid s') (hcharges : out.charges = state.charges)
    (hused : out.used = state.used) (hs' : SessionAccounts s')
    (hvoters : ∀ s, state.sessions.get? sid = some s → s'.eligibility = s.eligibility) :
    Books out := by
  constructor
  · intro k s hs
    rw [hsessions] at hs
    obtain ⟨rfl, rfl⟩ | ⟨-, hs⟩ := Table.get?_set_eq_some.mp hs
    · exact hs'
    · exact h.accounts k s hs
  · have husedIn : ∀ wallet epoch, out.usedIn wallet epoch = state.usedIn wallet epoch := by
      intro wallet epoch
      rw [State.usedIn, hused, State.usedIn]
    constructor
    case nodup => exact hcharges ▸ h.ledger.nodup
    case used =>
      intro wallet epoch
      rw [husedIn, State.chargedIn, hcharges]
      exact h.ledger.used wallet epoch
    case most => exact fun wallet epoch => husedIn wallet epoch ▸ h.ledger.most wallet epoch
    case probationary =>
      intro wallet hall epoch
      rw [husedIn]
      refine h.ledger.probationary wallet (fun k s hs => ?_) epoch
      by_cases heq : sid = k
      · subst heq
        rw [← hvoters s hs]
        exact hall sid s' (by rw [hsessions, Table.get?_set_self])
      · exact hall k s (by rwa [hsessions, Table.get?_set_of_ne heq])

/-- A session is replaced by one with the same voters. -/
theorem Books.replace {sid : String} {s s' : Session} (h : Books state)
    (hs : state.sessions.get? sid = some s) (hsessions : out.sessions = state.sessions.set sid s')
    (hcharges : out.charges = state.charges) (hused : out.used = state.used)
    (hs' : SessionAccounts s') (hvoters : s'.eligibility = s.eligibility) : Books out := by
  refine h.set hsessions hcharges hused hs' fun t ht => ?_
  obtain rfl := Option.some.inj (ht.symm.trans hs)
  exact hvoters

/-- A submission is charged for the first time, below the quota of the voter. -/
theorem Books.charged {sid : String} {s : Session} {wallet : String} {status : Int}
    (h : Books state) (hs : state.sessions.get? sid = some s)
    (hstatus : s.eligibility.get? wallet = some status) (hvoter : status = 1 ∨ status = 2)
    (hnew : state.charges.get? (wallet, s.submission) = none)
    (hquota : (state.used.get? (wallet, state.epoch)).getD 0 < quota status) :
    Books (charge state wallet s.submission) := by
  have hcharges : (charge state wallet s.submission).charges =
      state.charges ++ [((wallet, s.submission), state.epoch)] :=
    Table.set_of_notMem (Table.get?_eq_none.mp hnew)
  -- one more is used, by this wallet and in this epoch
  have hused : ∀ wallet' epoch, (charge state wallet s.submission).usedIn wallet' epoch =
      state.usedIn wallet' epoch +
        if wallet = wallet' ∧ state.epoch = epoch then 1 else 0 := by
    intro wallet' epoch
    unfold State.usedIn PagedReview.charge
    rw [Table.get?_set]
    by_cases heq : wallet = wallet' ∧ state.epoch = epoch
    · obtain ⟨rfl, rfl⟩ := heq
      simp
    · simp [heq]
  refine ⟨h.accounts, ?_⟩
  constructor
  case nodup => exact Table.keys_set_nodup h.ledger.nodup
  case used =>
    intro wallet' epoch
    rw [hused, h.ledger.used, State.chargedIn, State.chargedIn, hcharges, List.length_map,
      List.length_map, List.filter_append, List.length_append]
    by_cases heq : wallet = wallet' ∧ state.epoch = epoch
    · simp [heq]
    · simp [heq]
  case most =>
    intro wallet' epoch
    rw [hused]
    have hle := h.ledger.most wallet' epoch
    split
    · next heq =>
      obtain ⟨rfl, rfl⟩ := heq
      have hlt : state.usedIn wallet state.epoch < 25 := by
        refine lt_of_lt_of_le hquota ?_
        unfold quota
        split <;> omega
      omega
    · exact hle
  case probationary =>
    intro wallet' hall epoch
    have hle := h.ledger.probationary wallet' hall epoch
    rw [hused]
    split
    · next heq =>
      obtain ⟨rfl, rfl⟩ := heq
      -- the session of the vote lists the wallet as probationary too
      obtain rfl : status = 1 := Option.some.inj (hstatus.symm.trans (hall sid s hs))
      have hlt : state.usedIn wallet state.epoch < 5 := hquota
      omega
    · exact hle

theorem Admission.books {v : VoteFact} {h : Int} {index : Nat}
    (hvote : Admission out v h index last) (hbooks : Books out) :
    Books last ∧ out.charges <+: last.charges := by
  cases hvote with
  | refused => exact ⟨hbooks, List.prefix_refl _⟩
  | conflict s conflicts hs =>
    have haccounts := @SessionAccounts.of_same s { s with conflicts } (hbooks.accounts v.sid s hs)
      rfl rfl rfl
    exact ⟨hbooks.replace hs rfl rfl rfl haccounts rfl, List.prefix_refl _⟩
  | admitted s d c started status fold charged hs hd hc hstarted hheight hopen hslot hstatus hvoter
      hcharged =>
    have haccounts := (hbooks.accounts v.sid s hs).admitted hc hslot h index status fold
    obtain ⟨rfl, -⟩ | ⟨rfl, hnew, hquota⟩ := hcharged
    · exact ⟨hbooks.replace hs rfl rfl rfl haccounts rfl, List.prefix_refl _⟩
    · have hcharge := hbooks.charged hs hstatus hvoter hnew hquota
      refine ⟨hcharge.replace hs rfl rfl rfl haccounts rfl, ?_⟩
      show out.charges <+: out.charges.set (v.wallet, s.submission) out.epoch
      rw [Table.set_of_notMem (Table.get?_eq_none.mp hnew)]
      exact List.prefix_append _ _

/-! ## Steps and runs -/

theorem step_books (hbooks : Books state) (hok : step H state args = .ok (out, report)) :
    Books out ∧ state.charges <+: out.charges := by
  obtain ⟨m, closed, started, voted, opened, tip, finalized, hst, rfl⟩ := step_eq_ok hok
  have hclosed := closePage_rule (P := fun _ next => Books next ∧ state.charges <+: next.charges)
    ?close hst.close ⟨hbooks, List.prefix_refl _⟩
  have hstarted := startPending_rule
    (P := fun _ next => Books next ∧ state.charges <+: next.charges) ?start hst.start hclosed
  have hticked : Books (started.tick m report.boundary.2) :=
    ⟨hstarted.1.accounts, ⟨hstarted.1.ledger.nodup, hstarted.1.ledger.used,
      hstarted.1.ledger.most, hstarted.1.ledger.probationary⟩⟩
  have hvoted := admitAll_rule (P := fun next => Books next ∧ state.charges <+: next.charges)
    ?vote hst.vote ⟨hticked, hstarted.2⟩
  have hopened := opens_rule (P := fun _ next => Books next ∧ state.charges <+: next.charges)
    ?opens hst.opens hvoted
  · exact ⟨⟨hopened.1.accounts, ⟨hopened.1.ledger.nodup, hopened.1.ledger.used,
      hopened.1.ledger.most, hopened.1.ledger.probationary⟩⟩, hopened.2⟩
  case close =>
    rintro next sid rest s d f index ⟨hnext, hprefix⟩ hs - - -
    exact ⟨hnext.replace hs rfl rfl rfl ((hnext.accounts sid s hs).of_same rfl rfl rfl) rfl,
      hprefix⟩
  case start =>
    rintro next sid rest s ⟨hnext, hprefix⟩ hs
    exact ⟨hnext.replace hs rfl rfl rfl ((hnext.accounts sid s hs).of_same rfl rfl rfl) rfl,
      hprefix⟩
  case vote =>
    rintro mid v index next ⟨hmid, hprefix⟩ hvote
    obtain ⟨hnext, hprefix'⟩ := hvote.books hmid
    exact ⟨hnext, hprefix.trans hprefix'⟩
  case opens =>
    rintro next o rest fold ⟨hnext, hprefix⟩ hnew
    refine ⟨hnext.set rfl rfl rfl (.fresh o state fold) fun s hs => ?_, hprefix⟩
    rw [hnew] at hs
    cases hs

theorem books_of_reachable (hs : Reachable H state) : Books state := by
  induction hs with
  | refl =>
    refine ⟨fun sid s hget => ?_, ⟨List.nodup_nil, ?_, ?_, ?_⟩⟩
    · cases hget
    · exact fun _ _ => rfl
    · exact fun _ _ => Nat.zero_le _
    · exact fun _ _ _ => Nat.zero_le _
  | tail _ hstep ih =>
    obtain ⟨args, report, hok⟩ := hstep
    exact (step_books ih hok).1

theorem lower_le_median_of_reachable (hs : Reachable H state) : state.lower ≤ state.median := by
  induction hs with
  | refl => exact le_refl _
  | tail _ hstep ih =>
    obtain ⟨args, report, hok⟩ := hstep
    obtain ⟨-, -, hlower, -⟩ := step_clock hok
    omega

/-- The ledgers of a state, and what the steps from it do to them. -/
structure AccountingLaw (H : Hashing) (state : State) : Prop where
  accounts : ∀ sid s, state.sessions.get? sid = some s → SessionAccounts s
  ledger : Ledger state
  /-- A charge stays, so no later step charges its submission to the wallet again. -/
  once : ∀ last, Relation.ReflTransGen (Step H) state last →
    state.charges <+: last.charges ∧ last.charges.keys.Nodup
  clock : ∀ out, Step H state out → state.median < out.median ∧ state.lower < out.lower

/-- The ledgers of every reachable state are in step. -/
theorem accountingLaw_of_reachable (hs : Reachable H state) : AccountingLaw H state := by
  have hbooks := books_of_reachable hs
  constructor
  case accounts => exact hbooks.accounts
  case ledger => exact hbooks.ledger
  case once =>
    intro last hlater
    have hall : Books last ∧ state.charges <+: last.charges := by
      induction hlater with
      | refl => exact ⟨hbooks, List.prefix_refl _⟩
      | tail _ hstep ih =>
        obtain ⟨args, report, hok⟩ := hstep
        obtain ⟨hlast, hprefix⟩ := step_books ih.1 hok
        exact ⟨hlast, ih.2.trans hprefix⟩
    exact ⟨hall.2, hall.1.ledger.nodup⟩
  case clock =>
    rintro out ⟨args, report, hok⟩
    obtain ⟨-, -, hlower, hmedian⟩ := step_clock hok
    have hle := lower_le_median_of_reachable hs
    exact ⟨by omega, by omega⟩

theorem accountingLaw_sampleRun : ∃ voted three closed four,
    sampleRun = .ok ((voted, three), closed, four) ∧ AccountingLaw sampleHashing voted ∧
    voted.sessions.map (fun e => (e.2.counts, e.2.count)) =
      [([[1, 1, 0, 1], [0, 0, 0, 0]], 2), ([[0, 0, 0, 0], [0, 0, 0, 0]], 0)] ∧
    voted.used = [(("w", 1), 1), (("v", 1), 1)] := by
  obtain ⟨voted, three, closed, four, h⟩ := sampleRun_ok
  have hrun : sampleRun.map (fun r =>
      (r.1.1.sessions.map fun e => (e.2.counts, e.2.count), r.1.1.used)) =
      .ok ([([[1, 1, 0, 1], [0, 0, 0, 0]], 2), ([[0, 0, 0, 0], [0, 0, 0, 0]], 0)],
        [(("w", 1), 1), (("v", 1), 1)]) := by decide +kernel
  rw [h] at hrun
  obtain ⟨hcounts, hused⟩ := Prod.mk.inj (Except.ok.inj hrun)
  exact ⟨voted, three, closed, four, h, accountingLaw_of_reachable (reachable_sampleRun h).1,
    hcounts, hused⟩

end PagedReview

end ZoidbergChain
