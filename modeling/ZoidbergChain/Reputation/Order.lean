import ZoidbergChain.Reputation.Ledger

/-!
# The order of offenses

When the penalties of a reviewer do not depend on the order in which the offenses arrive.

- `Stays` are the windows that are there in every order: the suspension at an epoch that three
  offenses of a type have for sure, and the cooldowns of a type whose offenses all have one epoch.
- `Settled`: every offense, as the last one of its type, has its window inside one that stays.
- `settled_iff`: that is the case exactly when all orders have the same effect at every epoch.
-/

namespace ZoidbergChain

open Python Windows

namespace Reputation

/-! ## Finite sets of offenses -/

/-- Escalating offenses of one reviewer; an identity fixes the type, which it is a hash of. -/
structure Incidents (reviewer : String) (offenses : List Offense) : Prop where
  reviewer : ∀ o ∈ offenses, o.reviewerAddress = reviewer
  escalating : ∀ o ∈ offenses, o.offenseType.isEscalating = true
  types : ∀ o ∈ offenses, ∀ o' ∈ offenses, o.offenseId = o'.offenseId →
    o.offenseType = o'.offenseType

/-- The identities of a type. -/
def incidents (offenses : List Offense) (type : OffenseType) : List String :=
  ((offenses.filter (·.offenseType = type)).map Offense.offenseId).dedup

/-- The rank of the last offense of a type. -/
def steps (offenses : List Offense) (type : OffenseType) : Nat := (incidents offenses type).length

/-- The identities of a type that only come with one epoch. -/
def fixedAt (offenses : List Offense) (type : OffenseType) (epoch : Int) : List String :=
  (incidents offenses type).filter fun i =>
    offenses.all fun o => o.offenseId = i → o.reviewEpoch = epoch

/-- One of three offenses with this epoch is at least the third of its type. -/
def Suspends (offenses : List Offense) (epoch : Int) : Prop :=
  ∃ type, 3 ≤ (fixedAt offenses type epoch).length

/-- The epoch lies inside such a suspension. -/
def Suspended (offenses : List Offense) (epoch : Int) : Prop :=
  ∃ m, Suspends offenses m ∧ m ≤ epoch ∧ epoch < m + suspensionEpochs

/-- All offenses of a type have one epoch. -/
def Uniform (offenses : List Offense) (type : OffenseType) : Prop :=
  ∀ o ∈ offenses, ∀ o' ∈ offenses, o.offenseType = type → o'.offenseType = type →
    o.reviewEpoch = o'.reviewEpoch

/-- The windows that are there in every order. -/
inductive Stays (offenses : List Offense) : Window Int → Prop
  | suspension {m : Int} (h : Suspends offenses m) : Stays offenses ⟨m, m + suspensionEpochs, true⟩
  | cooldown {o : Offense} (ho : o ∈ offenses) (hsteps : steps offenses o.offenseType ≤ 2)
      (huniform : Uniform offenses o.offenseType) (hfree : ¬Suspended offenses o.reviewEpoch) :
      Stays offenses (window o (steps offenses o.offenseType))

/-- Suspensions are apart, and the longest window of every offense lies inside one that stays. -/
structure Settled (offenses : List Offense) : Prop where
  apart : ∀ m m', Suspends offenses m → Suspends offenses m' → m < m' → m + suspensionEpochs ≤ m'
  inside : ∀ o ∈ offenses, ∃ w, Stays offenses w ∧
    (window o (steps offenses o.offenseType)).Inside w

/-- The arrivals are the offenses, in some order and any number of times. -/
def Delivers (offenses arrivals : List Offense) : Prop := ∀ o, o ∈ arrivals ↔ o ∈ offenses

/-! ## Counting -/

section Counting

variable {offenses seen front back : List Offense} {type : OffenseType} {o : Offense}

theorem mem_incidents {i : String} : i ∈ incidents offenses type ↔
    ∃ o ∈ offenses, o.offenseType = type ∧ o.offenseId = i := by
  simp [incidents, and_assoc]

theorem nodup_incidents : (incidents offenses type).Nodup := List.nodup_dedup _

theorem steps_pos (ho : o ∈ offenses) : 1 ≤ steps offenses o.offenseType :=
  List.length_pos_of_mem (mem_incidents.mpr ⟨o, ho, rfl, rfl⟩)

theorem mem_fixedAt {i : String} {epoch : Int} : i ∈ fixedAt offenses type epoch ↔
    i ∈ incidents offenses type ∧ ∀ o ∈ offenses, o.offenseId = i → o.reviewEpoch = epoch := by
  simp [fixedAt, imp_iff_not_or]

theorem rankOf_eq_length : rankOf seen type =
    ((seen.filter (·.offenseType = type)).map Offense.offenseId).length := by
  rw [List.length_map, ← List.countP_eq_length_filter]
  rfl

theorem rankOf_split : rankOf (front ++ o :: back) type =
    rankOf front type + (if o.offenseType = type then 1 else 0) + rankOf back type := by
  simp only [rankOf, List.countP_append, List.countP_cons, decide_eq_true_eq]
  omega

theorem nodup_typed (hnodup : (seen.map Offense.offenseId).Nodup) (type : OffenseType) :
    ((seen.filter (·.offenseType = type)).map Offense.offenseId).Nodup :=
  hnodup.sublist ((List.filter_sublist ..).map _)

/-- Distinct offenses are no more than the identities they come from. -/
theorem rankOf_le {ids : List String} (hnodup : (seen.map Offense.offenseId).Nodup)
    (h : ∀ o ∈ seen, o.offenseType = type → o.offenseId ∈ ids) :
    rankOf seen type ≤ ids.length := by
  rw [rankOf_eq_length]
  refine (List.subperm_of_subset (nodup_typed hnodup type) fun i hi => ?_).length_le
  obtain ⟨o, ho, rfl⟩ := List.mem_map.mp hi
  obtain ⟨hmem, htype⟩ := List.mem_filter.mp ho
  exact h o hmem (of_decide_eq_true htype)

/-- Identities are no more than the offenses that have them. -/
theorem length_le_countP {ids : List String} {p : Offense → Bool} (hnodup : ids.Nodup)
    (h : ∀ i ∈ ids, ∃ o ∈ seen, p o = true ∧ o.offenseId = i) : ids.length ≤ seen.countP p := by
  rw [List.countP_eq_length_filter, ← List.length_map (f := Offense.offenseId)]
  refine (List.subperm_of_subset hnodup fun i hi => ?_).length_le
  obtain ⟨o, ho, hp, rfl⟩ := h i hi
  exact List.mem_map_of_mem (List.mem_filter.mpr ⟨ho, hp⟩)

/-- A list with more than `n` hits has one behind `n` others. -/
theorem exists_behind {α : Type*} {p : α → Bool} {xs : List α} {n : Nat} (h : n < xs.countP p) :
    ∃ front x back, xs = front ++ x :: back ∧ p x = true ∧ front.countP p = n := by
  induction xs generalizing n with
  | nil => simp at h
  | cons x xs ih =>
    by_cases hx : p x = true
    · cases n with
      | zero => exact ⟨[], x, xs, rfl, hx, rfl⟩
      | succ n =>
        rw [List.countP_cons_of_pos hx] at h
        obtain ⟨front, y, back, rfl, hy, hn⟩ := ih (by omega : n < xs.countP p)
        exact ⟨x :: front, y, back, rfl, hy, by rw [List.countP_cons_of_pos hx, hn]⟩
    · rw [List.countP_cons_of_neg hx] at h
      obtain ⟨front, y, back, rfl, hy, hn⟩ := ih h
      exact ⟨x :: front, y, back, rfl, hy, by rw [List.countP_cons_of_neg hx, hn]⟩

end Counting

/-! ## The ledgers of a set of offenses -/

section Ledgers

variable {reviewer : String} {offenses arrivals : List Offense}

/-- Where a window comes from. -/
theorem exists_origin {w : Window Int} (hw : w ∈ (ledger arrivals).windows) :
    ∃ o ∈ (ledger arrivals).seen, ∃ rank, 1 ≤ rank ∧
      rank ≤ rankOf (ledger arrivals).seen o.offenseType ∧ w = window o rank := by
  obtain ⟨front, o, back, hsplit, rfl⟩ := (ledger_of arrivals).origin w hw
  refine ⟨o, by rw [hsplit]; simp, _, Nat.le_add_left 1 _, ?_, rfl⟩
  rw [hsplit, rankOf_split, if_pos rfl]
  omega

variable (h : Incidents reviewer offenses) (harrivals : ∀ o ∈ arrivals, o ∈ offenses)

include harrivals

theorem mem_of_seen {o : Offense} (ho : o ∈ (ledger arrivals).seen) : o ∈ offenses :=
  harrivals o ((ledger_of arrivals).mem o ho)

theorem rankOf_le_steps (type : OffenseType) :
    rankOf (ledger arrivals).seen type ≤ steps offenses type :=
  rankOf_le (ledger_of arrivals).nodup fun o ho htype =>
    mem_incidents.mpr ⟨o, mem_of_seen harrivals ho, htype, rfl⟩

theorem exists_offense {w : Window Int} (hw : w ∈ (ledger arrivals).windows) :
    ∃ o ∈ offenses, ∃ rank, 1 ≤ rank ∧ rank ≤ steps offenses o.offenseType ∧ w = window o rank := by
  obtain ⟨o, ho, rank, hpos, hrank, rfl⟩ := exists_origin hw
  exact ⟨o, mem_of_seen harrivals ho, rank, hpos,
    hrank.trans (rankOf_le_steps harrivals o.offenseType), rfl⟩

include h

/-- A severe window is a suspension for a third offense. -/
theorem exists_heavy {w : Window Int} (hw : w ∈ (ledger arrivals).windows)
    (hsevere : w.severe = true) : ∃ o ∈ offenses, 3 ≤ steps offenses o.offenseType ∧
      w = ⟨o.reviewEpoch, o.reviewEpoch + suspensionEpochs, true⟩ := by
  obtain ⟨o, ho, rank, hpos, hrank, rfl⟩ := exists_offense harrivals hw
  have hthree := three_le_of_severe (h.escalating o ho) hpos hsevere
  exact ⟨o, ho, hthree.trans hrank, window_of_three_le (h.escalating o ho) hthree⟩

end Ledgers

section Delivered

variable {reviewer : String} {offenses arrivals : List Offense} (h : Incidents reviewer offenses)

include h

/-- The identities of the offenses have all arrived. -/
theorem exists_seen (hdelivers : Delivers offenses arrivals) {type : OffenseType} {i : String}
    (hi : i ∈ incidents offenses type) : ∃ o ∈ (ledger arrivals).seen,
      o ∈ offenses ∧ o.offenseType = type ∧ o.offenseId = i := by
  obtain ⟨o, ho, rfl, rfl⟩ := mem_incidents.mp hi
  obtain ⟨o', ho', hid⟩ :=
    List.mem_map.mp ((ledger_of arrivals).ids o ((hdelivers o).mpr ho))
  have hmem := (hdelivers o').mp ((ledger_of arrivals).mem o' ho')
  exact ⟨o', ho', hmem, h.types o' hmem o ho hid, hid⟩

end Delivered

/-! ## Settled offenses -/

section Settled

variable {reviewer : String} {offenses arrivals : List Offense}
variable (h : Incidents reviewer offenses) (hs : Settled offenses)

include h hs

/-- The third offense of a type has an epoch at which three have to be. -/
theorem suspends_of_settled {o : Offense} (ho : o ∈ offenses)
    (hsteps : 3 ≤ steps offenses o.offenseType) : Suspends offenses o.reviewEpoch := by
  obtain ⟨w, hw, hinside⟩ := hs.inside o ho
  rw [window_of_three_le (h.escalating o ho) hsteps] at hinside
  obtain ⟨hstart, hstop, hsevere⟩ := hinside
  cases hw with
  | @suspension m hm =>
    have hstart : m ≤ o.reviewEpoch := hstart
    have hstop : o.reviewEpoch + suspensionEpochs ≤ m + suspensionEpochs := hstop
    obtain rfl : m = o.reviewEpoch := by omega
    exact hm
  | @cooldown o' ho' hsteps' =>
    have hcooldown := (window_of_le_two (h.escalating o' ho') (steps_pos ho') hsteps').1
    rw [hcooldown] at hsevere
    cases hsevere rfl

/-- In a settled set a suspension is one of those that stay. -/
theorem suspends_of_severe (hdelivers : Delivers offenses arrivals) {x : Int}
    (hx : SevereAt (ledger arrivals).windows x) : ∃ m, Suspends offenses m ∧
      ⟨m, m + suspensionEpochs, true⟩ ∈ (ledger arrivals).windows ∧
      m ≤ x ∧ x < m + suspensionEpochs := by
  obtain ⟨w, hw, hactive, hsevere⟩ := hx
  obtain ⟨o, ho, hsteps, rfl⟩ := exists_heavy h (fun o => (hdelivers o).mp) hw hsevere
  exact ⟨o.reviewEpoch, suspends_of_settled h hs ho hsteps, hw, hactive.1, hactive.2⟩

/-- In every order the windows that stay are there. -/
theorem mem_windows_of_stays (hdelivers : Delivers offenses arrivals) {w : Window Int}
    (hw : Stays offenses w) : w ∈ (ledger arrivals).windows := by
  have hof := ledger_of arrivals
  have hmem : ∀ o ∈ (ledger arrivals).seen, o ∈ offenses :=
    fun o ho => (hdelivers o).mp (hof.mem o ho)
  cases hw with
  | @suspension m hm =>
    obtain ⟨type, hfixed⟩ := hm
    have hcount : 2 < (ledger arrivals).seen.countP
        fun o => o.offenseType = type ∧ o.reviewEpoch = m := by
      refine hfixed.trans (length_le_countP (nodup_incidents.filter _) fun i hi => ?_)
      obtain ⟨hincident, hepoch⟩ := mem_fixedAt.mp hi
      obtain ⟨o, ho, hoffense, htype, hid⟩ := exists_seen h hdelivers hincident
      exact ⟨o, ho, decide_eq_true ⟨htype, hepoch o hoffense hid⟩, hid⟩
    -- the third of them comes behind two others of its type
    obtain ⟨front, o, back, hsplit, ho, hfront⟩ := exists_behind hcount
    obtain ⟨rfl, rfl⟩ := of_decide_eq_true ho
    have hrank : 3 ≤ rankOf front o.offenseType + 1 := by
      have hle : front.countP (fun o' => o'.offenseType = o.offenseType ∧
          o'.reviewEpoch = o.reviewEpoch) ≤ rankOf front o.offenseType :=
        List.countP_mono_left fun o' _ hp => decide_eq_true (of_decide_eq_true hp).1
      omega
    have hoffense := hmem o (by rw [hsplit]; simp)
    rw [← window_of_three_le (h.escalating o hoffense) hrank]
    refine (hof.noted front o back hsplit).elim id fun hsevere => ?_
    obtain ⟨m, hm, hwindow, hle, hlt⟩ := suspends_of_severe h hs hdelivers hsevere
    have hapart := hs.apart m o.reviewEpoch hm ⟨o.offenseType, hfixed⟩
    obtain rfl : m = o.reviewEpoch := by omega
    rwa [window_of_three_le (h.escalating o hoffense) hrank]
  | @cooldown o ho hsteps huniform hfree =>
    have hcount : steps offenses o.offenseType - 1 <
        rankOf (ledger arrivals).seen o.offenseType := by
      have hpos := steps_pos ho
      have hle : steps offenses o.offenseType ≤ rankOf (ledger arrivals).seen o.offenseType :=
        length_le_countP nodup_incidents fun i hi => by
          obtain ⟨o', ho', -, htype, hid⟩ := exists_seen h hdelivers hi
          exact ⟨o', ho', decide_eq_true htype, hid⟩
      omega
    obtain ⟨front, o', back, hsplit, htype, hfront⟩ := exists_behind hcount
    have htype := of_decide_eq_true htype
    have hoffense := hmem o' (by rw [hsplit]; simp)
    have hepoch := huniform o' hoffense o ho htype rfl
    have hrank : rankOf front o'.offenseType + 1 = steps offenses o.offenseType := by
      have hpos := steps_pos ho
      have hfront : rankOf front o.offenseType = steps offenses o.offenseType - 1 := hfront
      rw [htype, hfront]
      omega
    have hsame : window o' (rankOf front o'.offenseType + 1) =
        window o (steps offenses o.offenseType) := by
      rw [hrank, window, window, htype, hepoch]
    rw [← hsame]
    refine (hof.noted front o' back hsplit).elim id fun hsevere => ?_
    obtain ⟨m, hm, -, hle, hlt⟩ := suspends_of_severe h hs hdelivers hsevere
    exact absurd ⟨m, hm, hepoch ▸ hle, hepoch ▸ hlt⟩ hfree

/-- In every order each window lies inside one that stays. -/
theorem covered_of_settled {arrivals' : List Offense} (hdelivers : Delivers offenses arrivals)
    (hdelivers' : Delivers offenses arrivals') :
    Windows.Covered (ledger arrivals).windows (ledger arrivals').windows := by
  intro w hw
  obtain ⟨o, ho, rank, hpos, hrank, rfl⟩ := exists_offense (fun o => (hdelivers o).mp) hw
  obtain ⟨w, hw, hinside⟩ := hs.inside o ho
  exact ⟨w, mem_windows_of_stays h hs hdelivers' hw,
    (window_inside (h.escalating o ho) hpos hrank).trans hinside⟩

end Settled

/-! ## Orders that tell offenses apart -/

/-- All orders of arrival have the same effect at every epoch. -/
def SameEffect (offenses : List Offense) : Prop :=
  ∀ arrivals arrivals', Delivers offenses arrivals → Delivers offenses arrivals' → ∀ epoch,
    effect (ledger arrivals).windows epoch = effect (ledger arrivals').windows epoch

/-- Offenses of one type, one for each of some identities. -/
theorem exists_of_ids {offenses : List Offense} {type : OffenseType} {ids : List String}
    (hids : ∀ i ∈ ids, i ∈ incidents offenses type) : ∃ chosen : List Offense,
      chosen.map Offense.offenseId = ids ∧ ∀ o ∈ chosen, o ∈ offenses ∧ o.offenseType = type := by
  induction ids with
  | nil => exact ⟨[], rfl, by simp⟩
  | cons i ids ih =>
    obtain ⟨o, ho, htype, rfl⟩ := mem_incidents.mp (hids i (by simp))
    obtain ⟨chosen, rfl, hchosen⟩ := ih fun j hj => hids j (by simp [hj])
    exact ⟨o :: chosen, rfl, List.forall_mem_cons.mpr ⟨⟨ho, htype⟩, hchosen⟩⟩

/-- Offenses of different identities are seen in their order. -/
theorem seen_of_nodup {arrivals : List Offense} (h : (arrivals.map Offense.offenseId).Nodup) :
    (ledger arrivals).seen = arrivals := by
  induction arrivals using List.reverseRecOn with
  | nil => rfl
  | append_singleton arrivals o ih =>
    rw [List.map_append, List.nodup_append] at h
    obtain ⟨hnodup, -, hdisjoint⟩ := h
    have hseen := ih hnodup
    have hnew : o.offenseId ∉ (ledger arrivals).seen.map Offense.offenseId := by
      rw [hseen]
      exact fun hmem => hdisjoint _ hmem _ (by simp) rfl
    rw [ledger_concat]
    by_cases hs : SevereAt (ledger arrivals).windows o.reviewEpoch
    · rw [note_of_severe hnew hs, hseen]
    · rw [note_of_fresh hnew hs, hseen]

section Dependence

variable {reviewer : String} {offenses : List Offense} (h : Incidents reviewer offenses)

/-- Arrivals of offenses, and then of all. -/
theorem delivers_append {arrivals : List Offense} (harrivals : ∀ o ∈ arrivals, o ∈ offenses) :
    Delivers offenses (arrivals ++ offenses) := fun o =>
  ⟨fun ho => (List.mem_append.mp ho).elim (harrivals o) id, List.mem_append_right _⟩

theorem extends_append (arrivals more : List Offense) :
    (ledger arrivals).Extends (ledger (arrivals ++ more)) more := by
  rw [ledger_append]
  exact extends_foldl_note _ _

theorem exists_of_suspends {epoch : Int} (hsuspends : Suspends offenses epoch) :
    ∃ o ∈ offenses, 3 ≤ steps offenses o.offenseType ∧ o.reviewEpoch = epoch := by
  obtain ⟨type, hthree⟩ := hsuspends
  obtain ⟨i, hi⟩ : ∃ i, i ∈ fixedAt offenses type epoch :=
    List.exists_mem_of_length_pos (by omega)
  obtain ⟨hincident, hepoch⟩ := mem_fixedAt.mp hi
  obtain ⟨o, ho, rfl, rfl⟩ := mem_incidents.mp hincident
  exact ⟨o, ho, hthree.trans (List.length_filter_le ..), hepoch o ho rfl⟩

/-- Some order of all offenses has, at an epoch, only the windows that it has to have. -/
theorem exists_sparing (epoch : Int) : ∃ arrivals : List Offense, Delivers offenses arrivals ∧
    ∀ w ∈ (ledger arrivals).windows, w.start = epoch → ∃ o ∈ offenses, ∃ rank, 1 ≤ rank ∧
      rank ≤ (fixedAt offenses o.offenseType epoch).length ∧ o.reviewEpoch = epoch ∧
      w = window o rank := by
  let fixed := offenses.filter fun o => o.offenseId ∈ fixedAt offenses o.offenseType epoch
  let others := offenses.filter (·.reviewEpoch ≠ epoch)
  have hfixed : ∀ o ∈ fixed, o ∈ offenses := fun o ho => (List.mem_filter.mp ho).1
  have hothers : ∀ o ∈ others, o ∈ offenses := fun o ho => (List.mem_filter.mp ho).1
  have hmem : ∀ o ∈ fixed ++ others, o ∈ offenses := fun o ho =>
    (List.mem_append.mp ho).elim (hfixed o) (hothers o)
  -- whoever is not fixed has come with another epoch
  have hids : ∀ o ∈ offenses,
      o.offenseId ∈ (ledger (fixed ++ others)).seen.map Offense.offenseId := by
    intro o ho
    by_cases hid : o.offenseId ∈ fixedAt offenses o.offenseType epoch
    · refine (ledger_of (fixed ++ others)).ids o (List.mem_append_left _ ?_)
      exact List.mem_filter.mpr ⟨ho, decide_eq_true hid⟩
    · have hincident : o.offenseId ∈ incidents offenses o.offenseType :=
        mem_incidents.mpr ⟨o, ho, rfl, rfl⟩
      have hother : ∃ o' ∈ offenses, o'.offenseId = o.offenseId ∧ o'.reviewEpoch ≠ epoch := by
        by_contra hno
        refine hid (mem_fixedAt.mpr ⟨hincident, fun o' ho' hsame => ?_⟩)
        by_contra hne
        exact hno ⟨o', ho', hsame, hne⟩
      obtain ⟨o', ho', hsame, hne⟩ := hother
      rw [← hsame]
      refine (ledger_of (fixed ++ others)).ids o' (List.mem_append_right _ ?_)
      exact List.mem_filter.mpr ⟨ho', decide_eq_true hne⟩
  have hlast : ledger (fixed ++ others ++ offenses) = ledger (fixed ++ others) := by
    rw [ledger_append]
    exact foldl_note_of_mem hids
  refine ⟨fixed ++ others ++ offenses, delivers_append hmem, fun w hw hstart => ?_⟩
  rw [hlast] at hw
  rcases (extends_append fixed others).fresh w hw with hw | ⟨-, o, ho, heq⟩
  · obtain ⟨o, ho, rank, hpos, hrank, rfl⟩ := exists_origin hw
    have hseen := (ledger_of fixed).mem o ho
    refine ⟨o, hfixed o hseen, rank, hpos, hrank.trans ?_, hstart, rfl⟩
    refine rankOf_le (ledger_of fixed).nodup fun a ha htype => ?_
    rw [← htype]
    exact of_decide_eq_true (List.mem_filter.mp ((ledger_of fixed).mem a ha)).2
  · have hne : o.reviewEpoch ≠ epoch := of_decide_eq_true (List.mem_filter.mp ho).2
    exact absurd (heq.symm.trans hstart) hne

include h

/-- Some arrivals give an offense the last rank of its type, or the third, with no suspension
before it. -/
theorem exists_lead {o : Offense} (ho : o ∈ offenses) : ∃ lead : List Offense,
    (∀ a ∈ lead, a ∈ offenses) ∧
    window o (steps offenses o.offenseType) ∈ (ledger lead).windows ∧
    ∀ w ∈ (ledger lead).windows, w = window o (steps offenses o.offenseType) ∨
      ∃ a ∈ offenses, a.offenseType = o.offenseType ∧ w.start = a.reviewEpoch ∧
        w.stop ≤ a.reviewEpoch + 10 ∧ w.severe = false := by
  have hpos := steps_pos ho
  have hid : o.offenseId ∈ incidents offenses o.offenseType := mem_incidents.mpr ⟨o, ho, rfl, rfl⟩
  obtain ⟨chosen, hids, hchosen⟩ : ∃ chosen : List Offense, chosen.map Offense.offenseId =
      ((incidents offenses o.offenseType).erase o.offenseId).take 2 ∧
      ∀ a ∈ chosen, a ∈ offenses ∧ a.offenseType = o.offenseType :=
    exists_of_ids fun i hi => List.mem_of_mem_erase (List.mem_of_mem_take hi)
  have hnodup : (chosen.map Offense.offenseId).Nodup := by
    rw [hids]
    exact (nodup_incidents.erase _).sublist (List.take_sublist ..)
  have hlength : chosen.length = min 2 (steps offenses o.offenseType - 1) := by
    rw [← List.length_map (f := Offense.offenseId), hids, List.length_take,
      List.length_erase_of_mem hid]
    rfl
  have hseen := seen_of_nodup hnodup
  have hrankOf : rankOf chosen o.offenseType = chosen.length :=
    List.countP_eq_length.mpr fun a ha => decide_eq_true (hchosen a ha).2
  -- the offenses before it are the first two of the type
  have hbefore : ∀ w ∈ (ledger chosen).windows, ∃ a ∈ offenses, a.offenseType = o.offenseType ∧
      w.start = a.reviewEpoch ∧ w.stop ≤ a.reviewEpoch + 10 ∧ w.severe = false := by
    intro w hw
    obtain ⟨a, ha, rank, hrank, hle, rfl⟩ := exists_origin hw
    rw [hseen] at ha hle
    obtain ⟨hmem, htype⟩ := hchosen a ha
    rw [htype, hrankOf] at hle
    obtain ⟨hsevere, -, hstop⟩ := window_of_le_two (h.escalating a hmem) hrank (by omega)
    exact ⟨a, hmem, htype, rfl, hstop, hsevere⟩
  have hcalm : ¬SevereAt (ledger chosen).windows o.reviewEpoch := by
    rintro ⟨w, hw, -, hsevere⟩
    obtain ⟨-, -, -, -, -, hnot⟩ := hbefore w hw
    rw [hnot] at hsevere
    cases hsevere
  have hnew : o.offenseId ∉ (ledger chosen).seen.map Offense.offenseId := by
    rw [hseen, hids]
    intro hmem
    exact (List.Nodup.not_mem_erase nodup_incidents) (List.mem_of_mem_take hmem)
  have hwindow : window o (rankOf chosen o.offenseType + 1) =
      window o (steps offenses o.offenseType) := by
    by_cases hthree : 3 ≤ steps offenses o.offenseType
    · rw [window_of_three_le (h.escalating o ho) hthree,
        window_of_three_le (h.escalating o ho) (by omega)]
    · congr 1
      omega
  refine ⟨chosen ++ [o], fun a ha => ?_, ?_⟩
  · rcases List.mem_append.mp ha with ha | ha
    · exact (hchosen a ha).1
    · rw [List.mem_singleton.mp ha]
      exact ho
  · rw [ledger_concat, note_of_fresh hnew hcalm, hseen, hwindow]
    refine ⟨by simp, fun w hw => ?_⟩
    rcases List.mem_append.mp hw with hw | hw
    · exact Or.inr (hbefore w hw)
    · exact Or.inl (List.mem_singleton.mp hw)

variable (hsame : SameEffect offenses)

include hsame

/-- Epochs at which a type of three offenses has one are equal or far apart. -/
theorem heavy_apart {o o' : Offense} (ho : o ∈ offenses) (ho' : o' ∈ offenses)
    (hsteps : 3 ≤ steps offenses o.offenseType) (hsteps' : 3 ≤ steps offenses o'.offenseType)
    (hlt : o.reviewEpoch < o'.reviewEpoch) :
    o.reviewEpoch + suspensionEpochs ≤ o'.reviewEpoch := by
  by_contra hnear
  obtain ⟨lead, hlead, hmem, hall⟩ := exists_lead h ho
  obtain ⟨lead', hlead', hmem', -⟩ := exists_lead h ho'
  rw [window_of_three_le (h.escalating o ho) hsteps] at hmem hall
  rw [window_of_three_le (h.escalating o' ho') hsteps'] at hmem'
  have heffect := hsame _ _ (delivers_append hlead') (delivers_append hlead) o'.reviewEpoch
  obtain ⟨-, hreach, -⟩ := effect_eq_iff.mp heffect
  obtain ⟨w, hw, hactive, hstop⟩ := hreach _ ((extends_append lead' offenses).kept _ hmem')
    ⟨le_refl _, by show _ < _ + suspensionEpochs; unfold suspensionEpochs; omega⟩
  have hstop : o'.reviewEpoch + suspensionEpochs ≤ w.stop := hstop
  obtain ⟨a, ha, rank, hpos, -, rfl⟩ := exists_offense (fun a => (delivers_append hlead a).mp) hw
  have hbounds := window_bounds (h.escalating a ha) hpos
  have hstart : a.reviewEpoch ≤ o'.reviewEpoch := hactive.1
  -- a window that reaches so far is a suspension of this epoch, which the first one keeps out
  rcases (extends_append lead offenses).fresh _ hw with hw | ⟨hnot, -⟩
  · rcases hall _ hw with heq | ⟨a', -, -, hstart', hstop', -⟩
    · have := congrArg Window.start heq
      have : a.reviewEpoch = o.reviewEpoch := this
      omega
    · have hstart' : a.reviewEpoch = a'.reviewEpoch := hstart'
      unfold suspensionEpochs at hstop
      omega
  · refine hnot ⟨_, hmem, ⟨?_, ?_⟩, rfl⟩
    · show o.reviewEpoch ≤ a.reviewEpoch
      omega
    · show a.reviewEpoch < o.reviewEpoch + suspensionEpochs
      omega

/-- Three offenses of a type have the epoch of each of them, if they are as many. -/
theorem suspends_of_heavy {o : Offense} (ho : o ∈ offenses)
    (hsteps : 3 ≤ steps offenses o.offenseType) : Suspends offenses o.reviewEpoch := by
  obtain ⟨lead, hlead, hmem, -⟩ := exists_lead h ho
  obtain ⟨sparing, hsparing, hfixed⟩ := @exists_sparing offenses o.reviewEpoch
  rw [window_of_three_le (h.escalating o ho) hsteps] at hmem
  obtain ⟨-, hreach, -⟩ :=
    effect_eq_iff.mp (hsame _ _ (delivers_append hlead) hsparing o.reviewEpoch)
  obtain ⟨w, hw, hactive, hstop⟩ := hreach _ ((extends_append lead offenses).kept _ hmem)
    ⟨le_refl _, by show _ < _ + suspensionEpochs; unfold suspensionEpochs; omega⟩
  have hstop : o.reviewEpoch + suspensionEpochs ≤ w.stop := hstop
  have hstart : w.start ≤ o.reviewEpoch := hactive.1
  -- a window that long starts here, and is a third one
  obtain ⟨a, ha, rank, hpos, -, rfl⟩ := exists_offense (fun a => (hsparing a).mp) hw
  have hbounds := window_bounds (h.escalating a ha) hpos
  rw [window_start] at hstart
  have hepoch : a.reviewEpoch = o.reviewEpoch := by omega
  obtain ⟨b, hb, rank', hpos', hrank', hepoch', heq⟩ := hfixed _ hw hepoch
  refine ⟨b.offenseType, le_trans ?_ hrank'⟩
  by_contra hlt
  have hshort := (window_of_le_two (h.escalating b hb) hpos' (by omega)).2.2
  rw [← heq, hepoch'] at hshort
  unfold suspensionEpochs at hstop
  omega

/-- A cooldown that starts inside a suspension ends with it. -/
theorem stop_le_of_suspends {o : Offense} (ho : o ∈ offenses) {epoch : Int}
    (hsuspends : Suspends offenses epoch) (hle : epoch ≤ o.reviewEpoch)
    (hlt : o.reviewEpoch < epoch + suspensionEpochs) :
    (window o (steps offenses o.offenseType)).stop ≤ epoch + suspensionEpochs := by
  by_contra hlong
  obtain ⟨a, ha, hheavy, rfl⟩ := exists_of_suspends hsuspends
  obtain ⟨lead, hlead, hmem, -⟩ := exists_lead h ho
  obtain ⟨lead', hlead', hmem', hall'⟩ := exists_lead h ha
  rw [window_of_three_le (h.escalating a ha) hheavy] at hmem' hall'
  -- the last epoch of the suspension
  obtain ⟨-, hreach, -⟩ := effect_eq_iff.mp (hsame _ _ (delivers_append hlead)
    (delivers_append hlead') (a.reviewEpoch + suspensionEpochs - 1))
  obtain ⟨w, hw, hactive, hstop⟩ := hreach _ ((extends_append lead offenses).kept _ hmem)
    ⟨by rw [window_start]; omega, by omega⟩
  have hstart : w.start ≤ a.reviewEpoch + suspensionEpochs - 1 := hactive.1
  rcases (extends_append lead' offenses).fresh w hw with hw' | ⟨hnot, -⟩
  · rcases hall' w hw' with rfl | ⟨b, hb, htype, hstart', hstop', -⟩
    · have hstop : _ ≤ a.reviewEpoch + suspensionEpochs := hstop
      omega
    · have hapart := heavy_apart h hsame ha hb hheavy (by rw [htype]; exact hheavy)
      unfold suspensionEpochs at *
      omega
  · obtain ⟨b, hb, rank, hpos, -, rfl⟩ :=
      exists_offense (fun b => (delivers_append hlead' b).mp) hw
    have hbounds := window_bounds (h.escalating b hb) hpos
    rw [window_start] at hstart
    refine hnot ⟨_, hmem', ⟨?_, ?_⟩, rfl⟩
    · show a.reviewEpoch ≤ b.reviewEpoch
      omega
    · show b.reviewEpoch < a.reviewEpoch + suspensionEpochs
      omega

/-- A cooldown outside the suspensions lies inside one that is of a type with one epoch only, or
longer. -/
theorem exists_longer {o : Offense} (ho : o ∈ offenses)
    (hsteps : steps offenses o.offenseType ≤ 2) (hfree : ¬Suspended offenses o.reviewEpoch) :
    ∃ a ∈ offenses, steps offenses a.offenseType ≤ 2 ∧ ¬Suspended offenses a.reviewEpoch ∧
      (window o (steps offenses o.offenseType)).Inside
        (window a (steps offenses a.offenseType)) ∧
      (Uniform offenses a.offenseType ∨
        (window o (steps offenses o.offenseType)).stop - o.reviewEpoch <
          (window a (steps offenses a.offenseType)).stop - a.reviewEpoch) := by
  obtain ⟨lead, hlead, hmem, -⟩ := exists_lead h ho
  obtain ⟨sparing, hsparing, hfixed⟩ := @exists_sparing offenses o.reviewEpoch
  obtain ⟨hsevere, hlong, -⟩ := window_of_le_two (h.escalating o ho) (steps_pos ho) hsteps
  obtain ⟨-, hreach, -⟩ :=
    effect_eq_iff.mp (hsame _ _ (delivers_append hlead) hsparing o.reviewEpoch)
  obtain ⟨w, hw, hactive, hstop⟩ :=
    hreach _ ((extends_append lead offenses).kept _ hmem) ⟨le_refl _, hlong⟩
  have hlight : ∀ a ∈ offenses, a.reviewEpoch ≤ o.reviewEpoch →
      o.reviewEpoch < a.reviewEpoch + suspensionEpochs → steps offenses a.offenseType ≤ 2 := by
    intro a ha hle hlt
    by_contra hheavy
    exact hfree ⟨_, suspends_of_heavy h hsame ha (by omega), hle, hlt⟩
  by_cases hstart : w.start = o.reviewEpoch
  · obtain ⟨a, ha, rank, hpos, hrank, hepoch, rfl⟩ := hfixed w hw hstart
    have hle : (fixedAt offenses a.offenseType o.reviewEpoch).length ≤
        steps offenses a.offenseType := List.length_filter_le _ _
    have htwo := hlight a ha hepoch.le (by unfold suspensionEpochs; omega)
    have hinside := window_inside (h.escalating a ha) hpos (hrank.trans hle)
    refine ⟨a, ha, htwo, hepoch ▸ hfree, ⟨hepoch.le, hstop.trans hinside.2.1, ?_⟩, ?_⟩
    · rw [hsevere]
      intro hfalse
      cases hfalse
    · by_cases huniform : Uniform offenses a.offenseType
      · exact Or.inl huniform
      · -- an offense of the type has another epoch, so that the last rank is not for sure
        right
        have hless : rank ≠ steps offenses a.offenseType := by
          intro heq
          have hall :=
            List.length_filter_eq_length_iff.mp (le_antisymm hle (heq.symm.le.trans hrank))
          refine huniform fun b hb b' hb' htype htype' => ?_
          have hepochs : ∀ c ∈ offenses, c.offenseType = a.offenseType →
              c.reviewEpoch = o.reviewEpoch := by
            intro c hc hct
            have hci : c.offenseId ∈ incidents offenses a.offenseType :=
              mem_incidents.mpr ⟨c, hc, hct, rfl⟩
            exact (mem_fixedAt.mp (List.mem_filter.mpr ⟨hci, hall _ hci⟩)).2 c hc rfl
          rw [hepochs b hb htype, hepochs b' hb' htype']
        have hstrict : (window a rank).stop <
            (window a (steps offenses a.offenseType)).stop := by
          by_contra hnot
          exact hless (rank_eq_of_stop_le (h.escalating a ha) hpos (hrank.trans hle) htwo
            (not_lt.mp hnot))
        omega
  · obtain ⟨a, ha, rank, hpos, hrank, rfl⟩ := exists_offense (fun a => (hsparing a).mp) hw
    have hle : a.reviewEpoch ≤ o.reviewEpoch := hactive.1
    have hlt : o.reviewEpoch < (window a rank).stop := hactive.2
    rw [window_start] at hstart
    have hbounds := window_bounds (h.escalating a ha) hpos
    have htwo := hlight a ha hle (by omega)
    have hinside := window_inside (h.escalating a ha) hpos hrank
    have hstop' := hstop.trans hinside.2.1
    refine ⟨a, ha, htwo, ?_, ⟨hle, hstop', ?_⟩, Or.inr ?_⟩
    · rintro ⟨m, hm, hml, hmu⟩
      have hend := stop_le_of_suspends h hsame ha hm hml hmu
      have hlast := hinside.2.1
      exact hfree ⟨m, hm, hml.trans hle, by omega⟩
    · rw [hsevere]
      intro hfalse
      cases hfalse
    · omega

theorem inside_of_light {o : Offense} (ho : o ∈ offenses)
    (hsteps : steps offenses o.offenseType ≤ 2) (hfree : ¬Suspended offenses o.reviewEpoch) :
    ∃ w, Stays offenses w ∧ (window o (steps offenses o.offenseType)).Inside w := by
  -- by how much longer a cooldown could still be
  generalize hmore :
    (o.reviewEpoch + 10 - (window o (steps offenses o.offenseType)).stop).toNat = more
  induction more using Nat.strong_induction_on generalizing o with
  | _ more ih =>
    obtain ⟨a, ha, htwo, hfree', hinside, huniform | hlonger⟩ :=
      exists_longer h hsame ho hsteps hfree
    · exact ⟨_, .cooldown ha htwo huniform hfree', hinside⟩
    · have hbound := (window_of_le_two (h.escalating a ha) (steps_pos ha) htwo).2.2
      obtain ⟨w, hw, hinside'⟩ := ih _ (by omega) ha htwo hfree' rfl
      exact ⟨w, hw, hinside.trans hinside'⟩

omit hsame in
/-- The order of arrival does not matter exactly for settled sets. -/
theorem settled_iff : SameEffect offenses ↔ Settled offenses := by
  constructor
  · intro hsame
    refine ⟨fun m m' hm hm' hlt => ?_, fun o ho => ?_⟩
    · obtain ⟨o, ho, hsteps, rfl⟩ := exists_of_suspends hm
      obtain ⟨o', ho', hsteps', rfl⟩ := exists_of_suspends hm'
      exact heavy_apart h hsame ho ho' hsteps hsteps' hlt
    · by_cases hsteps : 3 ≤ steps offenses o.offenseType
      · rw [window_of_three_le (h.escalating o ho) hsteps]
        exact ⟨_, .suspension (suspends_of_heavy h hsame ho hsteps), .refl _⟩
      · by_cases hfree : Suspended offenses o.reviewEpoch
        · obtain ⟨m, hm, hle, hlt⟩ := hfree
          refine ⟨_, .suspension hm, hle, ?_, fun _ => rfl⟩
          exact stop_le_of_suspends h hsame ho hm hle hlt
        · exact inside_of_light h hsame ho (by omega) hfree
  · intro hs arrivals arrivals' hdelivers hdelivers' epoch
    exact effect_eq_of_covered (covered_of_settled h hs hdelivers hdelivers')
      (covered_of_settled h hs hdelivers' hdelivers) epoch

end Dependence

end Reputation

end ZoidbergChain
