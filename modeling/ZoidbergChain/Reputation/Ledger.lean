import ZoidbergChain.Reputation.Model

/-!
# The offense ledger

What the tables of `Reputation.Model` are for, for the escalating offenses of one reviewer: the
offenses in the order of their arrival, once each, and the windows in which a penalty is in
force.

- `Ledger.note` is one arrival, `ledger` a run of them.
- `ledger_of` says which windows there are: the one of every offense by its rank among the
  offenses of its type, unless a suspension is in force.
- `extends_foldl_note`: windows stay, and none starts inside a suspension that came before.
-/

namespace ZoidbergChain

open Python Windows

namespace Reputation

/-! ## The window of an offense -/

/-- The window of an offense that is the `rank`-th of its type. -/
def window (o : Offense) (rank : Nat) : Window Int where
  start := o.reviewEpoch
  stop := o.reviewEpoch + (schedule o.offenseType rank).2
  severe := decide ((schedule o.offenseType rank).1 = .suspended)

@[simp] theorem window_start (o : Offense) (rank : Nat) : (window o rank).start = o.reviewEpoch :=
  rfl

/-- From the third offense of a type on it is a suspension. -/
theorem schedule_of_three_le {type : OffenseType} (htype : type.isEscalating = true) {rank : Nat}
    (h : 3 ≤ rank) : schedule type rank = (.suspended, suspensionEpochs) := by
  have hlength : type.cooldownEpochs.length = 2 := by
    cases type <;> first | rfl | cases htype
  rw [schedule, List.getElem?_eq_none (by omega)]

/-- The first two are cooldowns, the second one longer than the first. -/
theorem schedule_of_le_two {type : OffenseType} (htype : type.isEscalating = true) {rank : Nat}
    (h : 1 ≤ rank) (h' : rank ≤ 2) : (schedule type rank).1 = .cooldown ∧
      0 < (schedule type rank).2 ∧ (schedule type rank).2 ≤ 10 ∧
      (rank = 1 → (schedule type 1).2 < (schedule type 2).2) := by
  obtain rfl | rfl : rank = 1 ∨ rank = 2 := by omega
  all_goals cases type <;> first | (cases htype; done) | decide

section Window

variable {o : Offense} (ho : o.offenseType.isEscalating = true) {rank : Nat}

include ho

theorem window_of_three_le (h : 3 ≤ rank) :
    window o rank = ⟨o.reviewEpoch, o.reviewEpoch + suspensionEpochs, true⟩ := by
  rw [window, schedule_of_three_le ho h]
  rfl

theorem window_of_le_two (h : 1 ≤ rank) (h' : rank ≤ 2) : (window o rank).severe = false ∧
    o.reviewEpoch < (window o rank).stop ∧ (window o rank).stop ≤ o.reviewEpoch + 10 := by
  obtain ⟨hstatus, hpos, hle, -⟩ := schedule_of_le_two ho h h'
  refine ⟨?_, ?_, ?_⟩
  · simp [window, hstatus]
  · show o.reviewEpoch < o.reviewEpoch + _
    omega
  · show o.reviewEpoch + _ ≤ o.reviewEpoch + 10
    omega

theorem window_bounds (h : 1 ≤ rank) : o.reviewEpoch < (window o rank).stop ∧
    (window o rank).stop ≤ o.reviewEpoch + suspensionEpochs := by
  by_cases hrank : rank ≤ 2
  · obtain ⟨-, hlt, hle⟩ := window_of_le_two ho h hrank
    exact ⟨hlt, hle.trans (by unfold suspensionEpochs; omega)⟩
  · rw [window_of_three_le ho (by omega)]
    exact ⟨by show _ < _ + suspensionEpochs; unfold suspensionEpochs; omega, le_refl _⟩

theorem three_le_of_severe (h : 1 ≤ rank) (hsevere : (window o rank).severe = true) :
    3 ≤ rank := by
  by_contra hlt
  rw [(window_of_le_two ho h (by omega)).1] at hsevere
  cases hsevere

/-- A window of a later rank is no smaller. -/
theorem window_inside {rank' : Nat} (h : 1 ≤ rank) (hle : rank ≤ rank') :
    (window o rank).Inside (window o rank') := by
  refine ⟨le_refl _, ?_, ?_⟩
  · by_cases hrank' : 3 ≤ rank'
    · rw [window_of_three_le ho hrank']
      exact (window_bounds ho h).2
    · by_cases heq : rank = rank'
      · rw [heq]
      · obtain ⟨rfl, rfl⟩ : rank = 1 ∧ rank' = 2 := by omega
        have hlt := (schedule_of_le_two ho (le_refl 1) (by omega)).2.2.2 rfl
        show o.reviewEpoch + _ ≤ o.reviewEpoch + _
        omega
  · intro hsevere
    have hthree := three_le_of_severe ho h hsevere
    rw [window_of_three_le ho (by omega)]

/-- Among the first two ranks the end tells the rank. -/
theorem rank_eq_of_stop_le {rank' : Nat} (h : 1 ≤ rank) (hle : rank ≤ rank') (h' : rank' ≤ 2)
    (hstop : (window o rank').stop ≤ (window o rank).stop) : rank = rank' := by
  by_contra hne
  obtain ⟨rfl, rfl⟩ : rank = 1 ∧ rank' = 2 := by omega
  have hlt := (schedule_of_le_two ho (le_refl 1) (by omega)).2.2.2 rfl
  have : o.reviewEpoch + (schedule o.offenseType 2).2 ≤
    o.reviewEpoch + (schedule o.offenseType 1).2 := hstop
  omega

end Window

/-! ## The ledger -/

structure Ledger where
  seen : List Offense := []
  windows : List (Window Int) := []

/-- The number of offenses of a type. -/
def rankOf (seen : List Offense) (type : OffenseType) : Nat :=
  seen.countP (·.offenseType = type)

/-- One arrival. -/
def Ledger.note (l : Ledger) (o : Offense) : Ledger :=
  if o.offenseId ∈ l.seen.map Offense.offenseId then l
  else
    { seen := l.seen ++ [o]
      windows :=
        if (active l.windows o.reviewEpoch).any Window.severe then l.windows
        else l.windows ++ [window o (rankOf l.seen o.offenseType + 1)] }

/-- The ledger after arrivals in some order. -/
def ledger (arrivals : List Offense) : Ledger := arrivals.foldl Ledger.note {}

theorem note_of_mem {l : Ledger} {o : Offense} (h : o.offenseId ∈ l.seen.map Offense.offenseId) :
    l.note o = l := if_pos h

theorem note_of_severe {l : Ledger} {o : Offense}
    (h : o.offenseId ∉ l.seen.map Offense.offenseId) (hs : SevereAt l.windows o.reviewEpoch) :
    l.note o = { l with seen := l.seen ++ [o] } := by
  rw [Ledger.note, if_neg h, if_pos (any_severe_iff.mpr hs)]

theorem note_of_fresh {l : Ledger} {o : Offense}
    (h : o.offenseId ∉ l.seen.map Offense.offenseId) (hs : ¬SevereAt l.windows o.reviewEpoch) :
    l.note o = { seen := l.seen ++ [o]
                 windows := l.windows ++ [window o (rankOf l.seen o.offenseType + 1)] } := by
  rw [Ledger.note, if_neg h, if_neg fun hany => hs (any_severe_iff.mp hany)]

/-- Arrivals of known identities change nothing. -/
theorem foldl_note_of_mem {l : Ledger} {arrivals : List Offense}
    (h : ∀ o ∈ arrivals, o.offenseId ∈ l.seen.map Offense.offenseId) :
    arrivals.foldl Ledger.note l = l := by
  induction arrivals with
  | nil => rfl
  | cons o arrivals ih =>
    rw [List.foldl_cons, note_of_mem (h o (by simp))]
    exact ih fun o' ho' => h o' (by simp [ho'])

/-- What holds of a ledger after some arrivals. -/
structure Ledger.Of (arrivals : List Offense) (l : Ledger) : Prop where
  nodup : (l.seen.map Offense.offenseId).Nodup
  mem : ∀ o ∈ l.seen, o ∈ arrivals
  ids : ∀ o ∈ arrivals, o.offenseId ∈ l.seen.map Offense.offenseId
  origin : ∀ w ∈ l.windows, ∃ front o back, l.seen = front ++ o :: back ∧
    w = window o (rankOf front o.offenseType + 1)
  noted : ∀ front o back, l.seen = front ++ o :: back →
    window o (rankOf front o.offenseType + 1) ∈ l.windows ∨ SevereAt l.windows o.reviewEpoch

/-- The windows of a ledger stay, and a suspension keeps new ones from starting inside it. -/
structure Ledger.Extends (l l' : Ledger) (arrivals : List Offense) : Prop where
  kept : ∀ w ∈ l.windows, w ∈ l'.windows
  fresh : ∀ w ∈ l'.windows, w ∈ l.windows ∨
    ¬SevereAt l.windows w.start ∧ ∃ o ∈ arrivals, w.start = o.reviewEpoch

/-- The two ways to split a list with one more item. -/
theorem split_concat {α : Type*} {xs front back : List α} {x y : α}
    (h : xs ++ [x] = front ++ y :: back) :
    (front = xs ∧ y = x ∧ back = []) ∨ ∃ back', back = back' ++ [x] ∧ xs = front ++ y :: back' := by
  rcases List.eq_nil_or_concat back with rfl | ⟨back', z, rfl⟩
  · obtain ⟨rfl, heq⟩ := List.append_inj' h rfl
    exact .inl ⟨rfl, (List.cons.inj heq).1.symm, rfl⟩
  · have h : xs ++ [x] = (front ++ y :: back') ++ [z] := by simpa using h
    obtain ⟨rfl, heq⟩ := List.append_inj' h rfl
    exact .inr ⟨back', by simp [(List.cons.inj heq).1], rfl⟩

theorem Ledger.Of.empty : Ledger.Of [] {} where
  nodup := List.nodup_nil
  mem := by simp
  ids := by simp
  origin := by simp
  noted := by simp

/-- One arrival. -/
theorem Ledger.Of.note {arrivals : List Offense} {l : Ledger} (h : l.Of arrivals) (o : Offense) :
    (l.note o).Of (arrivals ++ [o]) := by
  by_cases hmem : o.offenseId ∈ l.seen.map Offense.offenseId
  · rw [note_of_mem hmem]
    refine { h with mem := fun o' ho' => by simp [h.mem o' ho'], ids := fun o' ho' => ?_ }
    rcases List.mem_append.mp ho' with ho' | ho'
    · exact h.ids o' ho'
    · rw [List.mem_singleton.mp ho']
      exact hmem
  · have hnodup : ((l.seen ++ [o]).map Offense.offenseId).Nodup := by
      rw [List.map_append, List.nodup_append]
      refine ⟨h.nodup, List.nodup_singleton _, ?_⟩
      rintro i hi j hj rfl
      rw [List.map_singleton, List.mem_singleton] at hj
      exact hmem (hj ▸ hi)
    have hmem' : ∀ o' ∈ l.seen ++ [o], o' ∈ arrivals ++ [o] := by
      intro o' ho'
      rcases List.mem_append.mp ho' with ho' | ho'
      · exact List.mem_append_left _ (h.mem o' ho')
      · exact List.mem_append_right _ ho'
    have hids : ∀ o' ∈ arrivals ++ [o], o'.offenseId ∈ (l.seen ++ [o]).map Offense.offenseId := by
      intro o' ho'
      rw [List.map_append]
      rcases List.mem_append.mp ho' with ho' | ho'
      · exact List.mem_append_left _ (h.ids o' ho')
      · rw [List.mem_singleton.mp ho']
        simp
    have hextend : ∀ w ∈ l.windows, ∃ front o' back, l.seen ++ [o] = front ++ o' :: back ∧
        w = window o' (rankOf front o'.offenseType + 1) := by
      intro w hw
      obtain ⟨front, o', back, hsplit, hw'⟩ := h.origin w hw
      exact ⟨front, o', back ++ [o], by rw [hsplit]; simp, hw'⟩
    by_cases hs : SevereAt l.windows o.reviewEpoch
    · rw [note_of_severe hmem hs]
      refine ⟨hnodup, hmem', hids, hextend, fun front o' back hsplit => ?_⟩
      rcases split_concat hsplit with ⟨-, rfl, -⟩ | ⟨back', -, hsplit'⟩
      · exact Or.inr hs
      · exact h.noted front o' back' hsplit'
    · rw [note_of_fresh hmem hs]
      refine ⟨hnodup, hmem', hids, fun w hw => ?_, fun front o' back hsplit => ?_⟩
      · rcases List.mem_append.mp hw with hw | hw
        · exact hextend w hw
        · exact ⟨l.seen, o, [], rfl, List.mem_singleton.mp hw⟩
      · rcases split_concat hsplit with ⟨rfl, rfl, -⟩ | ⟨back', -, hsplit'⟩
        · exact Or.inl (by simp)
        · refine (h.noted front o' back' hsplit').imp (List.mem_append_left _) ?_
          exact SevereAt.mono fun w hw => List.mem_append_left _ hw

theorem ledger_concat (arrivals : List Offense) (o : Offense) :
    ledger (arrivals ++ [o]) = (ledger arrivals).note o := by
  rw [ledger, List.foldl_append]
  rfl

theorem ledger_append (arrivals more : List Offense) :
    ledger (arrivals ++ more) = more.foldl Ledger.note (ledger arrivals) := by
  rw [ledger, List.foldl_append]
  rfl

/-- Any run of arrivals. -/
theorem ledger_of (arrivals : List Offense) : (ledger arrivals).Of arrivals := by
  induction arrivals using List.reverseRecOn with
  | nil => exact Ledger.Of.empty
  | append_singleton arrivals o ih =>
    rw [ledger_concat]
    exact ih.note o

theorem Ledger.Extends.refl (l : Ledger) : l.Extends l [] where
  kept _ hw := hw
  fresh _ hw := Or.inl hw

/-- One arrival more. -/
theorem Ledger.Extends.note {l l' : Ledger} {arrivals : List Offense}
    (h : l.Extends l' arrivals) (o : Offense) : l.Extends (l'.note o) (arrivals ++ [o]) := by
  have hfresh : ∀ w ∈ l'.windows, w ∈ l.windows ∨
      ¬SevereAt l.windows w.start ∧ ∃ o' ∈ arrivals ++ [o], w.start = o'.reviewEpoch := by
    intro w hw
    refine (h.fresh w hw).imp_right fun ⟨hnot, o', ho', heq⟩ => ?_
    exact ⟨hnot, o', List.mem_append_left _ ho', heq⟩
  by_cases hmem : o.offenseId ∈ l'.seen.map Offense.offenseId
  · rw [note_of_mem hmem]
    exact ⟨h.kept, hfresh⟩
  · by_cases hs : SevereAt l'.windows o.reviewEpoch
    · rw [note_of_severe hmem hs]
      exact ⟨h.kept, hfresh⟩
    · rw [note_of_fresh hmem hs]
      refine ⟨fun w hw => List.mem_append_left _ (h.kept w hw), fun w hw => ?_⟩
      rcases List.mem_append.mp hw with hw | hw
      · exact hfresh w hw
      · obtain rfl := List.mem_singleton.mp hw
        exact Or.inr ⟨fun hnot => hs (hnot.mono h.kept), o, by simp, rfl⟩

theorem extends_foldl_note (l : Ledger) (arrivals : List Offense) :
    l.Extends (arrivals.foldl Ledger.note l) arrivals := by
  induction arrivals using List.reverseRecOn with
  | nil => exact Ledger.Extends.refl l
  | append_singleton arrivals o ih =>
    rw [List.foldl_append]
    exact ih.note o

end Reputation

end ZoidbergChain
