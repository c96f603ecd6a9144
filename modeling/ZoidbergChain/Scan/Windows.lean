import Mathlib

/-!
# Windows in force

Half-open windows of a linear order, some of them severe, and what a list of them amounts to at
a point: whether a severe one is active, and the last end of an active one.

- `effect_eq_iff` reads the effect of two lists off their active windows.
- `effect_eq_of_covered`: lists whose windows lie inside each other's have the same effect.
-/

namespace Windows

variable {α : Type*} [LinearOrder α]

/-- The points from `start` up to, but not including, `stop`. -/
structure Window (α : Type*) where
  start : α
  stop : α
  severe : Bool

def Window.ActiveAt (w : Window α) (x : α) : Prop := w.start ≤ x ∧ x < w.stop

instance (w : Window α) (x : α) : Decidable (w.ActiveAt x) := inferInstanceAs (Decidable (_ ∧ _))

/-- The windows in force. -/
def active (ws : List (Window α)) (x : α) : List (Window α) := ws.filter (·.ActiveAt x)

/-- What is in force, if anything: whether it is severe, and up to where. -/
def effect (ws : List (Window α)) (x : α) : Option (Bool × α) :=
  ((active ws x).map Window.stop).max?.map fun stop => ((active ws x).any Window.severe, stop)

/-- Whether a severe window is active. -/
def SevereAt (ws : List (Window α)) (x : α) : Prop := ∃ w ∈ ws, w.ActiveAt x ∧ w.severe = true

/-- The other list reaches at least as far. -/
def ReachesAs (ws vs : List (Window α)) (x : α) : Prop :=
  ∀ w ∈ ws, w.ActiveAt x → ∃ v ∈ vs, v.ActiveAt x ∧ w.stop ≤ v.stop

theorem SevereAt.mono {ws vs : List (Window α)} (h : ∀ w ∈ ws, w ∈ vs) {x : α}
    (hx : SevereAt ws x) : SevereAt vs x := by
  obtain ⟨w, hw, ha⟩ := hx
  exact ⟨w, h w hw, ha⟩

theorem mem_active {ws : List (Window α)} {x : α} {w : Window α} :
    w ∈ active ws x ↔ w ∈ ws ∧ w.ActiveAt x := by
  simp [active]

theorem any_severe_iff {ws : List (Window α)} {x : α} :
    (active ws x).any Window.severe = true ↔ SevereAt ws x := by
  simp [SevereAt, mem_active, and_assoc]

theorem effect_eq_some {ws : List (Window α)} {x stop : α} {severe : Bool} :
    effect ws x = some (severe, stop) ↔
      (severe = true ↔ SevereAt ws x) ∧ (∃ w ∈ ws, w.ActiveAt x ∧ w.stop = stop) ∧
        ∀ w ∈ ws, w.ActiveAt x → w.stop ≤ stop := by
  rw [effect, Option.map_eq_some_iff]
  constructor
  · rintro ⟨last, hlast, heq⟩
    obtain ⟨rfl, rfl⟩ := Prod.mk.inj heq
    obtain ⟨hmem, hle⟩ := List.max?_eq_some_iff.mp hlast
    obtain ⟨w, hw, rfl⟩ := List.mem_map.mp hmem
    refine ⟨any_severe_iff, ⟨w, (mem_active.mp hw).1, (mem_active.mp hw).2, rfl⟩, ?_⟩
    intro v hv hactive
    exact hle _ (List.mem_map_of_mem (mem_active.mpr ⟨hv, hactive⟩))
  · rintro ⟨hsevere, ⟨w, hw, hactive, rfl⟩, hle⟩
    refine ⟨w.stop, List.max?_eq_some_iff.mpr ⟨?_, ?_⟩, ?_⟩
    · exact List.mem_map_of_mem (mem_active.mpr ⟨hw, hactive⟩)
    · intro stop hstop
      obtain ⟨v, hv, rfl⟩ := List.mem_map.mp hstop
      exact hle v (mem_active.mp hv).1 (mem_active.mp hv).2
    · rw [Prod.mk.injEq]
      exact ⟨Bool.eq_iff_iff.mpr (any_severe_iff.trans hsevere.symm), rfl⟩

theorem effect_eq_none {ws : List (Window α)} {x : α} :
    effect ws x = none ↔ ∀ w ∈ ws, ¬w.ActiveAt x := by
  rw [effect, Option.map_eq_none_iff, List.max?_eq_none_iff, List.map_eq_nil_iff,
    List.eq_nil_iff_forall_not_mem]
  simp [mem_active]

/-- The effect, as what it says about the active windows. -/
theorem effect_eq_iff {ws vs : List (Window α)} {x : α} :
    effect ws x = effect vs x ↔
      (SevereAt ws x ↔ SevereAt vs x) ∧ ReachesAs ws vs x ∧ ReachesAs vs ws x := by
  constructor
  · intro h
    cases hws : effect ws x with
    | none =>
      have hvs := effect_eq_none.mp (h.symm.trans hws)
      have hws := effect_eq_none.mp hws
      refine ⟨⟨?_, ?_⟩, fun w hw ha => absurd ha (hws w hw), fun v hv ha => absurd ha (hvs v hv)⟩
      · rintro ⟨w, hw, ha, -⟩
        exact absurd ha (hws w hw)
      · rintro ⟨v, hv, ha, -⟩
        exact absurd ha (hvs v hv)
    | some found =>
      obtain ⟨severe, stop⟩ := found
      obtain ⟨hsevere, ⟨w, hw, hwa, rfl⟩, hle⟩ := effect_eq_some.mp hws
      obtain ⟨hsevere', ⟨v, hv, hva, hstop⟩, hle'⟩ := effect_eq_some.mp (h.symm.trans hws)
      refine ⟨hsevere.symm.trans hsevere', fun u hu ha => ?_, fun u hu ha => ?_⟩
      · exact ⟨v, hv, hva, (hle u hu ha).trans (le_of_eq hstop.symm)⟩
      · exact ⟨w, hw, hwa, hle' u hu ha⟩
  · rintro ⟨hsevere, hreach, hreach'⟩
    cases hws : effect ws x with
    | none =>
      have hws := effect_eq_none.mp hws
      refine (effect_eq_none.mpr fun v hv ha => ?_).symm
      obtain ⟨w, hw, hwa, -⟩ := hreach' v hv ha
      exact hws w hw hwa
    | some found =>
      obtain ⟨severe, stop⟩ := found
      obtain ⟨hsevere', ⟨w, hw, hwa, rfl⟩, hle⟩ := effect_eq_some.mp hws
      obtain ⟨v, hv, hva, hwv⟩ := hreach w hw hwa
      have hbound : ∀ u ∈ vs, u.ActiveAt x → u.stop ≤ w.stop := by
        intro u hu ha
        obtain ⟨w', hw', hwa', hle'⟩ := hreach' u hu ha
        exact hle'.trans (hle w' hw' hwa')
      exact (effect_eq_some.mpr
        ⟨hsevere'.trans hsevere, ⟨v, hv, hva, (hbound v hv hva).antisymm hwv⟩, hbound⟩).symm

/-- The window lies inside the other one, which is severe if it is. -/
def Window.Inside (w v : Window α) : Prop :=
  v.start ≤ w.start ∧ w.stop ≤ v.stop ∧ (w.severe = true → v.severe = true)

theorem Window.Inside.refl (w : Window α) : w.Inside w := ⟨le_refl _, le_refl _, id⟩

theorem Window.Inside.activeAt {w v : Window α} (h : w.Inside v) {x : α} (hx : w.ActiveAt x) :
    v.ActiveAt x :=
  ⟨h.1.trans hx.1, hx.2.trans_le h.2.1⟩

theorem Window.Inside.trans {u v w : Window α} (h : u.Inside v) (h' : v.Inside w) : u.Inside w :=
  ⟨h'.1.trans h.1, h.2.1.trans h'.2.1, fun hu => h'.2.2 (h.2.2 hu)⟩

/-- Every window lies inside one of the other list. -/
def Covered (ws vs : List (Window α)) : Prop := ∀ w ∈ ws, ∃ v ∈ vs, w.Inside v

theorem Covered.severeAt {ws vs : List (Window α)} (h : Covered ws vs) {x : α}
    (hx : SevereAt ws x) : SevereAt vs x := by
  obtain ⟨w, hw, ha, hsevere⟩ := hx
  obtain ⟨v, hv, hwv⟩ := h w hw
  exact ⟨v, hv, hwv.activeAt ha, hwv.2.2 hsevere⟩

theorem Covered.reachesAs {ws vs : List (Window α)} (h : Covered ws vs) (x : α) :
    ReachesAs ws vs x := by
  intro w hw ha
  obtain ⟨v, hv, hwv⟩ := h w hw
  exact ⟨v, hv, hwv.activeAt ha, hwv.2.1⟩

/-- Windows inside other windows do not count. -/
theorem effect_eq_of_covered {ws vs : List (Window α)} (h : Covered ws vs) (h' : Covered vs ws)
    (x : α) : effect ws x = effect vs x :=
  effect_eq_iff.mpr ⟨⟨h.severeAt, h'.severeAt⟩, h.reachesAs x, h'.reachesAs x⟩

end Windows
