import ZoidbergChain.Python.Value

/-!
# Loops that may raise

The list traversals the modelled code is written in, in the `Py` monad, and what
they do on appended and on failing inputs. `filterPy` and `findPy` evaluate their
test from left to right and stop at the first exception.
-/

namespace Python

variable {α β σ : Type}

/-! ## Exceptions of a kind -/

/-- What a call raises, when it raises, is of a kind. -/
def RaisesOnly (p : PyError → Prop) (x : Py α) : Prop := ∀ e, x = .error e → p e

variable {p : PyError → Prop}

theorem raisesOnly_ok (a : α) : RaisesOnly p (.ok a) := nofun

theorem raisesOnly_error {e : PyError} (h : p e) : RaisesOnly p (.error e : Py α) := by
  rintro _ ⟨⟩
  exact h

theorem raisesOnly_require {c : Prop} [Decidable c] {e : PyError} (h : p e) :
    RaisesOnly p (require c e) := by
  unfold require
  split
  · exact raisesOnly_ok ()
  · exact raisesOnly_error h

theorem raisesOnly_orRaise {x : Option α} {e : PyError} (h : p e) :
    RaisesOnly p (orRaise x e) := by
  cases x with
  | none => exact raisesOnly_error h
  | some a => exact raisesOnly_ok a

/-- One call after the other. -/
theorem RaisesOnly.bind {x : Py α} {f : α → Py β} (hx : RaisesOnly p x)
    (hf : ∀ a, x = .ok a → RaisesOnly p (f a)) : RaisesOnly p (x >>= f) := by
  cases x with
  | error e => exact raisesOnly_error (hx e rfl)
  | ok a => exact hf a rfl

/-- A handler of the exceptions of a kind. -/
theorem RaisesOnly.exceptValueError {x : Py α} {handler : PyError → Py α}
    (hx : RaisesOnly p x) (hhandler : ∀ e, p e → RaisesOnly p (handler e)) :
    RaisesOnly p (exceptValueError x handler) := by
  unfold Python.exceptValueError
  cases x with
  | ok a => exact raisesOnly_ok a
  | error e =>
    dsimp only
    split
    · exact hhandler e (hx e rfl)
    · exact raisesOnly_error (hx e rfl)

/-! ## Searches -/

/-- `[x for x in xs if p(x)]`. -/
def filterPy (p : α → Py Bool) : List α → Py (List α)
  | [] => .ok []
  | x :: xs => do
    let keep ← p x
    let rest ← filterPy p xs
    .ok (if keep then x :: rest else rest)

/-- `next((x for x in xs if p(x)), None)`. -/
def findPy (p : α → Py Bool) : List α → Py (Option α)
  | [] => .ok none
  | x :: xs => do
    if ← p x then .ok (some x) else findPy p xs

theorem filterPy_append (p : α → Py Bool) (xs ys : List α) :
    filterPy p (xs ++ ys) = (do .ok ((← filterPy p xs) ++ (← filterPy p ys))) := by
  induction xs with
  | nil =>
    cases h : filterPy p ys <;> simp [filterPy, h]
  | cons x xs ih =>
    simp only [List.cons_append, filterPy, ih]
    cases p x with
    | error e => rfl
    | ok keep =>
      cases filterPy p xs with
      | error e => rfl
      | ok kept =>
        cases filterPy p ys with
        | error e => rfl
        | ok more => cases keep <;> rfl

/-- Items that fail the test leave no trace. -/
theorem filterPy_eq_nil {p : α → Py Bool} {xs : List α} (h : ∀ x ∈ xs, p x = .ok false) :
    filterPy p xs = .ok [] := by
  induction xs with
  | nil => rfl
  | cons x xs ih =>
    have hx := h x (by simp)
    simp [filterPy, hx, ih fun y hy => h y (by simp [hy])]

/-- A loop over `xs` that succeeds, split at any point. -/
theorem foldlM_append_eq_ok {f : σ → α → Py σ} {s t : σ} {xs ys : List α} :
    (xs ++ ys).foldlM f s = .ok t ↔
      ∃ m, xs.foldlM f s = .ok m ∧ ys.foldlM f m = .ok t := by
  rw [List.foldlM_append, bind_eq_ok]

@[simp] theorem foldlM_nil_eq_ok {f : σ → α → Py σ} {s t : σ} :
    ([] : List α).foldlM f s = .ok t ↔ s = t := by
  simp [List.foldlM]

@[simp] theorem foldlM_cons_eq_ok {f : σ → α → Py σ} {s t : σ} {x : α} {xs : List α} :
    (x :: xs).foldlM f s = .ok t ↔ ∃ m, f s x = .ok m ∧ xs.foldlM f m = .ok t := by
  rw [List.foldlM_cons, bind_eq_ok]

/-- A loop for its exceptions alone. -/
theorem forM_eq_ok {f : α → Py Unit} {xs : List α} {u : Unit} :
    xs.forM f = .ok u ↔ ∀ x ∈ xs, f x = .ok () := by
  induction xs with
  | nil => exact ⟨fun _ => nofun, fun _ => rfl⟩
  | cons x xs ih =>
    show (f x >>= fun _ => xs.forM f) = _ ↔ _
    rw [bind_eq_ok, List.forall_mem_cons, ← ih]
    constructor
    · rintro ⟨⟨⟩, hx, hxs⟩
      exact ⟨hx, hxs⟩
    · rintro ⟨hx, hxs⟩
      exact ⟨(), hx, hxs⟩

/-! ## `mapM` -/

theorem forall₂_of_mapM {f : α → Py β} {xs : List α} {ys : List β}
    (h : xs.mapM f = .ok ys) : List.Forall₂ (fun x y => f x = .ok y) xs ys := by
  induction xs generalizing ys with
  | nil =>
    rw [List.mapM_nil] at h
    cases h
    exact .nil
  | cons x xs ih =>
    rw [List.mapM_cons] at h
    simp only [bind_eq_ok, pure_eq_ok] at h
    obtain ⟨y, hy, rest, hrest, rfl⟩ := h
    exact .cons hy (ih hrest)

theorem mapM_of_forall₂ {f : α → Py β} {xs : List α} {ys : List β}
    (h : List.Forall₂ (fun x y => f x = .ok y) xs ys) : xs.mapM f = .ok ys := by
  induction h with
  | nil => rfl
  | cons hy _ ih =>
    rw [List.mapM_cons, hy, ih]
    rfl

/-- A loop whose steps all succeed succeeds. -/
theorem exists_mapM_of_forall {f : α → Py β} {xs : List α} (h : ∀ x ∈ xs, ∃ y, f x = .ok y) :
    ∃ ys, xs.mapM f = .ok ys := by
  induction xs with
  | nil => exact ⟨[], rfl⟩
  | cons x xs ih =>
    obtain ⟨y, hy⟩ := h x List.mem_cons_self
    obtain ⟨ys, hys⟩ := ih fun x hx => h x (List.mem_cons_of_mem _ hx)
    exact ⟨y :: ys, by rw [List.mapM_cons, hy, hys]; rfl⟩

theorem exists_right_of_forall₂ {R : α → β → Prop} {xs : List α} {ys : List β} {x : α}
    (h : List.Forall₂ R xs ys) (hx : x ∈ xs) : ∃ y ∈ ys, R x y := by
  induction h with
  | nil => cases hx
  | @cons a b as bs hab _ ih =>
    obtain rfl | hx := List.mem_cons.mp hx
    · exact ⟨b, List.mem_cons_self, hab⟩
    · obtain ⟨y, hy, hxy⟩ := ih hx
      exact ⟨y, List.mem_cons_of_mem _ hy, hxy⟩

theorem exists_left_of_forall₂ {R : α → β → Prop} {xs : List α} {ys : List β} {y : β}
    (h : List.Forall₂ R xs ys) (hy : y ∈ ys) : ∃ x ∈ xs, R x y :=
  exists_right_of_forall₂ h.flip hy

theorem mapM_eq_ok_mem {f : α → Py β} {xs : List α} {ys : List β}
    (hmap : xs.mapM f = .ok ys) : ∀ y ∈ ys, ∃ x ∈ xs, f x = .ok y := by
  induction xs generalizing ys with
  | nil =>
    cases hmap
    simp
  | cons x xs ih =>
    rw [List.mapM_cons] at hmap
    obtain ⟨y, hy, hmap⟩ := bind_eq_ok.mp hmap
    obtain ⟨rest, hrest, ⟨⟩⟩ := bind_eq_ok.mp hmap
    refine List.forall_mem_cons.mpr ⟨⟨x, by simp, hy⟩, fun z hz => ?_⟩
    obtain ⟨u, hu, huz⟩ := ih hrest z hz
    exact ⟨u, by simp [hu], huz⟩

theorem mapM_map_of_forall {f : α → Py β} {g : β → α} {ys : List β}
    (hmap : ∀ y ∈ ys, f (g y) = .ok y) : (ys.map g).mapM f = .ok ys := by
  induction ys with
  | nil => rfl
  | cons y ys ih =>
    rw [List.map_cons, List.mapM_cons, hmap y (by simp), ih fun z hz => hmap z (by simp [hz])]
    rfl

theorem map_eq_of_mapM {γ : Type} {f : α → Py β} {g : β → γ} {k : α → γ}
    (hstep : ∀ x y, f x = .ok y → g y = k x) {xs : List α} {ys : List β}
    (hmap : xs.mapM f = .ok ys) : ys.map g = xs.map k := by
  have hrel := forall₂_of_mapM hmap
  clear hmap
  induction hrel with
  | nil => rfl
  | cons h _ ih => rw [List.map_cons, List.map_cons, ih, hstep _ _ h]

theorem mapM_append_eq_ok {f : α → Py β} {xs ys : List α} {zs : List β} :
    (xs ++ ys).mapM f = .ok zs ↔
      ∃ us vs, xs.mapM f = .ok us ∧ ys.mapM f = .ok vs ∧ us ++ vs = zs := by
  rw [List.mapM_append, bind_eq_ok]
  refine exists_congr fun us => ?_
  rw [bind_eq_ok]
  constructor
  · rintro ⟨hus, vs, hvs, hzs⟩
    exact ⟨vs, hus, hvs, pure_eq_ok.mp hzs⟩
  · rintro ⟨vs, hus, hvs, hzs⟩
    exact ⟨hus, vs, hvs, pure_eq_ok.mpr hzs⟩

end Python
