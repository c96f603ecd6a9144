import Mathlib

/-!
# Programs over a durable state

A program reads and writes a state and may stop with an exception. What it has written by
then stays written: the state is that of files, not that of a transaction.

- `Program.Keeps inv p x q`: started in a state with `p`, the program ends in one with
  `q` when it returns and in one with `inv` when it stops.
- One rule for each way to build a program.
-/

namespace Python

/-- A program over the state `σ`. -/
def Program (σ ε α : Type) : Type := σ → Except ε α × σ

namespace Program

variable {σ ε α β : Type}

instance : Monad (Program σ ε) where
  pure a := fun s => (.ok a, s)
  bind x f := fun s =>
    match x s with
    | (.ok a, s') => f a s'
    | (.error e, s') => (.error e, s')

def get : Program σ ε σ := fun s => (.ok s, s)

def modify (f : σ → σ) : Program σ ε Unit := fun s => (.ok (), f s)

def raise (e : ε) : Program σ ε α := fun s => (.error e, s)

/-- A computation that does not touch the state. -/
def ofExcept (x : Except ε α) : Program σ ε α := fun s => (x, s)

/-- `try: x except ...: h`. -/
def handle (x : Program σ ε α) (h : ε → Program σ ε α) : Program σ ε α := fun s =>
  match x s with
  | (.ok a, s') => (.ok a, s')
  | (.error e, s') => h e s'

/-- What holds after the program, whether it returns or stops. -/
def Keeps (inv p : σ → Prop) (x : Program σ ε α) (q : α → σ → Prop) : Prop :=
  ∀ s, p s → (∀ a s', x s = (.ok a, s') → q a s') ∧ ∀ e s', x s = (.error e, s') → inv s'

variable {inv p p' : σ → Prop} {q q' : α → σ → Prop} {x : Program σ ε α}

theorem Keeps.conseq (h : Keeps inv p x q) (hpre : ∀ s, p' s → p s)
    (hpost : ∀ a s, q a s → q' a s) : Keeps inv p' x q' :=
  fun s hs => ⟨fun a s' hx => hpost a s' ((h s (hpre s hs)).1 a s' hx), (h s (hpre s hs)).2⟩

theorem Keeps.pure {a : α} (h : ∀ s, p s → q a s) :
    Keeps inv p (Pure.pure a : Program σ ε α) q := by
  intro s hs
  refine ⟨fun b s' hx => ?_, nofun⟩
  cases hx
  exact h s hs

/-- One program after the other. -/
theorem Keeps.bind {f : α → Program σ ε β} {q : β → σ → Prop} {m : α → σ → Prop}
    (hx : Keeps inv p x m) (hf : ∀ a, Keeps inv (m a) (f a) q) :
    Keeps inv p (x >>= f) q := by
  intro s hs
  have heq : (x >>= f) s = match x s with
      | (.ok a, s') => f a s'
      | (.error e, s') => (.error e, s') := rfl
  rw [heq]
  obtain ⟨hok, herror⟩ := hx s hs
  cases hres : x s with
  | mk r s' =>
    cases r with
    | ok a => exact hf a s' (hok a s' hres)
    | error e =>
      refine ⟨nofun, fun e' s'' h => ?_⟩
      cases h
      exact herror e s' hres

theorem Keeps.get : Keeps inv p (get : Program σ ε σ) fun a s => a = s ∧ p s := by
  intro s hs
  refine ⟨fun a s' hx => ?_, nofun⟩
  cases hx
  exact ⟨rfl, hs⟩

theorem Keeps.modify {f : σ → σ} {q : Unit → σ → Prop} (h : ∀ s, p s → q () (f s)) :
    Keeps inv p (modify f : Program σ ε Unit) q := by
  intro s hs
  refine ⟨fun a s' hx => ?_, nofun⟩
  cases hx
  exact h s hs

theorem Keeps.raise {e : ε} (h : ∀ s, p s → inv s) :
    Keeps inv p (raise e : Program σ ε α) q := by
  intro s hs
  refine ⟨nofun, fun e' s' hx => ?_⟩
  cases hx
  exact h s hs

/-- A computation that does not touch the state says what it returns. -/
theorem Keeps.ofExcept {x : Except ε α} (h : ∀ s, p s → inv s) :
    Keeps inv p (ofExcept x : Program σ ε α) fun a s => x = .ok a ∧ p s := by
  intro s hs
  constructor
  · intro a s' hx
    cases hx
    exact ⟨rfl, hs⟩
  · intro e s' hx
    cases hx
    exact h s hs

theorem Keeps.handle {h : ε → Program σ ε α} (hx : Keeps inv p x q)
    (hh : ∀ e, Keeps inv inv (h e) q) : Keeps inv p (handle x h) q := by
  intro s hs
  obtain ⟨hok, herror⟩ := hx s hs
  unfold Program.handle
  cases hres : x s with
  | mk r s' =>
    cases r with
    | ok a =>
      refine ⟨fun b s'' heq => ?_, nofun⟩
      cases heq
      exact hok a s' hres
    | error e => exact hh e s' (herror e s' hres)

/-- A program that is started in one of several ways. -/
theorem Keeps.of_exists {ι : Type} {p : ι → σ → Prop} (h : ∀ i, Keeps inv (p i) x q) :
    Keeps inv (fun s => ∃ i, p i s) x q := fun s ⟨i, hi⟩ => h i s hi

/-- What the program is started in besides a fact. -/
theorem Keeps.of_fact {c : Prop} (h : c → Keeps inv p x q) :
    Keeps inv (fun s => c ∧ p s) x q := fun s hs => h hs.1 s hs.2

end Program

end Python
