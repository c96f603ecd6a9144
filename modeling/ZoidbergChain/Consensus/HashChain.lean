import Mathlib

/-!
# Hash chains

A record is read by folding over its rows. A row has an identity, and the identity of the last
row is the tip of what has been read. Where the identity of a row binds the row and the tip
that it stands on, the tip binds everything that has been read.

- `HashChain.eq_of_tip`: two records with one tip are one record.
- `HashChain.prefix_of_tip`: a record whose tip another record has had is a prefix of it.
-/

namespace Consensus

variable {S R D E : Type}

/-- The identities of the rows bind the rows and what they stand on. -/
structure HashChain (step : S → R → Except E S) (tip : S → Option D) (identity : R → D) :
    Prop where
  tip_step : ∀ {s s' r}, step s r = .ok s' → tip s' = some (identity r)
  binds : ∀ {s s' t t' r q}, step s r = .ok s' → step t q = .ok t' → identity r = identity q →
    r = q ∧ tip s = tip t

namespace HashChain

variable {step : S → R → Except E S} {tip : S → Option D} {identity : R → D} {start : S}

theorem foldlM_concat {rows : List R} {r : R} {s s' : S} :
    (rows ++ [r]).foldlM step s = .ok s' ↔
      ∃ m, rows.foldlM step s = .ok m ∧ step m r = .ok s' := by
  rw [List.foldlM_append]
  cases rows.foldlM step s with
  | error e => simp [bind, Except.bind]
  | ok m =>
    simp only [bind, Except.bind, List.foldlM, pure, Except.pure, Except.ok.injEq,
      exists_eq_left']
    cases step m r <;> rfl

/-- Two records with one tip are one record. -/
theorem eq_of_tip (h : HashChain step tip identity) (hstart : tip start = none)
    {rows rows' : List R} {s s' : S} (hrows : rows.foldlM step start = .ok s)
    (hrows' : rows'.foldlM step start = .ok s') (htip : tip s = tip s') : rows = rows' := by
  induction rows using List.reverseRecOn generalizing rows' s s' with
  | nil =>
    cases hrows
    cases rows' using List.reverseRecOn with
    | nil => rfl
    | append_singleton rows' q =>
      obtain ⟨m, -, hstep⟩ := foldlM_concat.mp hrows'
      rw [hstart, h.tip_step hstep] at htip
      cases htip
  | append_singleton rows r ih =>
    obtain ⟨m, hm, hstep⟩ := foldlM_concat.mp hrows
    cases rows' using List.reverseRecOn with
    | nil =>
      cases hrows'
      rw [hstart, h.tip_step hstep] at htip
      cases htip
    | append_singleton rows' q =>
      obtain ⟨m', hm', hstep'⟩ := foldlM_concat.mp hrows'
      rw [h.tip_step hstep, h.tip_step hstep'] at htip
      obtain ⟨rfl, hbefore⟩ := h.binds hstep hstep' (Option.some.inj htip)
      rw [ih hm hm' hbefore]

/-- A record whose tip another record has had after some rows is what that record was then. -/
theorem prefix_of_tip (h : HashChain step tip identity) (hstart : tip start = none)
    {rows rest rows' : List R} {s s' m : S} (hrows : rows.foldlM step start = .ok s)
    (hrows' : (rows' ++ rest).foldlM step start = .ok s')
    (hm : rows'.foldlM step start = .ok m) (htip : tip s = tip m) :
    rows = rows' ∧ s = m ∧ rest.foldlM step s = .ok s' := by
  obtain rfl := h.eq_of_tip hstart hrows hm htip
  obtain rfl := Except.ok.inj (hrows.symm.trans hm)
  refine ⟨rfl, rfl, ?_⟩
  rw [List.foldlM_append, hrows] at hrows'
  exact hrows'

end HashChain

end Consensus
