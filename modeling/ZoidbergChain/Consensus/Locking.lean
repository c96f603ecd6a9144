import ZoidbergChain.Consensus.Quorum

/-!
# Agreement by locking

Rounds of voting in two steps: prevotes, and precommits for a value with a quorum of
prevotes (a *polka*). A voter that precommitted a value stays with it in later rounds,
unless it sees a polka for another value at least as late as its precommit. Then no two
values are ever committed, in whatever rounds.

- `Locking`: the rules that honest voters keep.
- `Locking.polka_eq`: behind a commit every polka is for the committed value.
- `Locking.agreement`: two committed values are equal.
-/

namespace Consensus

/-- Who has voted for what in which round. -/
structure VotingRecord (V Val : Type*) where
  members : Finset V
  faulty : Finset V
  threshold : Nat
  prevote : V → Nat → Val → Prop
  precommit : V → Nat → Val → Prop

variable {V Val : Type*} [DecidableEq V] {R : VotingRecord V Val}

/-- A quorum of prevotes for a value. -/
def Polka (R : VotingRecord V Val) (round : Nat) (value : Val) : Prop :=
  ∃ A ⊆ R.members, R.threshold ≤ A.card ∧ ∀ i ∈ A, R.prevote i round value

/-- A quorum of precommits for a value. -/
def Committed (R : VotingRecord V Val) (round : Nat) (value : Val) : Prop :=
  ∃ A ⊆ R.members, R.threshold ≤ A.card ∧ ∀ i ∈ A, R.precommit i round value

/-- The rules of the honest voters, and quorums that overlap in one of them. -/
structure Locking (R : VotingRecord V Val) : Prop where
  overlap : R.members.card + R.faulty.card < 2 * R.threshold
  one_prevote : ∀ {i r v w}, i ∉ R.faulty → R.prevote i r v → R.prevote i r w → v = w
  one_precommit : ∀ {i r v w}, i ∉ R.faulty → R.precommit i r v → R.precommit i r w → v = w
  polka : ∀ {i r v}, i ∉ R.faulty → R.precommit i r v → Polka R r v
  lock : ∀ {i r r' v w}, i ∉ R.faulty → R.precommit i r v → R.prevote i r' w → r < r' → v ≠ w →
    ∃ s, r ≤ s ∧ s < r' ∧ Polka R s w

namespace Locking

/-- Two quorums share an honest member. -/
theorem exists_honest (hR : Locking R) {A B : Finset V} (hA : A ⊆ R.members)
    (hB : B ⊆ R.members) (hcardA : R.threshold ≤ A.card) (hcardB : R.threshold ≤ B.card) :
    ∃ i ∈ A, i ∈ B ∧ i ∉ R.faulty := by
  have := hR.overlap
  exact exists_honest_mem_inter hA hB (by omega)

theorem polka_unique (hR : Locking R) {r : Nat} {v w : Val} (hv : Polka R r v)
    (hw : Polka R r w) : v = w := by
  obtain ⟨A, hA, hcardA, hvotesA⟩ := hv
  obtain ⟨B, hB, hcardB, hvotesB⟩ := hw
  obtain ⟨i, hiA, hiB, hhonest⟩ := hR.exists_honest hA hB hcardA hcardB
  exact hR.one_prevote hhonest (hvotesA i hiA) (hvotesB i hiB)

/-- A committed value has a polka in its round. -/
theorem polka_of_committed (hR : Locking R) {r : Nat} {v : Val} (hv : Committed R r v) :
    Polka R r v := by
  obtain ⟨A, hA, hcardA, hvotesA⟩ := hv
  obtain ⟨i, hiA, -, hhonest⟩ := hR.exists_honest hA hA hcardA hcardA
  exact hR.polka hhonest (hvotesA i hiA)

/-- From the round of a commit on, every polka is for the committed value: the first one
for another value would need a voter that left its lock without a reason. -/
theorem polka_eq (hR : Locking R) {r r' : Nat} {v w : Val} (hv : Committed R r v)
    (hle : r ≤ r') (hw : Polka R r' w) : v = w := by
  induction r' using Nat.strong_induction_on generalizing w with
  | _ r' ih =>
    rcases hle.eq_or_lt with rfl | hlt
    · exact hR.polka_unique (hR.polka_of_committed hv) hw
    · by_contra hne
      obtain ⟨A, hA, hcardA, hvotesA⟩ := hv
      obtain ⟨B, hB, hcardB, hvotesB⟩ := hw
      obtain ⟨i, hiA, hiB, hhonest⟩ := hR.exists_honest hA hB hcardA hcardB
      obtain ⟨s, hrs, hsr', hs⟩ := hR.lock hhonest (hvotesA i hiA) (hvotesB i hiB) hlt hne
      exact hne (ih s hsr' hrs hs)

/-- At most one value is committed. -/
theorem agreement (hR : Locking R) {r r' : Nat} {v w : Val} (hv : Committed R r v)
    (hw : Committed R r' w) : v = w := by
  rcases Nat.le_total r r' with hle | hle
  · exact hR.polka_eq hv hle (hR.polka_of_committed hw)
  · exact (hR.polka_eq hw hle (hR.polka_of_committed hv)).symm

end Locking

end Consensus
