import Mathlib

/-!
# Quorums

Two sets of voters out of one membership overlap when their sizes add up to more than
the membership has members, and overlap in an honest voter when they exceed it by more
than the faulty voters.

- `card_add_card_le`: the size of the overlap.
- `exists_honest_mem_inter`: an honest voter in the overlap.
-/

namespace Consensus

variable {V : Type*} [DecidableEq V]

/-- Two sets of members overlap in at least what their sizes exceed the membership by. -/
theorem card_add_card_le {members A B : Finset V} (hA : A ⊆ members) (hB : B ⊆ members) :
    A.card + B.card ≤ members.card + (A ∩ B).card := by
  have hunion : (A ∪ B).card ≤ members.card :=
    Finset.card_le_card (Finset.union_subset hA hB)
  have hinter := Finset.card_union_add_card_inter A B
  omega

/-- Two sets of members that exceed the membership by more than the faulty members share
an honest one. -/
theorem exists_honest_mem_inter {members faulty A B : Finset V} (hA : A ⊆ members)
    (hB : B ⊆ members) (hcard : members.card + faulty.card < A.card + B.card) :
    ∃ i ∈ A, i ∈ B ∧ i ∉ faulty := by
  have hoverlap := card_add_card_le hA hB
  have hmore : faulty.card < (A ∩ B).card := by omega
  obtain ⟨i, hi, hhonest⟩ := Finset.exists_mem_notMem_of_card_lt_card hmore
  obtain ⟨hiA, hiB⟩ := Finset.mem_inter.mp hi
  exact ⟨i, hiA, hiB, hhonest⟩

end Consensus
