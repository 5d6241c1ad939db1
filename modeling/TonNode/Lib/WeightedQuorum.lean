import Mathlib

/-!
# Weighted quorums

Voters carry natural weights and at most a third of the total weight is faulty.
Sets heavier than two thirds of the total always share a correct voter.
-/

namespace TonNode.Lib

open Finset

variable {V : Type} [Fintype V] [DecidableEq V]

/-- A set whose weight is above two thirds of the total. -/
def IsQuorum (weight : V → Nat) (voters : Finset V) : Prop :=
  (∑ voter, weight voter) * 2 / 3 + 1 ≤ ∑ voter ∈ voters, weight voter

def FaultyBelowThird (weight : V → Nat) (faulty : Finset V) : Prop :=
  3 * ∑ voter ∈ faulty, weight voter < ∑ voter, weight voter

/-- Two quorums overlap in more weight than the faulty voters hold. -/
lemma IsQuorum.exists_common_correct {weight : V → Nat} {left right faulty : Finset V}
    (leftQuorum : IsQuorum weight left) (rightQuorum : IsQuorum weight right) (bounded : FaultyBelowThird weight faulty) :
    ∃ voter, voter ∈ left ∧ voter ∈ right ∧ voter ∉ faulty := by
  unfold IsQuorum at leftQuorum rightQuorum
  unfold FaultyBelowThird at bounded
  by_contra absent
  push Not at absent
  have shared : left ∩ right ⊆ faulty := by
    intro voter member
    obtain ⟨inLeft, inRight⟩ := mem_inter.mp member
    exact absent voter inLeft inRight
  have sharedLight := sum_le_sum_of_subset (f := weight) shared
  have unionLight := sum_le_sum_of_subset (f := weight) (subset_univ (left ∪ right))
  have split : ∑ voter ∈ left ∪ right, weight voter + ∑ voter ∈ left ∩ right, weight voter =
      ∑ voter ∈ left, weight voter + ∑ voter ∈ right, weight voter := sum_union_inter
  omega

end TonNode.Lib
