import Mathlib

/-!
# Reference counts on a graph

Nodes refer to their children, with multiplicity. A node is live while its count is positive, and
a count is what is owed to the outside plus the references of the live nodes.
-/

namespace TonNode.Lib

open Finset

variable {α : Type} [DecidableEq α]

def one (node : α) : α → Int := fun other => if other = node then 1 else 0

@[simp] lemma one_self (node : α) : one node node = 1 := if_pos rfl

lemma one_of_ne {node other : α} (different : other ≠ node) : one node other = 0 :=
  if_neg different

lemma one_nonneg (node other : α) : 0 ≤ one node other := by
  unfold one
  split <;> decide

lemma sub_one_nonneg {owed : α → Int} {node : α} (nonneg : ∀ other, 0 ≤ owed other)
    (isOwed : 0 < owed node) (other : α) : 0 ≤ (owed - one node) other := by
  have atLeast := nonneg other
  show 0 ≤ owed other - one node other
  by_cases same : other = node
  · subst same
    rw [one_self]
    omega
  · rw [one_of_ne same]
    omega

def references (nodes : List α) : α → Int := fun other => nodes.count other

@[simp] lemma references_nil : references ([] : List α) = 0 := by
  funext other
  simp [references]

lemma references_cons (node : α) (rest : List α) : references (node :: rest) = one node + references rest := by
  funext other
  by_cases same : other = node
  · subst same
    simp [references, Int.add_comm]
  · have apart : node ≠ other := fun equal => same equal.symm
    simp [references, one_of_ne same, List.count_cons_of_ne apart]

lemma references_nonneg (nodes : List α) (other : α) : 0 ≤ references nodes other :=
  Int.natCast_nonneg _

lemma references_le_length (nodes : List α) (other : α) : references nodes other ≤ nodes.length :=
  Int.ofNat_le.mpr List.count_le_length

lemma references_pos {nodes : List α} {other : α} : 0 < references nodes other ↔ other ∈ nodes := by
  unfold references
  rw [Int.natCast_pos, List.count_pos_iff]

variable {children : α → List α} {live : Finset α} {count owed : α → Int}

structure Counted (children : α → List α) (live : Finset α) (count owed : α → Int) : Prop where
  positive : ∀ node ∈ live, 0 < count node
  dead : ∀ node, node ∉ live → count node = 0
  balance : ∀ node, count node = owed node + ∑ parent ∈ live, references (children parent) node

namespace Counted

lemma nonneg (counted : Counted children live count owed) (node : α) : 0 ≤ count node := by
  by_cases isLive : node ∈ live
  · exact (counted.positive node isLive).le
  · exact (counted.dead node isLive).ge

variable {node : α}

section

variable (counted : Counted children live count owed)
include counted

lemma mem_iff : node ∈ live ↔ 0 < count node := by
  constructor
  · exact counted.positive node
  · intro positive
    by_contra isDead
    have zero := counted.dead node isDead
    omega

lemma owed_le (node : α) : owed node ≤ count node := by
  rw [counted.balance node]
  have inner : 0 ≤ ∑ parent ∈ live, references (children parent) node := sum_nonneg fun parent _ => references_nonneg _ _
  omega

lemma mem_of_owed (isOwed : 0 < owed node) : node ∈ live :=
  counted.mem_iff.mpr (lt_of_lt_of_le isOwed (counted.owed_le node))

lemma retain (isLive : node ∈ live) : Counted children live (count + one node) (owed + one node) where
  positive := by
    intro other otherLive
    have before := counted.positive other otherLive
    have more := one_nonneg node other
    show 0 < count other + one node other
    omega
  dead := by
    intro other otherDead
    have different : other ≠ node := fun same => otherDead (same ▸ isLive)
    show count other + one node other = 0
    rw [counted.dead other otherDead, one_of_ne different, Int.add_zero]
  balance := by
    intro other
    show count other + one node other = owed other + one node other + _
    rw [counted.balance other]
    ring

/-- A node that comes to life owes its children a reference each. -/
lemma birth (isDead : node ∉ live) : Counted children (insert node live) (count + one node)
      (owed + one node - references (children node)) where
  positive := by
    intro other otherLive
    show 0 < count other + one node other
    rcases mem_insert.mp otherLive with rfl | wasLive
    · rw [counted.dead other isDead, one_self]
      decide
    · have before := counted.positive other wasLive
      have more := one_nonneg node other
      omega
  dead := by
    intro other otherDead
    rw [mem_insert, not_or] at otherDead
    show count other + one node other = 0
    rw [counted.dead other otherDead.2, one_of_ne otherDead.1, Int.add_zero]
  balance := by
    intro other
    rw [sum_insert isDead]
    show count other + one node other = owed other + one node other - references (children node) other + _
    rw [counted.balance other]
    ring

lemma release (several : 1 < count node) : Counted children live (count - one node) (owed - one node) where
  positive := by
    intro other otherLive
    show 0 < count other - one node other
    by_cases same : other = node
    · subst same
      rw [one_self]
      omega
    · rw [one_of_ne same]
      have before := counted.positive other otherLive
      omega
  dead := by
    intro other otherDead
    have zero := counted.dead other otherDead
    have different : other ≠ node := by
      intro same
      subst same
      omega
    show count other - one node other = 0
    rw [zero, one_of_ne different, Int.sub_zero]
  balance := by
    intro other
    show count other - one node other = owed other - one node other + _
    rw [counted.balance other]
    ring

/-- When the last reference to a node goes, its own references are still to be taken back. -/
lemma death (last : count node = 1) : Counted children (live.erase node) (count - one node)
      (owed - one node + references (children node)) where
  positive := by
    intro other otherLive
    obtain ⟨different, wasLive⟩ := mem_erase.mp otherLive
    show 0 < count other - one node other
    rw [one_of_ne different, Int.sub_zero]
    exact counted.positive other wasLive
  dead := by
    intro other otherDead
    show count other - one node other = 0
    by_cases same : other = node
    · subst same
      rw [last, one_self]
      rfl
    · have wasDead : other ∉ live := fun wasLive =>
        otherDead (mem_erase.mpr ⟨same, wasLive⟩)
      rw [counted.dead other wasDead, one_of_ne same, Int.sub_zero]
  balance := by
    intro other
    have isLive : node ∈ live := counted.mem_iff.mpr (by omega)
    have split := add_sum_erase live (fun parent => references (children parent) other) isLive
    show count other - one node other = owed other - one node other + references (children node) other + _
    rw [counted.balance other, ← split]
    ring

lemma children_live (nonneg : ∀ node, 0 ≤ owed node) {parent child : α} (isLive : parent ∈ live)
    (isChild : child ∈ children parent) : child ∈ live := by
  have fromParent : references (children parent) child ≤ ∑ other ∈ live, references (children other) child :=
    single_le_sum (f := fun other => references (children other) child) (fun other _ => references_nonneg _ _) isLive
  have positive : 0 < references (children parent) child := references_pos.mpr isChild
  have balance := counted.balance child
  have owedNonneg := nonneg child
  exact counted.mem_iff.mpr (by omega)

lemma exists_parent (isLive : node ∈ live) (notOwed : owed node ≤ 0) : ∃ parent ∈ live, node ∈ children parent := by
  have positive : 0 < ∑ parent ∈ live, references (children parent) node := by
    have balance := counted.balance node
    have alive := counted.positive node isLive
    omega
  by_contra none
  push Not at none
  have zero : ∑ parent ∈ live, references (children parent) node = 0 := by
    apply sum_eq_zero
    intro parent parentLive
    have absent : ¬0 < references (children parent) node := fun present =>
      none parent parentLive (references_pos.mp present)
    have atLeast := references_nonneg (children parent) node
    omega
  omega

end

end Counted

inductive ReachableFrom (children : α → List α) (isRoot : α → Prop) : α → Prop where
  | root {node : α} : isRoot node → ReachableFrom children isRoot node
  | child {parent node : α} : ReachableFrom children isRoot parent → node ∈ children parent →
      ReachableFrom children isRoot node

namespace Counted

/-- Exactly the nodes below an owed node are live. The induction goes up the graph, where ranks
are bounded. -/
lemma mem_iff_reachable (counted : Counted children live count owed) (nonneg : ∀ node, 0 ≤ owed node) {rank : α → Nat}
    (descends : ∀ parent ∈ live, ∀ child ∈ children parent, rank child < rank parent) {node : α} :
    node ∈ live ↔ ReachableFrom children (fun root => 0 < owed root) node := by
  constructor
  · intro isLive
    induction gap : live.sup rank - rank node using Nat.strong_induction_on generalizing node with
    | _ gap ih =>
      by_cases isOwed : 0 < owed node
      · exact .root isOwed
      · obtain ⟨parent, parentLive, isChild⟩ := counted.exists_parent isLive (Int.not_lt.mp isOwed)
        have higher := descends parent parentLive node isChild
        have bounded : rank parent ≤ live.sup rank := le_sup parentLive
        exact .child (ih (live.sup rank - rank parent) (by omega) parentLive rfl) isChild
  · intro reachable
    induction reachable with
    | root isOwed => exact counted.mem_of_owed isOwed
    | child _ isChild ih => exact counted.children_live nonneg ih isChild

/-- What is owed determines the live nodes, and with them the counts. -/
lemma unique {otherLive : Finset α} {otherCount : α → Int} (counted : Counted children live count owed)
    (other : Counted children otherLive otherCount owed) (nonneg : ∀ node, 0 ≤ owed node) {rank : α → Nat}
    (descends : ∀ parent child, child ∈ children parent → rank child < rank parent) : count = otherCount := by
  have sameLive : live = otherLive := by
    ext node
    rw [counted.mem_iff_reachable nonneg fun parent _ => descends parent,
      other.mem_iff_reachable nonneg fun parent _ => descends parent]
  subst sameLive
  funext node
  rw [counted.balance, other.balance]

end Counted

end TonNode.Lib
