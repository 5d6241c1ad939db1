import TonNode.Db.InMemory
import TonNode.Lib.RefCount
import TonNode.Vm.DataCellProperties

/-!
# The graph of the cells that a database meets

A database knows cells by their hashes. Among the cells it meets a hash stands for one cell, so
that the hashes are the nodes of a graph without cycles.
-/

namespace TonNode.Db

open Vm Lib
open List hiding lookup

variable {sha : Sha256} {known : DataCell → Prop}

lemma lookup_set {kv : KeyValue} (refcnt : Int) (cell : DataCell) (asBoc : Bool)
    (hash : CellHash) :
    lookup StoredCell.key
        (CellStorer.erase kv cell.reprHash ++ [{ refcnt, cell, storedBoc := asBoc }]) hash =
      if hash = cell.reprHash then some { refcnt, cell, storedBoc := asBoc }
      else lookup StoredCell.key kv hash :=
  lookup_replace kv (⟨refcnt, cell, asBoc⟩ : StoredCell) hash

def hashes (cells : List DataCell) : List CellHash := cells.map DataCell.reprHash

lemma references_hashes_append (cells : List DataCell) (cell : DataCell) :
    references (hashes (cells ++ [cell])) = references (hashes cells) + one cell.reprHash := by
  unfold hashes
  induction cells with
  | nil =>
    show references [cell.reprHash] = references [] + one cell.reprHash
    rw [references_cons, references_nil, add_comm]
  | cons first rest ih =>
    rw [cons_append, map_cons, map_cons, references_cons, references_cons, ih, add_assoc]

lemma foldlM_lowers {σ ε : Type} {step : σ → DataCell → Except ε σ} {cells : List DataCell} {state : σ}
    {Lowering : σ → Finset CellHash → (CellHash → Int) → Prop} {live : Finset CellHash} {owed : CellHash → Int}
    (each : ∀ cell ∈ cells, ∀ state live owed, Lowering state live (owed + one cell.reprHash) → (∀ hash, 0 ≤ owed hash) →
      known cell → ∃ next nextLive, step state cell = .ok next ∧ Lowering next nextLive owed)
    (areKnown : ∀ cell ∈ cells, known cell) (nonneg : ∀ hash, 0 ≤ owed hash)
    (lowering : Lowering state live (owed + references (hashes cells))) :
    ∃ next nextLive, cells.foldlM step state = .ok next ∧ Lowering next nextLive owed := by
  unfold hashes at lowering
  induction cells generalizing state live with
  | nil =>
    rw [map_nil, references_nil, add_zero] at lowering
    exact ⟨state, live, rfl, lowering⟩
  | cons cell rest ih =>
    rw [map_cons, references_cons, add_comm (one _), ← add_assoc] at lowering
    have restNonneg : ∀ hash, 0 ≤ (owed + references (rest.map DataCell.reprHash)) hash :=
      fun hash => Int.add_nonneg (nonneg hash) (references_nonneg _ _)
    obtain ⟨middle, middleLive, first, lowered⟩ := each cell (by simp) state live _ lowering restNonneg (areKnown cell (by simp))
    obtain ⟨next, nextLive, others, finished⟩ := ih (forall_mem_cons.mp each).2 (forall_mem_cons.mp areKnown).2 lowered
    refine ⟨next, nextLive, ?_, finished⟩
    rw [foldlM_cons, first]
    exact others

/-- Cells that were created from contents, with all they refer to, and have no hash in common. -/
structure CellGraph (sha : Sha256) (known : DataCell → Prop) : Prop where
  created : ∀ cell, known cell → cell.Created sha
  refs : ∀ cell, known cell → ∀ ref ∈ cell.refs, known ref
  distinct : ∀ first second, known first → known second → first.reprHash = second.reprHash → first = second

open Classical in
noncomputable def refHashes (known : DataCell → Prop) (hash : CellHash) : List CellHash :=
  if named : ∃ cell, known cell ∧ cell.reprHash = hash then
    named.choose.refs.map DataCell.reprHash
  else []

open Classical in
noncomputable def hashDepth (known : DataCell → Prop) (hash : CellHash) : Nat :=
  if named : ∃ cell, known cell ∧ cell.reprHash = hash then
    named.choose.getDepth Cell.maxLevel
  else 0

namespace CellGraph

variable {cell : DataCell}

section

variable (graph : CellGraph sha known)
include graph

section

variable (isKnown : known cell)
include isKnown

lemma choose_eq (named : ∃ other, known other ∧ other.reprHash = cell.reprHash) : named.choose = cell :=
  graph.distinct _ _ named.choose_spec.1 isKnown named.choose_spec.2

lemma refHashes_eq : refHashes known cell.reprHash = cell.refs.map DataCell.reprHash := by
  have named : ∃ other, known other ∧ other.reprHash = cell.reprHash := ⟨cell, isKnown, rfl⟩
  unfold refHashes
  rw [dif_pos named, graph.choose_eq isKnown named]

lemma hashDepth_eq : hashDepth known cell.reprHash = cell.getDepth Cell.maxLevel := by
  have named : ∃ other, known other ∧ other.reprHash = cell.reprHash := ⟨cell, isKnown, rfl⟩
  unfold hashDepth
  rw [dif_pos named, graph.choose_eq isKnown named]

lemma descends {hash : CellHash} (isRef : hash ∈ refHashes known cell.reprHash) :
    hashDepth known hash < hashDepth known cell.reprHash := by
  rw [graph.refHashes_eq isKnown] at isRef
  obtain ⟨ref, member, rfl⟩ := mem_map.mp isRef
  rw [graph.hashDepth_eq isKnown, graph.hashDepth_eq (graph.refs cell isKnown ref member)]
  exact (graph.created cell isKnown).getDepth_lt member

/-- What is left when one reference to an owed cell is taken back: the cell, or its own
references. -/
lemma lower {live : Finset CellHash} {counts owed : CellHash → Int} (nonneg : ∀ hash, 0 ≤ owed hash)
    (counted : Counted (refHashes known) live counts (owed + one cell.reprHash)) : 0 ≤ counts cell.reprHash - 1 ∧
      (counts cell.reprHash - 1 ≠ 0 → Counted (refHashes known) live (counts - one cell.reprHash) owed) ∧
      (counts cell.reprHash - 1 = 0 → Counted (refHashes known) (live.erase cell.reprHash)
          (counts - one cell.reprHash) (owed + references (cell.refs.map DataCell.reprHash))) := by
  have atLeast := counted.owed_le cell.reprHash
  have more : (owed + one cell.reprHash) cell.reprHash = owed cell.reprHash + 1 := by
    show owed cell.reprHash + one cell.reprHash cell.reprHash = _
    rw [one_self]
  have ownNonneg := nonneg cell.reprHash
  refine ⟨by omega, ?_, ?_⟩
  · intro notLast
    have released := @Counted.release _ _ _ _ _ _ cell.reprHash counted (by omega)
    rw [add_sub_cancel_right] at released
    exact released
  · intro isLast
    have died := @Counted.death _ _ _ _ _ _ cell.reprHash counted (by omega)
    rw [add_sub_cancel_right, graph.refHashes_eq isKnown] at died
    exact died

lemma hash_ne {other : DataCell} (otherKnown : known other)
    (shallower : other.getDepth Cell.maxLevel < cell.getDepth Cell.maxLevel) : other.reprHash ≠ cell.reprHash := by
  intro same
  have equal := graph.distinct other cell otherKnown isKnown same
  subst equal
  exact lt_irrefl _ shallower

end

/-- A hash that no cell has refers to nothing. -/
lemma descends_hash (parent child : CellHash) (isRef : child ∈ refHashes known parent) :
    hashDepth known child < hashDepth known parent := by
  by_cases named : ∃ cell, known cell ∧ cell.reprHash = parent
  · obtain ⟨cell, isKnown, rfl⟩ := named
    exact graph.descends isKnown isRef
  · unfold refHashes at isRef
    rw [dif_neg named] at isRef
    exact absurd isRef not_mem_nil

end

end CellGraph

def kvCount (kv : KeyValue) (hash : CellHash) : Int :=
  ((lookup StoredCell.key kv hash).map StoredCell.refcnt).getD 0

/-- A store that holds what is below its roots, counted exactly. A reload adds one to a count, and
the sum has to fit as well. -/
structure ConsistentStore (known : DataCell → Prop) (kv : KeyValue) (owed : CellHash → Int) :
    Prop where
  keyed : Keyed StoredCell.key kv
  areKnown : ∀ stored ∈ kv, known stored.cell
  positive : ∀ stored ∈ kv, 0 < stored.refcnt
  few : ∀ stored ∈ kv, stored.refcnt + 1 < 2 ^ 31
  counted : ∃ live, Counted (refHashes known) live (kvCount kv) owed
  nonneg : ∀ hash, 0 ≤ owed hash

end TonNode.Db
