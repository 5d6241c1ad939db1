import TonNode.Consensus.Types

/-!
# Per-slot state

`ConsensusState` hands out one state object per slot and forgets the slots at or
below the last finalized one. A slot is never created again once forgotten, so
the object of a slot is a function of its number; entries below the watermark
are the objects kept alive only by references taken earlier.
-/

namespace TonNode.Simplex

open Consensus

/-- Assertions and dereferences whose failure aborts the process. -/
inductive Check where
  | slotTracked
  | signedVoteProof
  | ownVotesConsistent
  | certificateNotProspective
  | certificateNotStored
  | finalSlotNotSkipped
  | finalSlotNotarizedBlock
  | availableBasePresent
  | skipIntervalPresent
  | parentBeforeCandidate
  | firstNonfinalizedSlotPositive
  | parentPresent
  | voteOrCertificatePresent
  | storedCertificateValid
  | windowNotAnnounced
  | leaderWindowIncreasing
deriving DecidableEq, Repr

structure ConsensusState (SlotState : Type) where
  firstNonFinalizedSlot : Nat
  slots : Nat → SlotState
  /-- Every slot from here on still has its initial state. -/
  trackedEnd : Nat

namespace ConsensusState

variable {SlotState : Type}

def initial (state : SlotState) : ConsensusState SlotState :=
  { firstNonFinalizedSlot := 0, slots := fun _ => state, trackedEnd := 0 }

def slotAt (state : ConsensusState SlotState) (slot : Nat) : Option SlotState :=
  if slot < state.firstNonFinalizedSlot then none else some (state.slots slot)

def modifySlot (state : ConsensusState SlotState) (slot : Nat) (update : SlotState → SlotState) : ConsensusState SlotState :=
  { state with
    slots := Function.update state.slots slot (update (state.slots slot))
    trackedEnd := max state.trackedEnd (slot + 1) }

def notifyFinalized (state : ConsensusState SlotState) (slot : Nat) : ConsensusState SlotState :=
  { state with firstNonFinalizedSlot := max state.firstNonFinalizedSlot (nextSlot slot) }

@[simp] lemma initial_slots (state : SlotState) (slot : Nat) :
    (initial state).slots slot = state := rfl

@[simp] lemma initial_firstNonFinalizedSlot (state : SlotState) :
    (initial state).firstNonFinalizedSlot = 0 := rfl

@[simp] lemma modifySlot_firstNonFinalizedSlot (state : ConsensusState SlotState)
    (slot : Nat) (update : SlotState → SlotState) :
    (state.modifySlot slot update).firstNonFinalizedSlot = state.firstNonFinalizedSlot := rfl

@[simp] lemma modifySlot_slots_self (state : ConsensusState SlotState) (slot : Nat) (update : SlotState → SlotState) :
    (state.modifySlot slot update).slots slot = update (state.slots slot) := by
  simp [modifySlot]

variable {slot : Nat} {state : ConsensusState SlotState}

lemma modifySlot_slots_ne (state : ConsensusState SlotState) {other : Nat}
    (update : SlotState → SlotState) (different : other ≠ slot) :
    (state.modifySlot slot update).slots other = state.slots other := by
  simp [modifySlot, different]

lemma modifySlot_slots (state : ConsensusState SlotState) (slot other : Nat) (update : SlotState → SlotState) :
    (state.modifySlot slot update).slots other = if other = slot then update (state.slots slot) else state.slots other := by
  by_cases same : other = slot
  · simp [same]
  · simp [modifySlot_slots_ne state update same, same]

@[simp] lemma notifyFinalized_slots (state : ConsensusState SlotState) (slot : Nat) :
    (state.notifyFinalized slot).slots = state.slots := rfl

@[simp] lemma notifyFinalized_trackedEnd (state : ConsensusState SlotState) (slot : Nat) :
    (state.notifyFinalized slot).trackedEnd = state.trackedEnd := rfl

@[simp] lemma notifyFinalized_firstNonFinalizedSlot (state : ConsensusState SlotState)
    (slot : Nat) : (state.notifyFinalized slot).firstNonFinalizedSlot = max state.firstNonFinalizedSlot (nextSlot slot) := rfl

lemma slotAt_eq_some {value : SlotState} : state.slotAt slot = some value ↔
      state.firstNonFinalizedSlot ≤ slot ∧ state.slots slot = value := by
  unfold slotAt
  split <;> simp <;> omega

lemma slotAt_eq_none : state.slotAt slot = none ↔ slot < state.firstNonFinalizedSlot := by
  unfold slotAt
  split <;> simp <;> omega

lemma slotAt_of_le (tracked : state.firstNonFinalizedSlot ≤ slot) : state.slotAt slot = some (state.slots slot) :=
  slotAt_eq_some.mpr ⟨tracked, rfl⟩

end ConsensusState

end TonNode.Simplex
