import Mathlib

/-!
# Consensus data types

Candidate identifiers, candidate contents and peer messages shared by the
actors of one validator group. Slots are `td::uint32` in the source and natural
numbers here; where the pool adds to a slot the sum wraps as it does there.
-/

namespace TonNode.Consensus

abbrev BufferSlice := List UInt8

instance encodableUInt8 : Encodable UInt8 :=
  Encodable.ofLeftInverse UInt8.toNat UInt8.ofNat fun byte => by simp

/-- A digest read as a big-endian number. Only equality and order are used. -/
abbrev Bits256 := Nat

structure BlockIdExt where
  workchain : Int
  shard : Nat
  seqno : Nat
  rootHash : Bits256
  fileHash : Bits256
deriving DecidableEq, Repr, Encodable

structure CandidateId where
  slot : Nat
  hash : Bits256
deriving DecidableEq, Repr, Encodable

/-- `none` is the consensus genesis. -/
abbrev ParentId := Option CandidateId

/-- `slot + 1` in `td::uint32`. -/
def nextSlot (slot : Nat) : Nat := (slot + 1) % 2 ^ 32

lemma nextSlot_of_lt {slot : Nat} (below : slot + 1 < 2 ^ 32) : nextSlot slot = slot + 1 :=
  Nat.mod_eq_of_lt below

def CandidateId.le (left right : CandidateId) : Bool :=
  left.slot < right.slot || (left.slot == right.slot && left.hash ≤ right.hash)

def ParentId.le : ParentId → ParentId → Bool
  | none, _ => true
  | some _, none => false
  | some left, some right => left.le right

/-- A parent is in an earlier slot than its candidate, so this sum does not wrap. -/
def nextSlotAfterParent : ParentId → Nat
  | none => 0
  | some parent => parent.slot + 1

@[simp] lemma nextSlotAfterParent_none : nextSlotAfterParent none = 0 := rfl

@[simp] lemma nextSlotAfterParent_some (parent : CandidateId) :
    nextSlotAfterParent (some parent) = parent.slot + 1 := rfl

lemma all_slot_lt_iff (parent : ParentId) (slot : Nat) :
    parent.all (·.slot < slot) = true ↔ nextSlotAfterParent parent ≤ slot := by
  cases parent with
  | none => simp
  | some parent => simp

variable {left right : ParentId}

lemma ParentId.le_of_next_lt (below : nextSlotAfterParent left < nextSlotAfterParent right) :
    ParentId.le left right = true := by
  cases left with
  | none => rfl
  | some left =>
    cases right with
    | none => simp at below
    | some right =>
      simp only [nextSlotAfterParent_some, Nat.add_lt_add_iff_right] at below
      simp [ParentId.le, CandidateId.le, below]

lemma ParentId.next_le_of_le (ordered : ParentId.le left right = true) :
    nextSlotAfterParent left ≤ nextSlotAfterParent right := by
  cases left with
  | none => simp
  | some left =>
    cases right with
    | none => simp [ParentId.le] at ordered
    | some right =>
      simp only [ParentId.le, CandidateId.le, Bool.or_eq_true, Bool.and_eq_true, decide_eq_true_eq, beq_iff_eq] at ordered
      simp only [nextSlotAfterParent_some]
      omega

/-- An empty candidate refers to an earlier block, a full one carries its own. -/
inductive CandidateBlock where
  | empty (reference : BlockIdExt)
  | full (id : BlockIdExt) (collatedFileHash : Bits256)
deriving DecidableEq, Repr, Encodable

structure CandidateHashData where
  candidate : CandidateBlock
  parent : ParentId
deriving DecidableEq, Repr, Encodable

def CandidateHashData.createEmpty (reference : BlockIdExt) (parent : CandidateId) : CandidateHashData :=
  { candidate := .empty reference, parent := some parent }

def CandidateHashData.createFull (id : BlockIdExt) (collatedFileHash : Bits256) (parent : ParentId) : CandidateHashData :=
  { candidate := .full id collatedFileHash, parent }

/-- `hash` stands for the SHA-256 of the serialized hash data. -/
def CandidateHashData.buildIdWith (hash : CandidateHashData → Bits256) (data : CandidateHashData) (slot : Nat) : CandidateId :=
  { slot, hash := hash data }

structure Candidate (n : Nat) where
  id : CandidateId
  parentId : ParentId
  leader : Fin n
  block : CandidateBlock
  signature : BufferSlice
deriving DecidableEq, Repr

def Candidate.isEmpty {n : Nat} (candidate : Candidate n) : Bool :=
  match candidate.block with
  | .empty _ => true
  | .full _ _ => false

def Candidate.hashData {n : Nat} (candidate : Candidate n) : CandidateHashData :=
  { candidate := candidate.block, parent := candidate.parentId }

end TonNode.Consensus
