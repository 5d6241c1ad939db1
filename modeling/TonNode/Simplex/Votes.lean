import TonNode.Consensus.Types

/-!
# Votes, certificates and the validator session

The session carries what every node of a group agrees on. Signature checking
and hashing are parameters: their code is not part of the repository.
-/

namespace TonNode.Simplex

open Consensus

inductive Vote where
  | notarize (id : CandidateId)
  | finalize (id : CandidateId)
  | skip (slot : Nat)
deriving DecidableEq, Repr, Encodable

/-- The alternatives of the vote variant, used to select a field by vote type. -/
inductive VoteKind where
  | notarize
  | finalize
  | skip
deriving DecidableEq, Repr

def Vote.kind : Vote → VoteKind
  | .notarize _ => .notarize
  | .finalize _ => .finalize
  | .skip _ => .skip

def Vote.referencedSlot : Vote → Nat
  | .notarize id => id.slot
  | .finalize id => id.slot
  | .skip slot => slot

@[simp] lemma Vote.referencedSlot_notarize (id : CandidateId) :
    (Vote.notarize id).referencedSlot = id.slot := rfl

@[simp] lemma Vote.referencedSlot_finalize (id : CandidateId) :
    (Vote.finalize id).referencedSlot = id.slot := rfl

@[simp] lemma Vote.referencedSlot_skip (slot : Nat) :
    (Vote.skip slot).referencedSlot = slot := rfl

def Vote.candidateId? : Vote → Option CandidateId
  | .notarize id => some id
  | .finalize id => some id
  | .skip _ => none

structure Signed (n : Nat) where
  validator : Fin n
  vote : Vote
  signature : BufferSlice
deriving DecidableEq, Repr

structure VoteSignature (n : Nat) where
  validator : Fin n
  signature : BufferSlice
deriving DecidableEq, Repr, Encodable

structure Certificate (n : Nat) where
  vote : Vote
  signatures : List (VoteSignature n)
deriving DecidableEq, Repr, Encodable

/-- A signature of a serialized certificate. The signer index is unchecked. -/
structure TlVoteSignature where
  who : Nat
  signature : BufferSlice
deriving DecidableEq, Repr

structure TlCertificate where
  vote : Vote
  signatures : List TlVoteSignature
deriving DecidableEq, Repr

/-- Peer messages as the TL parser returns them. -/
inductive ProtocolMessage where
  | vote (vote : Vote) (signature : BufferSlice)
  | certificate (certificate : TlCertificate)
  | other
deriving DecidableEq, Repr

/-- Objects signed by validators, before serialization under the session id. -/
inductive DataToSign where
  | vote (vote : Vote)
  | candidate (id : CandidateId)
deriving DecidableEq, Repr

/-- Objects the vote table of the database is keyed by. -/
inductive DbRecord (n : Nat) where
  | vote (vote : Vote)
  | certificate (certificate : Certificate n)
deriving DecidableEq, Repr, Encodable

structure Session (n : Nat) where
  weight : Fin n → Nat
  slotsPerLeaderWindow : Nat
  checkSignature : Fin n → DataToSign → BufferSlice → Bool
  candidateHash : CandidateHashData → Bits256
  recordHash : DbRecord n → Bits256

structure Bus (n : Nat) extends Session n where
  localId : Fin n

def addWeight (left right : Nat) : Nat := (left + right) % 2 ^ 64

namespace Session

variable {n : Nat}

def totalWeight (session : Session n) : Nat := ∑ validator, session.weight validator

/-- `(total_weight * 2) / 3 + 1`, the product taken in `uint64`. -/
def weightThreshold (session : Session n) : Nat :=
  session.totalWeight * 2 % 2 ^ 64 / 3 + 1

def Verifies (session : Session n) (validator : Fin n) (vote : Vote) (signature : BufferSlice) : Prop :=
  session.checkSignature validator (.vote vote) signature = true

def isExpectedCollator (session : Session n) (validator : Fin n) (slot : Nat) : Bool :=
  validator.val == slot / session.slotsPerLeaderWindow % n

lemma weightThreshold_eq (session : Session n) (capped : session.totalWeight ≤ 2 ^ 61) :
    session.weightThreshold = session.totalWeight * 2 / 3 + 1 := by
  have small : session.totalWeight * 2 < 2 ^ 64 := by omega
  rw [weightThreshold, Nat.mod_eq_of_lt small]

end Session

end TonNode.Simplex
