import TonNode.Simplex.Certificate
import TonNode.Simplex.Tsentrizbirkom

/-!
# Pool state of one slot

Stored certificates, the votes of every validator, the running weights and the
base a block of the slot may extend.
-/

namespace TonNode.Simplex

open Consensus

variable {n : Nat}

structure CertAndFlag (n : Nat) where
  beingSaved : Bool := false
  cert : Option (Certificate n) := none
deriving DecidableEq, Repr

structure CertificateBundle (n : Nat) where
  notar : CertAndFlag n := {}
  skip : CertAndFlag n := {}
  final : CertAndFlag n := {}
deriving DecidableEq, Repr

namespace CertificateBundle

def entry (bundle : CertificateBundle n) : VoteKind → CertAndFlag n
  | .notarize => bundle.notar
  | .finalize => bundle.final
  | .skip => bundle.skip

def withEntry (bundle : CertificateBundle n) (kind : VoteKind) (entry : CertAndFlag n) : CertificateBundle n :=
  match kind with
  | .notarize => { bundle with notar := entry }
  | .finalize => { bundle with final := entry }
  | .skip => { bundle with skip := entry }

def needs (bundle : CertificateBundle n) (vote : Vote) : Bool :=
  (bundle.entry vote.kind).cert.isNone && !(bundle.entry vote.kind).beingSaved

def markSaving (bundle : CertificateBundle n) (kind : VoteKind) : CertificateBundle n :=
  bundle.withEntry kind { bundle.entry kind with beingSaved := true }

def rememberProspective (bundle : CertificateBundle n) (vote : Vote) : Except Check (CertificateBundle n) :=
  let entry := bundle.entry vote.kind
  if entry.cert.isNone && !entry.beingSaved then
    .ok (bundle.markSaving vote.kind)
  else
    .error .certificateNotProspective

/-- The result is the returned flag and the updated bundle. -/
def store (bundle : CertificateBundle n) (cert : Certificate n) : Bool × CertificateBundle n :=
  let entry := bundle.entry cert.vote.kind
  if entry.cert.isSome then
    (false, bundle)
  else
    (true, bundle.withEntry cert.vote.kind { entry with cert := some cert })

def serializeTo (bundle : CertificateBundle n) : List ProtocolMessage :=
  let message (entry : CertAndFlag n) : List ProtocolMessage :=
    entry.cert.toList.map fun cert => .certificate cert.toTl
  message bundle.notar ++ message bundle.skip ++ message bundle.final

lemma entry_withEntry (bundle : CertificateBundle n) (kind other : VoteKind) (entry : CertAndFlag n) :
    (bundle.withEntry kind entry).entry other = if other = kind then entry else bundle.entry other := by
  cases kind <;> cases other <;> rfl

lemma entry_markSaving (bundle : CertificateBundle n) (kind other : VoteKind) : (bundle.markSaving kind).entry other =
      { bundle.entry other with
        beingSaved := (bundle.entry other).beingSaved || decide (other = kind) } := by
  rw [markSaving, entry_withEntry]
  split
  next same => simp [same]
  next different => simp [different]

end CertificateBundle

def Tsentrizbirkom.serializeVote (votes : Tsentrizbirkom n) (bundle : CertificateBundle n)
    (kind : VoteKind) : Except Check (List ProtocolMessage) :=
  match votes.stored kind, (bundle.entry kind).cert with
  | some vote, none => do
    let signedVote ← vote.asSignedVote
    return [.vote signedVote.vote signedVote.signature]
  | _, _ => .ok []

def Tsentrizbirkom.serializeTo (votes : Tsentrizbirkom n) (bundle : CertificateBundle n) :
    Except Check (List ProtocolMessage) := do
  let notarize ← votes.serializeVote bundle .notarize
  let skip ← votes.serializeVote bundle .skip
  let finalize ← votes.serializeVote bundle .finalize
  return notarize ++ skip ++ finalize

structure SlotState (n : Nat) where
  votes : Fin n → Tsentrizbirkom n := fun _ => {}
  certs : CertificateBundle n := {}
  skipWeight : Nat := 0
  notarizeWeight : CandidateId → Nat := fun _ => 0
  finalizeWeight : CandidateId → Nat := fun _ => 0
  availableBase : Option ParentId := none

namespace SlotState

/-- The signatures of the loop over `votes` in `create_cert`. -/
def collectSignatures (slot : SlotState n) (vote : Vote) :
    List (Fin n) → Except Check (List (VoteSignature n))
  | [] => .ok []
  | validator :: rest => do
    let signature ← (slot.votes validator).toSignature vote
    let signatures ← slot.collectSignatures vote rest
    return signature.toList ++ signatures

def createCert (slot : SlotState n) (vote : Vote) : Except Check (Certificate n) := do
  let signatures ← slot.collectSignatures vote (List.finRange n)
  return { vote, signatures }

def isNotarized (slot : SlotState n) : Bool := slot.certs.notar.cert.isSome

def notarizedBlock (slot : SlotState n) : Option CandidateId :=
  match slot.certs.notar.cert with
  | some cert => cert.vote.candidateId?
  | none =>
    match slot.certs.final.cert with
    | some cert => cert.vote.candidateId?
    | none => none

def isSkipped (slot : SlotState n) : Bool := slot.certs.skip.cert.isSome

/-- `will_be_notarized`, `will_be_skipped` and `will_be_finalized` by vote type. -/
def willBe (slot : SlotState n) (kind : VoteKind) : Bool :=
  (slot.certs.entry kind).cert.isSome || (slot.certs.entry kind).beingSaved

def addAvailableBase (slot : SlotState n) (parent : ParentId) : SlotState n :=
  match slot.availableBase with
  | none => { slot with availableBase := some parent }
  | some base =>
    if ParentId.le base parent then { slot with availableBase := some parent } else slot

def weightOf (slot : SlotState n) : Vote → Nat
  | .notarize id => slot.notarizeWeight id
  | .finalize id => slot.finalizeWeight id
  | .skip _ => slot.skipWeight

def addWeightTo (slot : SlotState n) (vote : Vote) (weight : Nat) : SlotState n :=
  match vote with
  | .notarize id =>
    { slot with notarizeWeight :=
        Function.update slot.notarizeWeight id (addWeight (slot.notarizeWeight id) weight) }
  | .finalize id =>
    { slot with finalizeWeight :=
        Function.update slot.finalizeWeight id (addWeight (slot.finalizeWeight id) weight) }
  | .skip _ => { slot with skipWeight := addWeight slot.skipWeight weight }

def setVotes (slot : SlotState n) (validator : Fin n) (votes : Tsentrizbirkom n) : SlotState n :=
  { slot with votes := Function.update slot.votes validator votes }

def standstillMessages (slot : SlotState n) (localId : Fin n) : Except Check (List ProtocolMessage) := do
  let votes ← (slot.votes localId).serializeTo slot.certs
  return slot.certs.serializeTo ++ votes

end SlotState

end TonNode.Simplex
