import TonNode.Simplex.State
import TonNode.Simplex.Votes

/-!
# Votes of one validator in one slot

`Tsentrizbirkom` keeps the first vote of each type and reports a validator whose
votes contradict each other. The laws below say exactly when it reports.
-/

namespace TonNode.Simplex

open Consensus

variable {n : Nat}

/-- Evidence for a vote: the signed vote itself or a certificate containing it. -/
inductive VoteProof (n : Nat) where
  | signed (vote : Signed n)
  | certificate (certificate : Certificate n)
deriving DecidableEq, Repr

structure Proven (n : Nat) where
  vote : Vote
  proof : VoteProof n
deriving DecidableEq, Repr

inductive Misbehavior (n : Nat) where
  | conflictingVotes (first second : VoteProof n)
  | conflictingCandidateAndCertificate
deriving DecidableEq, Repr

namespace Proven

def ofSigned (vote : Signed n) : Proven n := { vote := vote.vote, proof := .signed vote }

lemma ofSigned_slot (vote : Signed n) : (ofSigned vote).vote.referencedSlot = vote.vote.referencedSlot := rfl

def ofCertificate (certificate : Certificate n) : Proven n :=
  { vote := certificate.vote, proof := .certificate certificate }

def asSignedVote (proven : Proven n) : Except Check (Signed n) :=
  match proven.proof with
  | .signed vote => .ok vote
  | .certificate _ => .error .signedVoteProof

def toSignature (proven : Proven n) (vote : Vote) : Except Check (Option (VoteSignature n)) :=
  if vote ≠ proven.vote then
    .ok none
  else do
    let signedVote ← proven.asSignedVote
    return some { validator := signedVote.validator, signature := signedVote.signature }

end Proven

structure Tsentrizbirkom (n : Nat) where
  notarize : Option (Proven n) := none
  skip : Option (Proven n) := none
  finalize : Option (Proven n) := none
deriving DecidableEq, Repr

structure AddVoteResult (n : Nat) where
  isApplied : Bool
  misbehavior : Option (Misbehavior n)
deriving DecidableEq, Repr

namespace AddVoteResult

def ofMisbehavior (misbehavior : Misbehavior n) : AddVoteResult n :=
  { isApplied := false, misbehavior := some misbehavior }

def ofBool (isApplied : Bool) : AddVoteResult n := { isApplied, misbehavior := none }

end AddVoteResult

namespace Tsentrizbirkom

def stored (votes : Tsentrizbirkom n) : VoteKind → Option (Proven n)
  | .notarize => votes.notarize
  | .finalize => votes.finalize
  | .skip => votes.skip

def withStored (votes : Tsentrizbirkom n) (kind : VoteKind) (vote : Option (Proven n)) : Tsentrizbirkom n :=
  match kind with
  | .notarize => { votes with notarize := vote }
  | .finalize => { votes with finalize := vote }
  | .skip => { votes with skip := vote }

def wants (votes : Tsentrizbirkom n) (vote : Vote) : Bool :=
  (votes.stored vote.kind).isNone

def checkInvariants (votes : Tsentrizbirkom n) : Option (Misbehavior n) :=
  let finalizeSkip : Option (Misbehavior n) :=
    match votes.finalize, votes.skip with
    | some finalize, some skip => some (.conflictingVotes finalize.proof skip.proof)
    | _, _ => none
  match votes.notarize, votes.finalize with
  | some notarize, some finalize =>
    if notarize.vote.candidateId? ≠ finalize.vote.candidateId? then
      some (.conflictingVotes notarize.proof finalize.proof)
    else
      finalizeSkip
  | _, _ => finalizeSkip

/-- The common tail of the `add_vote` overloads: store, check, roll back. -/
def storeChecked (votes : Tsentrizbirkom n) (kind : VoteKind) (vote : Proven n) : AddVoteResult n × Tsentrizbirkom n :=
  let updated := votes.withStored kind (some vote)
  match updated.checkInvariants with
  | some misbehavior => (.ofMisbehavior misbehavior, updated.withStored kind none)
  | none => (.ofBool true, updated)

/-- Votes that name a candidate are compared with the one already stored. -/
def addComparedVote (votes : Tsentrizbirkom n) (kind : VoteKind) (vote : Proven n) : AddVoteResult n × Tsentrizbirkom n :=
  match votes.stored kind with
  | some previous =>
    if previous.vote ≠ vote.vote then
      (.ofMisbehavior (.conflictingVotes vote.proof previous.proof), votes)
    else
      (.ofBool false, votes)
  | none => votes.storeChecked kind vote

def addNotarizeVote (votes : Tsentrizbirkom n) (vote : Proven n) : AddVoteResult n × Tsentrizbirkom n :=
  votes.addComparedVote .notarize vote

def addFinalizeVote (votes : Tsentrizbirkom n) (vote : Proven n) : AddVoteResult n × Tsentrizbirkom n :=
  votes.addComparedVote .finalize vote

def addSkipVote (votes : Tsentrizbirkom n) (vote : Proven n) : AddVoteResult n × Tsentrizbirkom n :=
  match votes.skip with
  | some _ => (.ofBool false, votes)
  | none => votes.storeChecked .skip vote

def addVote (votes : Tsentrizbirkom n) (vote : Proven n) : AddVoteResult n × Tsentrizbirkom n :=
  match vote.vote.kind with
  | .notarize => votes.addNotarizeVote vote
  | .finalize => votes.addFinalizeVote vote
  | .skip => votes.addSkipVote vote

def toSignature (votes : Tsentrizbirkom n) (vote : Vote) : Except Check (Option (VoteSignature n)) :=
  match votes.stored vote.kind with
  | some stored => stored.toSignature vote
  | none => .ok none

end Tsentrizbirkom

/-- Two votes of one validator for one slot that no honest validator casts. -/
def Vote.conflicts : Vote → Vote → Bool
  | .notarize left, .notarize right => left ≠ right
  | .finalize left, .finalize right => left ≠ right
  | .notarize left, .finalize right => left ≠ right
  | .finalize left, .notarize right => left ≠ right
  | .finalize _, .skip _ => true
  | .skip _, .finalize _ => true
  | _, _ => false

lemma Vote.conflicts_comm (left right : Vote) : left.conflicts right = right.conflicts left := by
  cases left <;> cases right <;> simp [Vote.conflicts, eq_comm]

lemma Vote.not_conflicts_self (vote : Vote) : vote.conflicts vote = false := by
  cases vote <;> simp [Vote.conflicts]

variable {left right : Vote}

lemma Vote.conflicts_eq_false_of_same_kind (kind : left.kind = right.kind) (slot : left.referencedSlot = right.referencedSlot) :
    left.conflicts right = false ↔ left = right := by
  cases left <;> cases right <;> simp_all [Vote.conflicts, Vote.kind, Vote.referencedSlot]

lemma Vote.conflicts_notarize_finalize (leftKind : left.kind = .notarize) (rightKind : right.kind = .finalize) :
    left.conflicts right = false ↔ left.candidateId? = right.candidateId? := by
  cases left <;> cases right <;> simp_all [Vote.conflicts, Vote.kind, Vote.candidateId?]

lemma Vote.conflicts_finalize_skip (leftKind : left.kind = .finalize) (rightKind : right.kind = .skip) :
    left.conflicts right = true := by
  cases left <;> cases right <;> simp_all [Vote.conflicts, Vote.kind]

lemma Vote.not_conflicts_notarize_skip (leftKind : left.kind = .notarize) (rightKind : right.kind = .skip) :
    left.conflicts right = false := by
  cases left <;> cases right <;> simp_all [Vote.conflicts, Vote.kind]

namespace Tsentrizbirkom

@[simp] lemma stored_withStored_self (votes : Tsentrizbirkom n) (kind : VoteKind)
    (vote : Option (Proven n)) : (votes.withStored kind vote).stored kind = vote := by
  cases kind <;> rfl

lemma stored_withStored_ne (votes : Tsentrizbirkom n) {kind other : VoteKind}
    (vote : Option (Proven n)) (different : other ≠ kind) : (votes.withStored kind vote).stored other = votes.stored other := by
  cases kind <;> cases other <;> first | rfl | exact absurd rfl different

lemma stored_withStored (votes : Tsentrizbirkom n) (kind other : VoteKind) (vote : Option (Proven n)) :
    (votes.withStored kind vote).stored other = if other = kind then vote else votes.stored other := by
  by_cases same : other = kind
  · simp [same]
  · simp [stored_withStored_ne votes vote same, same]

variable {votes : Tsentrizbirkom n} {slot : Nat} {vote : Proven n}

lemma withStored_withStored_none {kind : VoteKind} {vote : Option (Proven n)} (absent : votes.stored kind = none) :
    (votes.withStored kind vote).withStored kind none = votes := by
  cases votes
  cases kind <;> simp_all [withStored, stored]

/-- Stored votes sit under their own type, belong to the slot and are mutually
consistent. `add_vote` keeps this by rolling back. -/
structure Coherent (slot : Nat) (votes : Tsentrizbirkom n) : Prop where
  typed : ∀ kind vote, votes.stored kind = some vote → vote.vote.kind = kind ∧ vote.vote.referencedSlot = slot
  consistent : ∀ kind other vote otherVote, votes.stored kind = some vote →
    votes.stored other = some otherVote → vote.vote.conflicts otherVote.vote = false

lemma coherent_empty (slot : Nat) : Coherent slot ({} : Tsentrizbirkom n) := by
  constructor <;> intro kind <;> cases kind <;> simp [stored]

lemma checkInvariants_eq_none : votes.checkInvariants = none ↔
      (∀ notarize finalize, votes.notarize = some notarize → votes.finalize = some finalize →
        notarize.vote.candidateId? = finalize.vote.candidateId?) ∧ (votes.finalize = none ∨ votes.skip = none) := by
  obtain ⟨notarize, skip, finalize⟩ := votes
  cases notarize <;> cases finalize <;> cases skip <;> simp [checkInvariants]
  split <;> simp

/-- The invariant check fails exactly on a conflicting pair of stored votes. -/
lemma checkInvariants_eq_none_iff_consistent (typed : ∀ kind vote, votes.stored kind = some vote → vote.vote.kind = kind ∧
      vote.vote.referencedSlot = slot) : votes.checkInvariants = none ↔
      ∀ kind other vote otherVote, votes.stored kind = some vote →
        votes.stored other = some otherVote → vote.vote.conflicts otherVote.vote = false := by
  rw [checkInvariants_eq_none]
  constructor
  · rintro ⟨agree, exclusive⟩
    have ordered : ∀ kind other vote otherVote, votes.stored kind = some vote →
        votes.stored other = some otherVote →
        (kind = other ∨ kind = .notarize ∨ kind = .finalize ∧ other = .skip) →
        vote.vote.conflicts otherVote.vote = false := by
      intro kind other vote otherVote found otherFound order
      have left := (typed kind vote found).1
      have right := (typed other otherVote otherFound).1
      rcases order with rfl | rfl | ⟨rfl, rfl⟩
      · rw [found] at otherFound
        cases otherFound
        exact Vote.not_conflicts_self _
      · cases other with
        | notarize =>
          rw [found] at otherFound
          cases otherFound
          exact Vote.not_conflicts_self _
        | finalize =>
          exact (Vote.conflicts_notarize_finalize left right).mpr (agree vote otherVote found otherFound)
        | skip => exact Vote.not_conflicts_notarize_skip left right
      · simp only [stored] at found otherFound
        simp [found, otherFound] at exclusive
    intro kind other vote otherVote found otherFound
    have comparable :
        (kind = other ∨ kind = .notarize ∨ kind = .finalize ∧ other = .skip) ∨
        (other = kind ∨ other = .notarize ∨ other = .finalize ∧ kind = .skip) := by
      cases kind <;> cases other <;> simp
    rcases comparable with order | order
    · exact ordered kind other vote otherVote found otherFound order
    · rw [Vote.conflicts_comm]
      exact ordered other kind otherVote vote otherFound found order
  · intro consistent
    refine ⟨?_, ?_⟩
    · intro notarize finalize notarizeFound finalizeFound
      exact (Vote.conflicts_notarize_finalize (typed .notarize notarize notarizeFound).1
        (typed .finalize finalize finalizeFound).1).mp
          (consistent .notarize .finalize notarize finalize notarizeFound finalizeFound)
    · cases finalizeFound : votes.finalize with
      | none => simp
      | some finalize =>
        cases skipFound : votes.skip with
        | none => simp
        | some skip =>
          have opposed := Vote.conflicts_finalize_skip (typed .finalize finalize finalizeFound).1 (typed .skip skip skipFound).1
          simp [consistent .finalize .skip finalize skip finalizeFound skipFound] at opposed

def Opposes (votes : Tsentrizbirkom n) (vote : Vote) : Prop :=
  ∃ kind previous, votes.stored kind = some previous ∧ previous.vote.conflicts vote = true

private lemma storeChecked_cases (coherent : Coherent slot votes)
    (located : vote.vote.referencedSlot = slot) (absent : votes.stored vote.vote.kind = none) :
    (votes.Opposes vote.vote ∧ ∃ misbehavior, votes.storeChecked vote.vote.kind vote = (.ofMisbehavior misbehavior, votes)) ∨
    (¬ votes.Opposes vote.vote ∧ Coherent slot (votes.withStored vote.vote.kind (some vote)) ∧
      votes.storeChecked vote.vote.kind vote = (.ofBool true, votes.withStored vote.vote.kind (some vote))) := by
  have typed : ∀ kind other, (votes.withStored vote.vote.kind (some vote)).stored kind =
      some other → other.vote.kind = kind ∧ other.vote.referencedSlot = slot := by
    intro kind other found
    rw [stored_withStored] at found
    split at found
    next same =>
      cases found
      exact ⟨same.symm, located⟩
    next => exact coherent.typed kind other found
  have characterized := checkInvariants_eq_none_iff_consistent typed
  by_cases opposed : votes.Opposes vote.vote
  · refine .inl ⟨opposed, ?_⟩
    obtain ⟨kind, previous, found, conflict⟩ := opposed
    cases checked : (votes.withStored vote.vote.kind (some vote)).checkInvariants with
    | none =>
      have different : kind ≠ vote.vote.kind := by
        rintro rfl
        simp [absent] at found
      have clear := characterized.mp checked kind vote.vote.kind previous vote
        (by rw [stored_withStored_ne _ _ different, found]) (by simp)
      simp [clear] at conflict
    | some misbehavior =>
      exact ⟨misbehavior, by
        simp [storeChecked, checked, withStored_withStored_none absent]⟩
  · refine .inr ⟨opposed, ?_⟩
    have clear : ∀ kind previous, votes.stored kind = some previous →
        previous.vote.conflicts vote.vote = false := by
      intro kind previous found
      by_contra conflict
      exact opposed ⟨kind, previous, found, by simpa using conflict⟩
    have consistent : ∀ kind other first second,
        (votes.withStored vote.vote.kind (some vote)).stored kind = some first →
        (votes.withStored vote.vote.kind (some vote)).stored other = some second →
        first.vote.conflicts second.vote = false := by
      intro kind other first second found otherFound
      rw [stored_withStored] at found otherFound
      split at found <;> split at otherFound
      · cases found
        cases otherFound
        exact Vote.not_conflicts_self _
      · cases found
        rw [Vote.conflicts_comm]
        exact clear other second otherFound
      · cases otherFound
        exact clear kind first found
      · exact coherent.consistent kind other first second found otherFound
    exact ⟨⟨typed, consistent⟩, by simp [storeChecked, characterized.mpr consistent]⟩

lemma addVote_outcome (votes : Tsentrizbirkom n) (vote : Proven n) :
    (∃ misbehavior, votes.addVote vote = (.ofMisbehavior misbehavior, votes)) ∨ votes.addVote vote = (.ofBool false, votes) ∨
    (votes.stored vote.vote.kind = none ∧ votes.addVote vote = (.ofBool true, votes.withStored vote.vote.kind (some vote))) := by
  have checked : votes.stored vote.vote.kind = none →
      (∃ misbehavior, votes.storeChecked vote.vote.kind vote = (.ofMisbehavior misbehavior, votes)) ∨
      votes.storeChecked vote.vote.kind vote =
        (.ofBool true, votes.withStored vote.vote.kind (some vote)) := by
    intro absent
    simp only [storeChecked, withStored_withStored_none absent]
    split
    · exact .inl ⟨_, rfl⟩
    · exact .inr rfl
  have compared : (∃ misbehavior,
        votes.addComparedVote vote.vote.kind vote = (.ofMisbehavior misbehavior, votes)) ∨
      votes.addComparedVote vote.vote.kind vote = (.ofBool false, votes) ∨
      (votes.stored vote.vote.kind = none ∧ votes.addComparedVote vote.vote.kind vote =
        (.ofBool true, votes.withStored vote.vote.kind (some vote))) := by
    unfold addComparedVote
    split
    · split
      · exact .inl ⟨_, rfl⟩
      · exact .inr (.inl rfl)
    next absent =>
      rcases checked absent with reported | applied
      · exact .inl reported
      · exact .inr (.inr ⟨absent, applied⟩)
  unfold addVote
  split
  next kind =>
    rw [kind] at compared ⊢
    exact compared
  next kind =>
    rw [kind] at compared ⊢
    exact compared
  next kind =>
    rw [kind] at checked ⊢
    unfold addSkipVote
    split
    · exact .inr (.inl rfl)
    next absent =>
      rcases checked absent with reported | applied
      · exact .inl reported
      · exact .inr (.inr ⟨absent, applied⟩)

lemma addVote_cases (coherent : Coherent slot votes) (located : vote.vote.referencedSlot = slot) :
    (votes.Opposes vote.vote ∧ ∃ misbehavior, votes.addVote vote = (.ofMisbehavior misbehavior, votes)) ∨
    (¬ votes.Opposes vote.vote ∧ (∃ previous, votes.stored vote.vote.kind = some previous ∧
      previous.vote = vote.vote) ∧ votes.addVote vote = (.ofBool false, votes)) ∨
    (¬ votes.Opposes vote.vote ∧ votes.stored vote.vote.kind = none ∧
      Coherent slot (votes.withStored vote.vote.kind (some vote)) ∧
      votes.addVote vote = (.ofBool true, votes.withStored vote.vote.kind (some vote))) := by
  cases found : votes.stored vote.vote.kind with
  | none =>
    have reduced : votes.addVote vote = votes.storeChecked vote.vote.kind vote := by
      cases kind : vote.vote.kind <;> rw [kind] at found <;> simp only [stored] at found <;>
        simp [addVote, addNotarizeVote, addFinalizeVote, addSkipVote, addComparedVote, kind, stored, found]
    rw [reduced]
    rcases storeChecked_cases coherent located found with reported | ⟨clear, kept, applied⟩
    · exact .inl reported
    · exact .inr (.inr ⟨clear, rfl, kept, applied⟩)
  | some previous =>
    obtain ⟨kindSame, slotSame⟩ := coherent.typed _ previous found
    have compared := Vote.conflicts_eq_false_of_same_kind kindSame (slotSame.trans located.symm)
    by_cases same : previous.vote = vote.vote
    · refine .inr (.inl ⟨?_, ⟨previous, rfl, same⟩, ?_⟩)
      · rintro ⟨kind, other, otherFound, conflict⟩
        have clear := coherent.consistent kind _ other previous otherFound found
        rw [same] at clear
        simp [clear] at conflict
      · cases kind : vote.vote.kind <;> rw [kind] at found <;> simp only [stored] at found <;>
          simp [addVote, addNotarizeVote, addFinalizeVote, addSkipVote, addComparedVote, kind, stored, found, same]
    · have conflict : previous.vote.conflicts vote.vote = true := by
        by_contra clear
        exact same (compared.mp (by simpa using clear))
      refine .inl ⟨⟨_, previous, found, conflict⟩, ?_⟩
      have named : vote.vote.kind ≠ .skip := by
        intro kind
        apply same
        cases left : previous.vote <;> cases right : vote.vote <;> simp_all [Vote.kind, Vote.referencedSlot]
      refine ⟨.conflictingVotes vote.proof previous.proof, ?_⟩
      cases kind : vote.vote.kind with
      | skip => exact absurd kind named
      | notarize =>
        rw [kind] at found
        simp [addVote, kind, addNotarizeVote, addComparedVote, found, same]
      | finalize =>
        rw [kind] at found
        simp [addVote, kind, addFinalizeVote, addComparedVote, found, same]

/-- A later state of a validator's votes: nothing is removed and consistency is
kept. -/
structure Grows (slot : Nat) (votes later : Tsentrizbirkom n) : Prop where
  coherent : votes.Coherent slot → later.Coherent slot
  kept : ∀ kind proven, votes.stored kind = some proven → later.stored kind = some proven

lemma Grows.refl (slot : Nat) (votes : Tsentrizbirkom n) : Grows slot votes votes :=
  ⟨fun coherent => coherent, fun _ _ found => found⟩

lemma Grows.trans {middle later : Tsentrizbirkom n} (first : Grows slot votes middle) (second : Grows slot middle later) :
    Grows slot votes later :=
  ⟨fun coherent => second.coherent (first.coherent coherent),
    fun kind proven found => second.kept kind proven (first.kept kind proven found)⟩

lemma addVote_grows (votes : Tsentrizbirkom n) (vote : Proven n) :
    Grows vote.vote.referencedSlot votes (votes.addVote vote).2 where
  coherent coherent := by
    rcases addVote_cases coherent rfl with ⟨_, _, outcome⟩ | ⟨_, _, outcome⟩ | ⟨_, _, stored, outcome⟩
    · rwa [outcome]
    · rwa [outcome]
    · rwa [outcome]
  kept kind proven found := by
    rcases votes.addVote_outcome vote with ⟨_, outcome⟩ | outcome | ⟨absent, outcome⟩
    · rwa [outcome]
    · rwa [outcome]
    · have different : kind ≠ vote.vote.kind := by
        rintro rfl
        rw [absent] at found
        cases found
      rwa [outcome, stored_withStored_ne _ _ different]

end Tsentrizbirkom

end TonNode.Simplex
