import TonNode.Simplex.SlotState

/-!
# Vote tallies of one slot

The counters of a slot are the weights of the validators whose stored vote
arrived signed. A certificate built from those votes is therefore valid.
-/

namespace TonNode.Simplex

open Consensus Lib Finset

variable {n : Nat}

def Proven.isSigned (proven : Proven n) : Bool :=
  match proven.proof with
  | .signed _ => true
  | .certificate _ => false

/-- The evidence for a vote was produced by the validator it is held against. -/
structure Proven.Authentic (signs : Fin n → Vote → BufferSlice → Prop) (validator : Fin n)
    (proven : Proven n) : Prop where
  signed : ∀ vote, proven.proof = .signed vote → vote.validator = validator ∧ vote.vote = proven.vote ∧
      signs validator proven.vote vote.signature
  certified : ∀ cert, proven.proof = .certificate cert →
    cert.vote = proven.vote ∧ ∃ signature, signs validator proven.vote signature

variable {signs : Fin n → Vote → BufferSlice → Prop}
variable {validator : Fin n} {proven : Proven n} {more : Fin n → Vote → BufferSlice → Prop} {cert : Certificate n}

lemma Proven.Authentic.exists_signature (authentic : proven.Authentic signs validator) :
    ∃ signature, signs validator proven.vote signature := by
  cases proof : proven.proof with
  | signed vote => exact ⟨_, (authentic.signed vote proof).2.2⟩
  | certificate cert => exact (authentic.certified cert proof).2

lemma Proven.Authentic.imp {validator : Fin n} (authentic : proven.Authentic signs validator)
    (included : signs ≤ more) : proven.Authentic more validator where
  signed vote proof := by
    obtain ⟨owner, same, signed⟩ := authentic.signed vote proof
    exact ⟨owner, same, included _ _ _ signed⟩
  certified cert proof := by
    obtain ⟨same, signature, signed⟩ := authentic.certified cert proof
    exact ⟨same, signature, included _ _ _ signed⟩

lemma Proven.authentic_ofSigned {vote : Signed n} (signed : signs vote.validator vote.vote vote.signature) :
    (ofSigned vote).Authentic signs vote.validator where
  signed other same := by
    cases same
    exact ⟨rfl, rfl, signed⟩
  certified cert same := by cases same

lemma Proven.authentic_ofCertificate {session : Session n}
    (supported : cert.Supported session signs) (signer : validator ∈ cert.signers) :
    (ofCertificate cert).Authentic signs validator where
  signed vote same := by cases same
  certified other same := by
    cases same
    obtain ⟨signature, member, rfl⟩ := List.mem_map.mp signer
    exact ⟨rfl, signature.signature, supported.signed signature member⟩

namespace SlotState

def signedFor (state : SlotState n) (vote : Vote) (validator : Fin n) : Bool :=
  match (state.votes validator).stored vote.kind with
  | some proven => decide (proven.vote = vote) && proven.isSigned
  | none => false

def signedWeight (session : Session n) (state : SlotState n) (vote : Vote) : Nat :=
  ∑ validator with state.signedFor vote validator, session.weight validator

/-- The votes of a slot, `held` being the types of vote it has a certificate for. -/
structure Tallied (session : Session n) (signs : Fin n → Vote → BufferSlice → Prop) (slot : Nat)
    (held : VoteKind → Prop) (state : SlotState n) : Prop where
  coherent : ∀ validator, (state.votes validator).Coherent slot
  authentic : ∀ validator kind proven, (state.votes validator).stored kind = some proven → proven.Authentic signs validator
  certified : ∀ validator kind proven, (state.votes validator).stored kind = some proven → proven.isSigned = false → held kind
  tally : ∀ vote, (vote.kind = .skip → vote.referencedSlot = slot) → state.weightOf vote = state.signedWeight session vote

variable {session : Session n} {slot : Nat} {held : VoteKind → Prop} {state next : SlotState n}

lemma signedWeight_le_total (session : Session n) (state : SlotState n) (vote : Vote) :
    state.signedWeight session vote ≤ session.totalWeight :=
  sum_le_sum_of_subset (filter_subset _ _)

variable {vote : Vote}

lemma signedWeight_congr (same : ∀ validator, next.signedFor vote validator = state.signedFor vote validator) :
    next.signedWeight session vote = state.signedWeight session vote := by
  simp only [signedWeight, same]

lemma tallied_initial (session : Session n) (signs : Fin n → Vote → BufferSlice → Prop)
    (slot : Nat) (held : VoteKind → Prop) (base : Option ParentId) :
    Tallied session signs slot held { availableBase := base } where
  coherent _ := Tsentrizbirkom.coherent_empty slot
  authentic _ kind _ found := by cases kind <;> cases found
  certified _ kind _ found := by cases kind <;> cases found
  tally vote _ := by cases vote <;> simp [weightOf, signedWeight, signedFor, Tsentrizbirkom.stored, Vote.kind]

lemma Tallied.congr {heldNext : VoteKind → Prop} (tallied : state.Tallied session signs slot held)
    (votes : next.votes = state.votes) (weights : ∀ vote, next.weightOf vote = state.weightOf vote)
    (more : ∀ kind, held kind → heldNext kind) : next.Tallied session signs slot heldNext where
  coherent := by
    rw [votes]
    exact tallied.coherent
  authentic := by
    rw [votes]
    exact tallied.authentic
  certified validator kind proven found unsigned := by
    rw [votes] at found
    exact more kind (tallied.certified validator kind proven found unsigned)
  tally vote located := by
    rw [weights, tallied.tally vote located]
    exact (signedWeight_congr fun validator => by rw [signedFor, votes, signedFor]).symm

lemma Tallied.imp (tallied : state.Tallied session signs slot held)
    (included : signs ≤ more) : state.Tallied session more slot held :=
  { tallied with
    authentic := fun validator kind proven found =>
      (tallied.authentic validator kind proven found).imp included }

lemma weightOf_addWeightTo (state : SlotState n) {other : Vote} (weight : Nat)
    (slots : other.kind = .skip → other.referencedSlot = vote.referencedSlot) : (state.addWeightTo vote weight).weightOf other =
      if other = vote then addWeight (state.weightOf vote) weight else state.weightOf other := by
  cases vote <;> cases other <;> simp_all [addWeightTo, weightOf, Function.update_apply, Vote.kind]

lemma votes_addWeightTo (state : SlotState n) (vote : Vote) (weight : Nat) :
    (state.addWeightTo vote weight).votes = state.votes := by
  cases vote <;> rfl

lemma certs_addWeightTo (state : SlotState n) (vote : Vote) (weight : Nat) :
    (state.addWeightTo vote weight).certs = state.certs := by
  cases vote <;> rfl

lemma weightOf_setVotes (state : SlotState n) (validator : Fin n) (votes : Tsentrizbirkom n)
    (vote : Vote) : (state.setVotes validator votes).weightOf vote = state.weightOf vote := by
  cases vote <;> rfl

lemma votes_setVotes (state : SlotState n) (validator other : Fin n)
    (votes : Tsentrizbirkom n) : (state.setVotes validator votes).votes other =
      if other = validator then votes else state.votes other := by
  simp [setVotes, Function.update_apply]

def storeVote (state : SlotState n) (validator : Fin n) (vote : Proven n) : SlotState n :=
  state.setVotes validator ((state.votes validator).withStored vote.vote.kind (some vote))

lemma stored_storeVote (state : SlotState n) (validator other : Fin n) (kind : VoteKind)
    (vote : Proven n) : ((state.storeVote validator vote).votes other).stored kind =
      if other = validator ∧ kind = vote.vote.kind then some vote else (state.votes other).stored kind := by
  rw [storeVote, votes_setVotes]
  by_cases same : other = validator
  · simp [same, Tsentrizbirkom.stored_withStored]
  · simp [same]

lemma signedFor_storeVote (state : SlotState n) {vote : Proven n}
    (absent : (state.votes validator).stored vote.vote.kind = none) (other : Vote) (voter : Fin n) :
    (state.storeVote validator vote).signedFor other voter = (state.signedFor other voter ||
        (decide (voter = validator) && decide (other = vote.vote) && vote.isSigned)) := by
  simp only [signedFor, stored_storeVote]
  by_cases same : voter = validator ∧ other.kind = vote.vote.kind
  · simp [same.1, same.2, absent, eq_comm]
  · have different : (decide (voter = validator) && decide (other = vote.vote)) = false := by
      by_contra both
      simp only [Bool.not_eq_false, Bool.and_eq_true, decide_eq_true_eq] at both
      exact same ⟨both.1, by rw [both.2]⟩
    simp [same, different]

lemma Tallied.storeVote (tallied : state.Tallied session signs slot held) {vote : Proven n}
    (authentic : vote.Authentic signs validator) (supported : vote.isSigned = false → held vote.vote.kind)
    (coherent : ((state.votes validator).withStored vote.vote.kind (some vote)).Coherent slot)
    (votes : next.votes = (state.storeVote validator vote).votes)
    (tally : ∀ other, (other.kind = .skip → other.referencedSlot = slot) → next.weightOf other =
      (state.storeVote validator vote).signedWeight session other) : next.Tallied session signs slot held where
  coherent other := by
    rw [votes, SlotState.storeVote, votes_setVotes]
    split
    · exact coherent
    · exact tallied.coherent other
  authentic other kind proven found := by
    rw [votes, stored_storeVote] at found
    split at found
    next same =>
      cases found
      rw [same.1]
      exact authentic
    next => exact tallied.authentic other kind proven found
  certified other kind proven found unsigned := by
    rw [votes, stored_storeVote] at found
    split at found
    next same =>
      cases found
      rw [same.2]
      exact supported unsigned
    next => exact tallied.certified other kind proven found unsigned
  tally other located := by
    rw [tally other located]
    exact (signedWeight_congr fun voter => by rw [signedFor, votes, signedFor]).symm

lemma Tallied.storeCertified (tallied : state.Tallied session signs slot held) (supported : cert.Supported session signs)
    (signer : validator ∈ cert.signers) (certified : held cert.vote.kind)
    (absent : (state.votes validator).stored cert.vote.kind = none) (coherent : ((state.votes validator).withStored cert.vote.kind
      (some (.ofCertificate cert))).Coherent slot) :
    (state.storeVote validator (.ofCertificate cert)).Tallied session signs slot held := by
  refine tallied.storeVote (Proven.authentic_ofCertificate supported signer) (fun _ => certified)
    coherent rfl fun other located => ?_
  have same : ∀ voter, (state.storeVote validator (.ofCertificate cert)).signedFor other voter =
      state.signedFor other voter := by
    intro voter
    rw [signedFor_storeVote state absent]
    simp [Proven.ofCertificate, Proven.isSigned]
  rw [signedWeight_congr same, SlotState.storeVote, weightOf_setVotes, tallied.tally other located]

lemma signedWeight_storeVote_ofSigned (session : Session n) (state : SlotState n)
    {vote : Signed n} (absent : (state.votes vote.validator).stored vote.vote.kind = none) :
    (state.storeVote vote.validator (.ofSigned vote)).signedWeight session vote.vote =
      state.signedWeight session vote.vote + session.weight vote.validator := by
  have newcomer : vote.validator ∉
      Finset.univ.filter fun voter => state.signedFor vote.vote voter = true := by
    rw [mem_filter]
    simp [signedFor, absent]
  have extended : (Finset.univ.filter fun voter =>
      (state.storeVote vote.validator (.ofSigned vote)).signedFor vote.vote voter = true) =
      insert vote.validator
        (Finset.univ.filter fun voter => state.signedFor vote.vote voter = true) := by
    ext voter
    simp only [mem_filter, mem_univ, true_and, mem_insert]
    rw [signedFor_storeVote state absent]
    simp [Proven.ofSigned, Proven.isSigned, or_comm]
  rw [signedWeight, extended, sum_insert newcomer, signedWeight, Nat.add_comm]

section

variable (tallied : state.Tallied session signs slot held)
include tallied

/-- A vote that arrived signed is stored and counted. The cap on the total
weight excludes a wrap-around of the counter. -/
lemma Tallied.count (capped : session.totalWeight ≤ 2 ^ 61) {vote : Signed n} (located : vote.vote.referencedSlot = slot)
    (signed : signs vote.validator vote.vote vote.signature) (absent : (state.votes vote.validator).stored vote.vote.kind = none)
    (coherent : ((state.votes vote.validator).withStored vote.vote.kind (some (.ofSigned vote))).Coherent slot) :
    ((state.storeVote vote.validator (.ofSigned vote)).addWeightTo vote.vote
      (session.weight vote.validator)).Tallied session signs slot held := by
  refine tallied.storeVote (Proven.authentic_ofSigned signed) (fun unsigned => by cases unsigned)
    coherent (votes_addWeightTo _ _ _) fun other otherLocated => ?_
  rw [weightOf_addWeightTo _ _ fun skip => (otherLocated skip).trans located.symm]
  split
  next same =>
    have bound := signedWeight_le_total session (state.storeVote vote.validator (.ofSigned vote)) vote.vote
    rw [same, signedWeight_storeVote_ofSigned session state absent] at *
    rw [SlotState.storeVote, weightOf_setVotes, tallied.tally _ fun _ => located, addWeight]
    exact Nat.mod_eq_of_lt (by omega)
  next different =>
    have same : ∀ voter, (state.storeVote vote.validator (.ofSigned vote)).signedFor other voter =
        state.signedFor other voter := by
      intro voter
      rw [signedFor_storeVote state absent]
      simp [Proven.ofSigned, different]
    rw [signedWeight_congr same, SlotState.storeVote, weightOf_setVotes, tallied.tally other otherLocated]

lemma Tallied.toSignature (uncertified : ¬ held vote.kind) (validator : Fin n) : ∃ signature : Option (VoteSignature n),
      (state.votes validator).toSignature vote = .ok signature ∧ signature.toList.map (·.validator) =
        (if state.signedFor vote validator then [validator] else []) ∧
      ∀ entry ∈ signature.toList, signs entry.validator vote entry.signature := by
  unfold Tsentrizbirkom.toSignature signedFor
  cases found : (state.votes validator).stored vote.kind with
  | none => exact ⟨none, rfl, rfl, by simp⟩
  | some proven =>
    by_cases same : proven.vote = vote
    · obtain ⟨provenVote, proof⟩ := proven
      cases proof with
      | certificate cert => exact absurd (tallied.certified _ _ _ found rfl) uncertified
      | signed signedVote =>
        obtain ⟨voter, _, valid⟩ := (tallied.authentic _ _ _ found).signed signedVote rfl
        simp only at same
        subst same
        refine ⟨some ⟨signedVote.validator, signedVote.signature⟩, ?_, ?_, ?_⟩
        · simp [Proven.toSignature, Proven.asSignedVote]
        · simp [Proven.isSigned, voter]
        · simpa [voter] using valid
    · refine ⟨none, ?_, ?_, by simp⟩
      · simp [Proven.toSignature, Ne.symm same]
      · simp [same]

lemma Tallied.collectSignatures (uncertified : ¬ held vote.kind) (validators : List (Fin n)) :
    ∃ signatures, state.collectSignatures vote validators = .ok signatures ∧
      signatures.map (·.validator) = validators.filter (state.signedFor vote) ∧
      ∀ entry ∈ signatures, signs entry.validator vote entry.signature := by
  induction validators with
  | nil => exact ⟨[], rfl, rfl, by simp⟩
  | cons validator rest ih =>
    obtain ⟨signature, ok, signer, valid⟩ := tallied.toSignature uncertified validator
    obtain ⟨signatures, restOk, signers, restValid⟩ := ih
    refine ⟨signature.toList ++ signatures, ?_, ?_, ?_⟩
    · simp [SlotState.collectSignatures, ok, restOk]
    · rw [List.map_append, signer, signers, List.filter_cons]
      split <;> rfl
    · exact List.forall_mem_append.mpr ⟨valid, restValid⟩

/-- `create_cert` succeeds while the slot has no such certificate, which is valid once the
counter has reached the threshold. -/
lemma Tallied.createCert (located : vote.referencedSlot = slot) (uncertified : ¬ held vote.kind) :
    ∃ cert, state.createCert vote = .ok cert ∧ cert.vote = vote ∧ cert.signers = (List.finRange n).filter (state.signedFor vote) ∧
      (session.weightThreshold ≤ state.weightOf vote → cert.Supported session signs) := by
  obtain ⟨signatures, collected, signers, valid⟩ := tallied.collectSignatures uncertified (List.finRange n)
  refine ⟨⟨vote, signatures⟩, ?_, rfl, signers, fun heavy => ⟨?_, ?_, valid⟩⟩
  · simp [SlotState.createCert, collected]
  · rw [Certificate.signers, signers]
    exact (List.nodup_finRange n).filter _
  · have distinct : ((List.finRange n).filter (state.signedFor vote)).Nodup := (List.nodup_finRange n).filter _
    have members : ((List.finRange n).filter (state.signedFor vote)).toFinset =
        Finset.univ.filter fun voter => state.signedFor vote voter = true := by
      ext voter
      simp
    rw [Certificate.signers, signers, ← List.sum_toFinset _ distinct, members]
    exact heavy.trans (tallied.tally vote fun _ => located).le

end

end SlotState

end TonNode.Simplex
