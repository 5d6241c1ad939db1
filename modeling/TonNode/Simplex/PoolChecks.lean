import TonNode.Simplex.PoolRun
import TonNode.Simplex.Storage

/-!
# Which assertions of the pool can fail

The vote path can only fail on a vote proof, on own conflicting votes or on an
untracked slot. The chain assertions never fail while certificates agree.
-/

namespace TonNode.Simplex

open Consensus Lib

variable {n : Nat}

def Check.onVotePath (failure : Check) : Prop :=
  failure = .signedVoteProof ∨ failure = .ownVotesConsistent ∨ failure = .slotTracked

/-- Assertions of the chain bookkeeping and of the parent requests. -/
def Check.isBookkeeping : Check → Bool
  | .slotTracked | .availableBasePresent | .skipIntervalPresent | .parentBeforeCandidate
  | .firstNonfinalizedSlotPositive | .parentPresent => true
  | _ => false

variable {failure : Check} {votes : Tsentrizbirkom n} {vote : Vote} {slot : SlotState n} {bundle : CertificateBundle n}

lemma Proven.asSignedVote_error {proven : Proven n}
    (result : proven.asSignedVote = .error failure) : failure = .signedVoteProof := by
  unfold asSignedVote at result
  split at result <;> cases result
  rfl

lemma Tsentrizbirkom.toSignature_error (result : votes.toSignature vote = .error failure) : failure = .signedVoteProof := by
  unfold toSignature at result
  split at result
  · unfold Proven.toSignature at result
    split at result
    · cases result
    · rcases bind_eq_error.mp result with unsigned | ⟨signedVote, _, result⟩
      · exact Proven.asSignedVote_error unsigned
      · cases result
  · cases result

lemma SlotState.collectSignatures_error {validators : List (Fin n)}
    (result : slot.collectSignatures vote validators = .error failure) : failure = .signedVoteProof := by
  induction validators with
  | nil => cases result
  | cons validator rest ih =>
    rcases bind_eq_error.mp result with unsigned | ⟨signature, _, result⟩
    · exact Tsentrizbirkom.toSignature_error unsigned
    · rcases bind_eq_error.mp result with failed | ⟨signatures, _, result⟩
      · exact ih failed
      · cases result

lemma SlotState.createCert_error (result : slot.createCert vote = .error failure) : failure = .signedVoteProof := by
  rcases bind_eq_error.mp result with failed | ⟨signatures, _, result⟩
  · exact collectSignatures_error failed
  · cases result

lemma Tsentrizbirkom.serializeVote_error {kind : VoteKind}
    (result : votes.serializeVote bundle kind = .error failure) : failure = .signedVoteProof := by
  unfold serializeVote at result
  split at result
  · rcases bind_eq_error.mp result with unsigned | ⟨signedVote, _, result⟩
    · exact Proven.asSignedVote_error unsigned
    · cases result
  · cases result

lemma Tsentrizbirkom.serializeTo_error (result : votes.serializeTo bundle = .error failure) : failure = .signedVoteProof := by
  rcases bind_eq_error.mp result with failed | ⟨notarize, _, result⟩
  · exact serializeVote_error failed
  rcases bind_eq_error.mp result with failed | ⟨skip, _, result⟩
  · exact serializeVote_error failed
  rcases bind_eq_error.mp result with failed | ⟨finalize, _, result⟩
  · exact serializeVote_error failed
  · cases result

namespace Pool

variable {bus : Bus n} {pool : Pool n} {view : ChainView} {slot : Nat}

lemma slotRef_error (result : pool.slotRef slot = .error failure) : failure = .slotTracked := by
  unfold slotRef at result
  split at result <;> cases result
  rfl

variable {cert : Certificate n} {source : Fin n} {time : Nat} {validator : Fin n} {signature : BufferSlice}

lemma handleCertificate_ne_error : pool.handleCertificate cert ≠ .error failure := by
  simp [handleCertificate_eq]

lemma handleTypedVote_error
    (result : pool.handleTypedVote bus validator vote = .error failure) : failure = .signedVoteProof := by
  simp only [handleTypedVote] at result
  split at result
  · rcases bind_eq_error.mp result with failed | ⟨cert, _, result⟩
    · exact SlotState.createCert_error failed
    · exact (handleCertificate_ne_error result).elim
  · cases result

lemma handleVote_error {vote : Signed n} {tolerate : Bool}
    (result : pool.handleVote bus validator vote tolerate = .error failure) : failure.onVotePath := by
  simp only [handleVote] at result
  split at result
  · cases result
  split at result
  · split at result
    · cases result
      exact .inr (.inl rfl)
    · cases result
  · split at result
    · rcases bind_eq_error.mp result with failed | ⟨typed, _, result⟩
      · exact .inl (handleTypedVote_error failed)
      · cases result
    · cases result

lemma resumeOurVote_error {frame : OurVote}
    (result : pool.resumeOurVote bus frame signature = .error failure) : failure.onVotePath := by
  rcases bind_eq_error.mp result with failed | ⟨⟨applied, handled⟩, _, result⟩
  · exact handleVote_error failed
  · dsimp only at result
    split at result <;> cases result

lemma handleVoteMessage_error
    (result : pool.handleVoteMessage bus source vote signature time = .error failure) : failure.onVotePath := by
  simp only [handleVoteMessage] at result
  split at result
  · cases result
  split at result
  · cases result
  rcases bind_eq_error.mp result with failed | ⟨state, _, result⟩
  · exact .inr (.inr (slotRef_error failed))
  split at result
  · cases result
  split at result
  · cases result
  rcases bind_eq_error.mp result with failed | ⟨handled, _, result⟩
  · exact handleVote_error failed
  · cases result

lemma handleCertificateMessage_error {certificate : TlCertificate}
    (result : pool.handleCertificateMessage bus source certificate time = .error failure) : failure = .slotTracked := by
  simp only [handleCertificateMessage] at result
  split at result
  · cases result
  split at result
  · cases result
  split at result
  · rcases bind_eq_error.mp result with failed | ⟨state, _, result⟩
    · exact slotRef_error failed
    split at result
    · cases result
    · exact (handleCertificate_ne_error result).elim
  · exact (handleCertificate_ne_error result).elim

lemma handleIncomingProtocolMessage_error {message : ProtocolMessage}
    (result : pool.handleIncomingProtocolMessage bus source message time = .error failure) : failure.onVotePath := by
  simp only [handleIncomingProtocolMessage] at result
  split at result
  · cases result
  split at result
  · exact handleVoteMessage_error result
  · exact .inr (.inr (handleCertificateMessage_error result))
  · cases result

lemma publishStandstillMessages_error
    (result : pool.publishStandstillMessages bus slot = .error failure) : failure.onVotePath := by
  rcases bind_eq_error.mp result with failed | ⟨state, _, result⟩
  · exact .inr (.inr (slotRef_error failed))
  rcases bind_eq_error.mp result with failed | ⟨messages, _, result⟩
  · rcases bind_eq_error.mp failed with unsigned | ⟨votes, _, failed⟩
    · exact .inl (Tsentrizbirkom.serializeTo_error unsigned)
    · cases failed
  · cases result

lemma handleSavedCertificate_error_of_stored (stored : pool.certAt cert.vote.referencedSlot cert.vote.kind ≠ none)
    (result : pool.handleSavedCertificate bus cert = .error failure) : failure = .certificateNotStored := by
  rcases bind_eq_error.mp result with failed | ⟨next, nextStored, _⟩
  · rw [storeCertificate_eq, if_neg stored] at failed
    cases failed
    rfl
  · exact absurd (storeCertificate_spec nextStored).absent stored

lemma resumeProspectiveCertificate_error (follows : pool.Follows view) (regular : Regular (view.certify cert.vote).certified)
    (result : pool.resumeProspectiveCertificate bus cert = .error failure) : failure = .certificateNotStored ∧
      pool.certAt cert.vote.referencedSlot cert.vote.kind ≠ none := by
  have removed : SameChain pool { pool with saving := pool.saving.erase cert } :=
    .of_eq rfl rfl rfl rfl rfl rfl rfl rfl rfl rfl rfl
  simp only [resumeProspectiveCertificate] at result
  split at result
  · cases result
  next state tracked =>
    have same := removed.trans (addCertificateVotes_collects _ cert cert.signers).toSameChain
    by_cases absent : pool.certAt cert.vote.referencedSlot cert.vote.kind = none
    · obtain ⟨next, handled, _⟩ := handleSavedCertificate_follows bus (same.follows follows)
        (follows.above tracked) ((same.certAt _ _).trans absent) regular
      rw [handled] at result
      cases result
    · have stored := absent
      rw [← same.certAt] at stored
      exact ⟨handleSavedCertificate_error_of_stored stored result, absent⟩

/-- While the certificates agree, the chain assertions cannot fail. -/
lemma handleEvent_error {event : Event n} (follows : pool.Follows view) (regular : Regular view.certified)
    (fits : ∀ cert, event = .certificateSaved cert → Regular (view.certify cert.vote).certified)
    (result : pool.handleEvent bus event = .error failure) :
    failure.onVotePath ∨ failure = .parentBeforeCandidate ∨ failure = .certificateNotStored := by
  cases event with
  | start =>
    obtain ⟨next, started, _⟩ := handleStart_follows bus follows regular
    rw [handleEvent, started] at result
    cases result
  | incomingProtocolMessage source message time =>
    exact .inl (handleIncomingProtocolMessage_error result)
  | broadcastVote vote
  | certificateSaveFailed cert
  | precheckCandidateBroadcast slot broadcastId signatureChecked
  | noncriticalParamsUpdated params => cases result
  | keyringSigned frame signature => exact .inl (resumeOurVote_error result)
  | certificateSaved cert =>
    exact .inr (.inr (resumeProspectiveCertificate_error follows (fits cert rfl) result).1)
  | waitForParent candidate =>
    simp only [handleEvent, processWaitForParent] at result
    split at result
    next before =>
      have ordered : nextSlotAfterParent (Request.ofCandidate pool.nextPromise candidate).parent ≤
          (Request.ofCandidate pool.nextPromise candidate).id.slot := (all_slot_lt_iff _ _).mp before
      obtain ⟨answer, answered⟩ := maybeResolveRequest_total
        (follows.matched.withRequests (pool.requests ++ [.ofCandidate pool.nextPromise candidate])
          (pool.nextPromise + 1) pool.published) (follows.stores.withRequests _ _ _) regular.toConflictFree ordered
      rcases bind_eq_error.mp result with failed | ⟨other, _, result⟩
      · rw [answered] at failed
        cases failed
      · split at result <;> cases result
    next =>
      cases result
      exact .inr (.inl rfl)
  | standstill slot => exact .inl (publishStandstillMessages_error result)

lemma slotRef_fails (pool : Pool n) (slot : Nat) : FailsWith (Check.isBookkeeping · = true) (pool.slotRef slot) := by
  unfold slotRef
  split
  · exact .ok _
  · exact .error rfl

lemma advanceNow_fails (pool : Pool n) (fuel now : Nat) :
    FailsWith (Check.isBookkeeping · = true) (pool.advanceNow fuel now) := by
  induction fuel generalizing now with
  | zero => exact .ok _
  | succ fuel ih =>
    refine (slotRef_fails pool now).bind fun slot => ?_
    split
    · exact ih _
    · exact .ok _

lemma presentBase_fails (pool : Pool n) : FailsWith (Check.isBookkeeping · = true) pool.presentBase := by
  unfold presentBase
  split
  · refine (slotRef_fails _ _).bind fun slot => ?_
    split
    · exact .error rfl
    · exact .ok _
  · exact .ok _

lemma advancePresent_fails (bus : Bus n) (pool : Pool n) :
    FailsWith (Check.isBookkeeping · = true) (pool.advancePresent bus) := by
  unfold advancePresent
  split
  · exact .ok _
  · refine (advanceNow_fails _ _ _).bind fun now => ?_
    simp only [announceWindow]
    split
    · exact .ok _
    · exact (presentBase_fails _).bind fun _ => .ok _

lemma nextNonskippedSlotAfter_fails (pool : Pool n) (slot : Nat) :
    FailsWith (Check.isBookkeeping · = true) (pool.nextNonskippedSlotAfter slot) := by
  refine (slotRef_fails _ _).bind fun nextSlot => ?_
  split
  · split
    · exact .error rfl
    · exact (slotRef_fails _ _).bind fun _ => .ok _
  · exact .ok _

/-- The slot of a final certificate is skipped or belongs to another candidate. -/
def RefusesFinal (pool : Pool n) (id : CandidateId) (failure : Check) : Prop :=
  failure = .finalSlotNotSkipped ∧ (pool.state.slots id.slot).isSkipped = true ∨
    failure = .finalSlotNotarizedBlock ∧ (pool.state.slots id.slot).notarizedBlock.getD id ≠ id

lemma RefusesFinal.cases {id : CandidateId} (refused : pool.RefusesFinal id failure) :
    failure = .finalSlotNotSkipped ∨ failure = .finalSlotNotarizedBlock :=
  refused.imp And.left And.left

lemma handleSavedFinalCertificate_fails (bus : Bus n) (pool : Pool n) (id : CandidateId) (cert : Certificate n) :
    FailsWith (fun failure => failure.isBookkeeping = true ∨ pool.RefusesFinal id failure)
      (pool.handleSavedFinalCertificate bus id cert) := by
  simp only [handleSavedFinalCertificate]
  split
  next skipped => exact .error (.inr (.inl ⟨rfl, skipped⟩))
  split
  next opposed => exact .error (.inr (.inr ⟨rfl, opposed⟩))
  refine FailsWith.imp (FailsWith.bind ?_ fun based => FailsWith.bind ?_ fun _ => .ok _) fun _ => .inl
  · unfold addFinalizedBase
    split
    · exact (nextNonskippedSlotAfter_fails _ _).bind fun _ => .ok _
    · exact .ok _
  · unfold advancePast
    split
    · exact advancePresent_fails _ _
    · exact .ok _

lemma handleTypedSavedCertificate_fails (bus : Bus n) (pool : Pool n) (cert : Certificate n) :
    FailsWith (fun failure => failure.isBookkeeping = true ∨ ∃ id, cert.vote = .finalize id ∧ pool.RefusesFinal id failure)
      (pool.handleTypedSavedCertificate bus cert) := by
  unfold handleTypedSavedCertificate
  split
  case h_3 id same => exact (handleSavedFinalCertificate_fails _ _ _ _).imp fun _ => .imp_right fun refused => ⟨id, same, refused⟩
  all_goals
    exact ((nextNonskippedSlotAfter_fails _ _).bind fun _ => advancePresent_fails _ _).imp fun _ => .inl

lemma parentStatus_fails (pool : Pool n) (parent : ParentId) :
    FailsWith (Check.isBookkeeping · = true) (pool.parentStatus parent) := by
  unfold parentStatus
  split
  · split
    · split
      · exact .ok _
      · exact .error rfl
    · exact .ok _
  · split
    · exact .error rfl
    · refine (slotRef_fails _ _).bind fun parentSlot => ?_
      split
      · split <;> exact .ok _
      · exact .ok _

lemma skippedUntil_fails (pool : Pool n) (next slot : Nat) :
    FailsWith (Check.isBookkeeping · = true) (pool.skippedUntil next slot) := by
  unfold skippedUntil
  split
  · exact .ok _
  · refine (slotRef_fails _ _).bind fun nextSlot => ?_
    split
    · exact .ok _
    · split
      · exact .error rfl
      · exact .ok _

lemma maybeResolveRequest_fails (pool : Pool n) (request : Request n) :
    FailsWith (Check.isBookkeeping · = true) (pool.maybeResolveRequest request) := by
  unfold maybeResolveRequest
  split
  · exact .ok _
  split
  · exact .ok _
  refine (slotRef_fails _ _).bind fun slot => ?_
  split
  · exact .ok _
  · refine (parentStatus_fails _ _).bind fun status => ?_
    cases status with
    | conflicting => exact .ok _
    | unknown => exact .ok _
    | suitable => exact (skippedUntil_fails _ _ _).bind fun _ => .ok _

lemma resolveFrom_fails (pool : Pool n) (fuel index : Nat) :
    FailsWith (Check.isBookkeeping · = true) (pool.resolveFrom fuel index) := by
  induction fuel generalizing pool index with
  | zero => exact .ok _
  | succ fuel ih =>
    simp only [resolveFrom]
    split
    · exact .ok _
    · refine (maybeResolveRequest_fails _ _).bind fun answer => ?_
      cases answer with
      | none => exact ih _ _
      | some answer => exact ih _ _

lemma processWaitForParent_fails (pool : Pool n) (candidate : Candidate n) :
    FailsWith (Check.isBookkeeping · = true) (pool.processWaitForParent candidate) := by
  unfold processWaitForParent
  split
  · refine (maybeResolveRequest_fails _ _).bind fun answer => ?_
    cases answer <;> exact .ok _
  · exact .error rfl

lemma handleSavedCertificate_fails (bus : Bus n) (pool : Pool n) (cert : Certificate n) :
    FailsWith (fun failure => failure.isBookkeeping = true ∨
      failure = .certificateNotStored ∧ pool.certAt cert.vote.referencedSlot cert.vote.kind ≠ none ∨
      ∃ stored id, StoresOne cert pool stored ∧ cert.vote = .finalize id ∧
        (stored.broadcastCertificate cert).RefusesFinal id failure) (pool.handleSavedCertificate bus cert) := by
  refine FailsWith.bind_ok ?_ fun stored storedResult => FailsWith.bind ?_ fun handled => ?_
  · rw [storeCertificate_eq]
    split
    · exact .ok _
    next present => exact .error (.inr (.inl ⟨rfl, present⟩))
  · refine (handleTypedSavedCertificate_fails _ _ _).imp fun failure => .imp_right ?_
    rintro ⟨id, same, refused⟩
    exact .inr ⟨stored, id, storeCertificate_spec storedResult, same, refused⟩
  · exact (resolveFrom_fails _ _ _).imp fun _ => .inl

/-- The failure is not about a final certificate. -/
def SparesFinals (failure : Check) : Prop :=
  failure ≠ .finalSlotNotSkipped ∧ failure ≠ .finalSlotNotarizedBlock

lemma SparesFinals.of_isBookkeeping (bookkeeping : failure.isBookkeeping = true) : SparesFinals failure := by
  refine ⟨?_, ?_⟩ <;> rintro rfl <;> cases bookkeeping

lemma SparesFinals.of_onVotePath (onVotePath : failure.onVotePath) : SparesFinals failure := by
  rcases onVotePath with rfl | rfl | rfl <;> exact ⟨nofun, nofun⟩

/-- Final certificates are accepted while the stored certificates agree, also where slots wrap. -/
lemma handleSavedCertificate_accepts (bus : Bus n) {certified : Vote → Prop} (keeps : pool.Keeps certified)
    (clean : ConflictFree fun vote => vote = cert.vote ∨ certified vote) :
    FailsWith SparesFinals (pool.handleSavedCertificate bus cert) := by
  refine (handleSavedCertificate_fails bus pool cert).imp ?_
  rintro failure (bookkeeping | ⟨rfl, _⟩ | ⟨stored, id, stores, same, refused⟩)
  · exact .of_isBookkeeping bookkeeping
  · exact ⟨nofun, nofun⟩
  · have after := (broadcastCertificate_sameChain stored cert).keeps (stores.keeps keeps)
    rcases refused with ⟨_, skipped⟩ | ⟨_, opposed⟩
    · exact (after.final_not_skipped clean (.inl same.symm) skipped).elim
    · exact (opposed (after.final_not_opposed clean (.inl same.symm))).elim

lemma handleEvent_accepts (bus : Bus n) {event : Event n} {certified : Vote → Prop} (keeps : pool.Keeps certified)
    (fits : ∀ cert, event = .certificateSaved cert → ConflictFree fun vote => vote = cert.vote ∨ certified vote) :
    FailsWith SparesFinals (pool.handleEvent bus event) := by
  cases event with
  | start => exact (advancePresent_fails bus { pool with isStarted := true }).imp fun _ => .of_isBookkeeping
  | incomingProtocolMessage source message time =>
    exact fun _ failed => .of_onVotePath (handleIncomingProtocolMessage_error failed)
  | broadcastVote vote
  | certificateSaveFailed cert
  | precheckCandidateBroadcast slot broadcastId signatureChecked
  | noncriticalParamsUpdated params => exact .ok _
  | keyringSigned frame signature => exact fun _ failed => .of_onVotePath (resumeOurVote_error failed)
  | certificateSaved cert =>
    simp only [handleEvent, resumeProspectiveCertificate]
    split
    · exact .ok _
    · have removed : SameChain pool { pool with saving := pool.saving.erase cert } :=
        .of_eq rfl rfl rfl rfl rfl rfl rfl rfl rfl rfl rfl
      have same := removed.trans (addCertificateVotes_collects _ cert cert.signers).toSameChain
      exact handleSavedCertificate_accepts bus (same.keeps keeps) (fits cert rfl)
  | waitForParent candidate => exact (processWaitForParent_fails _ _).imp fun _ => .of_isBookkeeping
  | standstill slot => exact fun _ failed => .of_onVotePath (publishStandstillMessages_error failed)

lemma loadCertificates_accepts (bus : Bus n) {certs : List (Certificate n)} {certified : Vote → Prop}
    (keeps : pool.Keeps pool.Holds) (held : ∀ vote, pool.Holds vote → certified vote)
    (offered : ∀ cert ∈ certs, certified cert.vote) (clean : ConflictFree certified) :
    FailsWith SparesFinals (pool.loadCertificates bus certs) := by
  induction certs generalizing pool with
  | nil => exact .ok _
  | cons cert rest ih =>
    obtain ⟨here, later⟩ := List.forall_mem_cons.mp offered
    simp only [loadCertificates]
    split
    · exact ih keeps held later
    · refine FailsWith.bind_ok ?_ fun middle handled => ?_
      · refine handleSavedCertificate_accepts bus keeps (clean.subset ?_)
        rintro vote (rfl | old)
        · exact here
        · exact held vote old
      · have holds := handleSavedCertificate_holds handled
        obtain ⟨stored, typed, stores, update, _, resolves⟩ := handleSavedCertificate_cases handled
        have kept := (broadcastCertificate_sameChain stored cert).keeps (stores.keeps keeps)
        refine ih ?_ ?_ later
        · refine ⟨fun slot kind other found => ?_, fun vote => Iff.rfl⟩
          rw [resolves.frame.certAt, update.certAt] at found
          exact kept.typed slot kind other found
        · intro vote middleHeld
          rcases (holds vote).mp middleHeld with rfl | old
          · exact here
          · exact held vote old

end Pool

variable {bus : Bus n} {allowed : Check → Prop}

lemma readCertificates_fails (session : Session n) (entries : List (Bits256 × DbValue)) :
    FailsWith (· = .storedCertificateValid) (Db.readCertificates session entries) := by
  induction entries with
  | nil => exact .ok _
  | cons entry rest ih =>
    obtain ⟨key, value⟩ := entry
    cases value with
    | ourVote vote seqno => exact ih
    | cert certificate =>
      simp only [Db.readCertificates]
      split
      · exact .error rfl
      · exact ih.bind fun _ => .ok _

namespace Storage

lemma observeLeaderWindow_fails (session : Session n) (storage : Storage n) (startSlot : Nat) (base : ParentId) :
    FailsWith (· = .windowNotAnnounced) (storage.observeLeaderWindow session startSlot base) := by
  refine FailsWith.bind ?_ fun _ => .ok _
  unfold Db.processLeaderWindowObserved
  simp only
  split
  · exact .ok _
  · exact .error rfl

lemma route_fails (session : Session n) (storage : Storage n) (events : List (Published n)) :
    FailsWith (· = .windowNotAnnounced) (storage.route session events) := by
  induction events generalizing storage with
  | nil => exact .ok _
  | cons event rest ih =>
    cases event with
    | saveCertificate cert => exact ih (storage.saveCertificate session cert)
    | leaderWindowObserved startSlot base =>
      exact (observeLeaderWindow_fails session storage startSlot base).bind ih
    | _ => exact ih storage

lemma poolStep_fails {storage : Storage n} {event : Pool.Event n} (stepped : FailsWith allowed (storage.pool.step bus event))
    (announced : allowed .windowNotAnnounced) : FailsWith allowed (storage.poolStep bus event) := by
  refine stepped.bind fun pool => (route_fails _ _ _).imp ?_
  rintro _ rfl
  exact announced

lemma boot_fails {params : NoncriticalParams} {disk : Disk} {db : Db}
    {bootstrap : Pool.Bootstrap n} (started : FailsWith allowed (Pool.startUp bus params bootstrap))
    (announced : allowed .windowNotAnnounced) : FailsWith allowed (boot bus params disk db bootstrap) := by
  refine started.bind fun pool => (route_fails _ _ _).imp ?_
  rintro _ rfl
  exact announced

end Storage

end TonNode.Simplex
