import TonNode.Simplex.PoolChecks
import TonNode.Simplex.SlotTally

/-!
# Votes and certificates along runs

An event changes votes, weights and certificates by a few elementary changes.
Every stored vote and certificate is backed by signatures, the counters are
exact, and what the pool publishes about validators is backed as well.
-/

namespace TonNode.Simplex

open Consensus Lib List ConsensusState Nat

variable {n : Nat} {params : NoncriticalParams}

namespace Pool

variable {bus : Bus n} {signs : Fin n → Vote → BufferSlice → Prop} {pool middle next : Pool n}

lemma Frame.quiet (frame : Frame pool next) : Quiet pool next := by
  obtain ⟨events, published, bookkeeping⟩ := frame.published
  exact { frame with
    published := ⟨events, published, fun event member =>
      Published.isQuiet_of_isBookkeeping (bookkeeping event member)⟩ }

inductive Completes (cert : Certificate n) (pool : Pool n) : Pool n → Prop where
  | overtaken : cert.vote.referencedSlot < pool.state.firstNonFinalizedSlot →
      Completes cert pool { pool with saving := pool.saving.erase cert }
  | stored {stored next : Pool n} :
      pool.state.firstNonFinalizedSlot ≤ cert.vote.referencedSlot →
      (({ pool with saving := pool.saving.erase cert } : Pool n).addCertificateVotes cert
        cert.signers).storeCertificate cert = .ok stored →
      Quiet stored next → Completes cert pool next

variable {vote : Vote} {cert : Certificate n}

lemma broadcastCertificate_quiet (pool : Pool n) (cert : Certificate n) : Quiet pool (pool.broadcastCertificate cert) := by
  have obtained : Quiet pool (pool.publish (.obtainedCertificate cert)) := .publish _ rfl
  simp only [broadcastCertificate]
  split
  · exact obtained.trans (.publish _ rfl)
  · exact obtained

lemma handleSavedCertificate_stored (result : pool.handleSavedCertificate bus cert = .ok next) :
    ∃ stored, pool.storeCertificate cert = .ok stored ∧ Quiet stored next := by
  obtain ⟨stored, storedResult, result⟩ := bind_eq_ok.mp result
  obtain ⟨handled, handledResult, result⟩ := bind_eq_ok.mp result
  exact ⟨stored, storedResult, (broadcastCertificate_quiet stored cert).trans
    ((handleTypedSavedCertificate_update handledResult).quiet.trans (maybeResolveRequests_resolves result).frame.quiet)⟩

lemma resumeProspectiveCertificate_completes (result : pool.resumeProspectiveCertificate bus cert = .ok next) :
    Completes cert pool next := by
  simp only [resumeProspectiveCertificate] at result
  split at result
  next untracked =>
    cases result
    exact .overtaken (ConsensusState.slotAt_eq_none.mp untracked)
  next state found =>
    obtain ⟨stored, storedResult, quiet⟩ := handleSavedCertificate_stored result
    exact .stored (ConsensusState.slotAt_eq_some.mp found).1 storedResult quiet

lemma handleEvent_changes {event : Event n} (vouched : Vouched bus signs event)
    (result : pool.handleEvent bus event = .ok next) : (Changes bus signs pool next ∧ ∀ cert, event ≠ .certificateSaved cert ∧
      event ≠ .certificateSaveFailed cert) ∨ (∃ cert, event = .certificateSaved cert ∧ Completes cert pool next) ∨
    ∃ cert, event = .certificateSaveFailed cert ∧ next = { pool with saving := pool.saving.erase cert } := by
  cases event with
  | start =>
    have started : Quiet pool { pool with isStarted := true } := .silent rfl rfl rfl
    have advanced : ({ pool with isStarted := true } : Pool n).advancePresent bus = .ok next :=
      result
    exact .inl ⟨(started.trans (advancePresent_update advanced).quiet).changes, by simp⟩
  | incomingProtocolMessage source message time =>
    exact .inl ⟨(handleIncomingProtocolMessage_steps vouched result).changes, by simp⟩
  | broadcastVote vote | noncriticalParamsUpdated params =>
    cases result
    exact .inl ⟨Quiet.changes (.silent rfl rfl rfl), by simp⟩
  | keyringSigned frame signature =>
    have removed : Quiet pool { pool with ourVotes := pool.ourVotes.erase frame } := .silent rfl rfl rfl
    exact .inl ⟨removed.changes.trans (resumeOurVote_steps vouched result).changes, by simp⟩
  | certificateSaved cert =>
    exact .inr (.inl ⟨cert, rfl, resumeProspectiveCertificate_completes result⟩)
  | certificateSaveFailed cert =>
    cases result
    exact .inr (.inr ⟨cert, rfl, rfl⟩)
  | waitForParent candidate =>
    exact .inl ⟨(processWaitForParent_frame result).quiet.changes, by simp⟩
  | standstill slot =>
    obtain ⟨state, _, result⟩ := bind_eq_ok.mp result
    obtain ⟨messages, _, result⟩ := bind_eq_ok.mp result
    cases result
    refine .inl ⟨Quiet.changes (.of_eq rfl rfl rfl ?_), by simp⟩
    intro event member
    obtain ⟨message, _, rfl⟩ := List.mem_map.mp member
    rfl
  | precheckCandidateBroadcast slot broadcastId signatureChecked =>
    cases result
    refine .inl ⟨Quiet.changes ?_, by simp⟩
    simp only [precheckCandidateBroadcast]
    split
    · exact .publish _ rfl
    split
    · exact .publish _ rfl
    split
    · exact .publish _ rfl
    split
    · exact .of_eq rfl rfl rfl (by simp [Published.isQuiet])
    · exact .publish _ rfl

lemma loadCertificates_preserve (Inv : Pool n → Prop) {certs : List (Certificate n)}
    (stores : ∀ {cert pool stored}, cert ∈ certs → pool.storeCertificate cert = .ok stored → Inv pool → Inv stored)
    (quiets : ∀ {pool next : Pool n}, Quiet pool next → Inv pool → Inv next) (start : Inv pool)
    (result : pool.loadCertificates bus certs = .ok next) : Inv next := by
  refine loadCertificates_handled Inv ?_ start result
  intro cert middle handled member result reached
  obtain ⟨stored, storedResult, quiet⟩ := handleSavedCertificate_stored result
  exact quiets quiet (stores member storedResult reached)

lemma loadVotes_quiet (pool : Pool n) (votes : List Vote) : Quiet pool (pool.loadVotes votes) := by
  induction votes generalizing pool with
  | nil => exact .refl _
  | cons vote rest ih =>
    simp only [loadVotes]
    split
    · exact ih _
    · have later := ih (pool.handleOurVote vote true true)
      exact ⟨later.votes, later.certs, later.weights, later.saving, later.notEarlier, later.published⟩

lemma startUp_preserve (Inv : Pool n → Prop) {bootstrap : Bootstrap n}
    (stores : ∀ {cert pool stored}, cert ∈ bootstrap.certificates →
      pool.storeCertificate cert = .ok stored → Inv pool → Inv stored)
    (quiets : ∀ {pool next : Pool n}, Quiet pool next → Inv pool → Inv next)
    (start : Inv (fresh params bootstrap.firstNonannouncedWindow))
    (result : startUp bus params bootstrap = .ok pool) : Inv pool := by
  obtain ⟨loaded, loadedResult, result⟩ := bind_eq_ok.mp result
  cases result
  have enabled : Quiet loaded { loaded with suppressCertificateBroadcast := false } := .silent rfl rfl rfl
  exact quiets (enabled.trans (loadVotes_quiet _ _)) (loadCertificates_preserve Inv stores quiets start loadedResult)

end Pool

variable {signs : Fin n → Vote → BufferSlice → Prop}

/-- A validator signed two votes no honest validator casts together. -/
def Equivocated (signs : Fin n → Vote → BufferSlice → Prop) (validator : Fin n) : Prop :=
  ∃ first second : Vote, first.referencedSlot = second.referencedSlot ∧ first.conflicts second = true ∧
    (∃ signature, signs validator first signature) ∧ ∃ signature, signs validator second signature

/-- Certificates to be saved are supported and accused validators are guilty. -/
def Published.Backed (session : Session n) (signs : Fin n → Vote → BufferSlice → Prop) :
    Published n → Prop
  | .saveCertificate cert => cert.Supported session signs
  | .misbehaviorReport validator _ => Equivocated signs validator
  | _ => True

variable {session : Session n} {event : Published n} {slot : Nat} {state : SlotState n} {validator : Fin n} {vote : Vote}
variable {more : Fin n → Vote → BufferSlice → Prop}

lemma Published.backed_of_isQuiet (quiet : event.isQuiet = true) : event.Backed session signs := by
  cases event <;> simp_all [isQuiet, Backed]

lemma SlotState.Tallied.equivocated {held : VoteKind → Prop} (tallied : state.Tallied session signs slot held)
    (located : vote.referencedSlot = slot) (signed : ∃ signature, signs validator vote signature)
    (opposed : (state.votes validator).Opposes vote) : Equivocated signs validator := by
  obtain ⟨kind, previous, found, conflict⟩ := opposed
  exact ⟨previous.vote, vote, ((tallied.coherent validator).typed kind previous found).2.trans located.symm, conflict,
    (tallied.authentic validator kind previous found).exists_signature, signed⟩

lemma Equivocated.imp (equivocated : Equivocated signs validator) (included : signs ≤ more) : Equivocated more validator := by
  obtain ⟨first, second, sameSlot, conflict, ⟨left, leftSigned⟩, right, rightSigned⟩ := equivocated
  exact ⟨first, second, sameSlot, conflict, ⟨left, included _ _ _ leftSigned⟩, right, included _ _ _ rightSigned⟩

lemma Published.Backed.imp {session : Session n} (backed : event.Backed session signs) (included : signs ≤ more) :
    event.Backed session more := by
  cases event with
  | saveCertificate cert =>
    exact Certificate.Supported.imp backed fun _ _ => included _ _ _
  | misbehaviorReport validator misbehavior => exact Equivocated.imp backed included
  | _ => trivial

namespace Pool

def VotesTallied (bus : Bus n) (signs : Fin n → Vote → BufferSlice → Prop)
    (held : Nat → VoteKind → Prop) (pool : Pool n) : Prop :=
  ∀ slot, (pool.state.slots slot).Tallied bus.toSession signs slot (held slot)

structure Tallied (bus : Bus n) (signs : Fin n → Vote → BufferSlice → Prop) (pool : Pool n) :
    Prop where
  votes : pool.VotesTallied bus signs fun slot kind => (pool.certAt slot kind).isSome = true
  stored : ∀ slot kind cert, pool.certAt slot kind = some cert → cert.vote.kind = kind ∧ cert.vote.referencedSlot = slot ∧
      cert.Supported bus.toSession signs
  saving : ∀ cert ∈ pool.saving, cert.Supported bus.toSession signs
  published : ∀ event ∈ pool.published, event.Backed bus.toSession signs

variable {bus : Bus n} {pool next : Pool n} {held : Nat → VoteKind → Prop}

section

variable (tallied : pool.VotesTallied bus signs held)
include tallied

lemma VotesTallied.quiet (quiet : Quiet pool next) : next.VotesTallied bus signs held :=
  fun slot => (tallied slot).congr (quiet.votes slot) (quiet.weights slot) fun _ kept => kept

lemma VotesTallied.mono {more : Nat → VoteKind → Prop}
    (imp : ∀ slot kind, held slot kind → more slot kind) : pool.VotesTallied bus signs more :=
  fun slot => (tallied slot).congr rfl (fun _ => rfl) (imp slot)

lemma VotesTallied.modifySlot {update : SlotState n → SlotState n}
    (updated : (update (pool.state.slots slot)).Tallied bus.toSession signs slot (held slot)) :
    (pool.modifySlot slot update).VotesTallied bus signs held := by
  intro other
  simp only [Pool.modifySlot, modifySlot_slots]
  split
  next same =>
    rw [same]
    exact updated
  next => exact tallied other

end

lemma Quiet.certAt (quiet : Quiet pool next) (slot : Nat) (kind : VoteKind) :
    next.certAt slot kind = pool.certAt slot kind := by
  rw [Pool.certAt, quiet.certs, Pool.certAt]

section

variable (tallied : pool.Tallied bus signs)
include tallied

lemma Tallied.quiet (quiet : Quiet pool next) : next.Tallied bus signs where
  votes := by
    simp only [quiet.certAt]
    exact tallied.votes.quiet quiet
  stored slot kind cert found := tallied.stored slot kind cert (by rwa [← quiet.certAt])
  saving := by
    rw [quiet.saving]
    exact tallied.saving
  published event member := by
    obtain ⟨events, published, allQuiet⟩ := quiet.published
    rw [published] at member
    rcases mem_append.mp member with earlier | new
    · exact tallied.published event earlier
    · exact Published.backed_of_isQuiet (allQuiet event new)

lemma Tallied.publish (backed : event.Backed bus.toSession signs) : (pool.publish event).Tallied bus signs :=
  { tallied with
    published := forall_mem_append.mpr ⟨tallied.published, forall_mem_singleton.mpr backed⟩ }

lemma Tallied.withSaving {saving : List (Certificate n)}
    (fewer : saving ⊆ pool.saving) : ({ pool with saving } : Pool n).Tallied bus signs :=
  { tallied with saving := fun cert member => tallied.saving cert (fewer member) }

lemma Tallied.imp (included : signs ≤ more) : pool.Tallied bus more where
  votes slot := (tallied.votes slot).imp included
  stored slot kind cert found := by
    obtain ⟨sameKind, sameSlot, supported⟩ := tallied.stored slot kind cert found
    exact ⟨sameKind, sameSlot, supported.imp fun _ _ => included _ _ _⟩
  saving cert waiting := (tallied.saving cert waiting).imp fun _ _ => included _ _ _
  published event member := (tallied.published event member).imp included

end

lemma addCertificateVotes_keeps (pool : Pool n) (cert : Certificate n) (validators : List (Fin n)) :
    (∀ slot, ((pool.addCertificateVotes cert validators).state.slots slot).certs = (pool.state.slots slot).certs) ∧
    (pool.addCertificateVotes cert validators).saving = pool.saving ∧
    (pool.addCertificateVotes cert validators).state.firstNonFinalizedSlot = pool.state.firstNonFinalizedSlot := by
  induction validators generalizing pool with
  | nil => exact ⟨fun _ => rfl, rfl, rfl⟩
  | cons validator rest ih =>
    have written : ∀ votes slot, ((pool.modifySlot cert.vote.referencedSlot
        (·.setVotes validator votes)).state.slots slot).certs =
          (pool.state.slots slot).certs := fun votes => modifySlot_kept SlotState.certs rfl
    simp only [addCertificateVotes]
    split
    · obtain ⟨certs, saving, dropped⟩ := ih ((pool.modifySlot cert.vote.referencedSlot
        (·.setVotes validator _)).publish (.misbehaviorReport validator _))
      exact ⟨fun slot => (certs slot).trans (written _ slot), saving, dropped⟩
    · obtain ⟨certs, saving, dropped⟩ := ih (pool.modifySlot cert.vote.referencedSlot (·.setVotes validator _))
      exact ⟨fun slot => (certs slot).trans (written _ slot), saving, dropped⟩

variable {cert : Certificate n} {event : Event n}

lemma addCertificateVotes_tallied (supported : cert.Supported bus.toSession signs)
    (certified : held cert.vote.referencedSlot cert.vote.kind) {validators : List (Fin n)}
    (signers : validators ⊆ cert.signers) (tallied : pool.VotesTallied bus signs held)
    (published : ∀ event ∈ pool.published, event.Backed bus.toSession signs) :
    (pool.addCertificateVotes cert validators).VotesTallied bus signs held ∧
      ∀ event ∈ (pool.addCertificateVotes cert validators).published, event.Backed bus.toSession signs := by
  induction validators generalizing pool with
  | nil => exact ⟨tallied, published⟩
  | cons validator rest ih =>
    have signer : validator ∈ cert.signers := signers (by simp)
    have signersRest : rest ⊆ cert.signers := fun other member =>
      signers (mem_cons_of_mem _ member)
    have slotTallied := tallied cert.vote.referencedSlot
    have unchanged := Quiet.setVotes pool cert.vote.referencedSlot validator
    simp only [addCertificateVotes]
    have located : (Proven.ofCertificate cert).vote.referencedSlot = cert.vote.referencedSlot := rfl
    rcases Tsentrizbirkom.addVote_cases (slotTallied.coherent validator) located with
      ⟨opposed, misbehavior, outcome⟩ | ⟨_, _, outcome⟩ | ⟨_, absent, coherent, outcome⟩
    · simp only [outcome, AddVoteResult.ofMisbehavior]
      refine ih signersRest (fun slot => tallied.quiet unchanged slot)
        (forall_mem_append.mpr ⟨published, forall_mem_singleton.mpr ?_⟩)
      exact slotTallied.equivocated rfl (Proven.authentic_ofCertificate supported signer).exists_signature opposed
    · simp only [outcome, AddVoteResult.ofBool]
      exact ih signersRest (tallied.quiet unchanged) published
    · simp only [outcome, AddVoteResult.ofBool]
      refine ih signersRest (tallied.modifySlot ?_) published
      exact slotTallied.storeCertified supported signer certified absent coherent

lemma Tallied.stored_one (stored : StoresOne cert pool next) (supported : cert.Supported bus.toSession signs)
    (votes : pool.VotesTallied bus signs fun slot kind => (pool.certAt slot kind).isSome = true ∨
      (slot = cert.vote.referencedSlot ∧ kind = cert.vote.kind))
    (others : ∀ slot kind other, pool.certAt slot kind = some other → other.vote.kind = kind ∧
      other.vote.referencedSlot = slot ∧ other.Supported bus.toSession signs)
    (saving : ∀ other ∈ pool.saving, other.Supported bus.toSession signs)
    (published : ∀ event ∈ pool.published, event.Backed bus.toSession signs) : next.Tallied bus signs where
  votes slot := by
    refine (votes slot).congr (stored.votes slot) (stored.weights slot) fun kind kept => ?_
    dsimp only
    rw [stored.certAt]
    split
    · rfl
    next different => exact kept.resolve_right different
  stored slot kind other found := by
    rw [stored.certAt] at found
    split at found
    next same =>
      cases found
      exact ⟨same.2.symm, same.1.symm, supported⟩
    next => exact others slot kind other found
  saving := by
    rw [stored.rest]
    exact saving
  published := by
    rw [stored.rest]
    exact published

lemma Tallied.saved (tallied : pool.Tallied bus signs) (supported : cert.Supported bus.toSession signs)
    (result : (pool.addCertificateVotes cert cert.signers).storeCertificate cert = .ok next) : next.Tallied bus signs := by
  have extended : pool.VotesTallied bus signs fun slot kind =>
      (pool.certAt slot kind).isSome = true ∨ (slot = cert.vote.referencedSlot ∧ kind = cert.vote.kind) :=
    tallied.votes.mono fun _ _ kept => .inl kept
  obtain ⟨votes, published⟩ := addCertificateVotes_tallied supported (.inr ⟨rfl, rfl⟩)
    (List.Subset.refl cert.signers) extended tallied.published
  have same := (addCertificateVotes_collects pool cert cert.signers).certAt
  refine .stored_one (storeCertificate_spec result) supported ?_ ?_ ?_ published
  · simp only [same]
    exact votes
  · simp only [same]
    exact tallied.stored
  · rw [(addCertificateVotes_keeps pool cert cert.signers).2.1]
    exact tallied.saving

lemma countVote_slots (bus : Bus n) (pool : Pool n) (validator : Fin n) (vote : Signed n)
    (slot : Nat) : (pool.countVote bus validator vote).state.slots slot = if slot = vote.vote.referencedSlot then
        ((pool.state.slots slot).storeVote validator (.ofSigned vote)).addWeightTo vote.vote (bus.weight validator)
      else pool.state.slots slot := by
  by_cases same : slot = vote.vote.referencedSlot
  · simp [countVote, modifySlot, same, SlotState.storeVote, Proven.ofSigned]
  · simp [countVote, modifySlot, modifySlot_slots, same]

lemma countVote_certs (bus : Bus n) (pool : Pool n) (validator : Fin n) (vote : Signed n)
    (slot : Nat) : ((pool.countVote bus validator vote).state.slots slot).certs = (pool.state.slots slot).certs := by
  rw [countVote_slots]
  split
  · rw [SlotState.certs_addWeightTo]
    rfl
  · rfl

lemma Tallied.counted (tallied : pool.Tallied bus signs) (capped : bus.totalWeight ≤ 2 ^ 61)
    {vote : Signed n} (signed : signs vote.validator vote.vote vote.signature)
    (applied : ((pool.state.slots vote.vote.referencedSlot).votes vote.validator).addVote (.ofSigned vote) = (.ofBool true,
        ((pool.state.slots vote.vote.referencedSlot).votes vote.validator).withStored vote.vote.kind (some (.ofSigned vote)))) :
    (pool.countVote bus vote.validator vote).Tallied bus signs := by
  have slotTallied := tallied.votes vote.vote.referencedSlot
  rcases Tsentrizbirkom.addVote_cases (slotTallied.coherent vote.validator) (Proven.ofSigned_slot vote) with
    ⟨_, misbehavior, outcome⟩ | ⟨_, _, outcome⟩ | ⟨_, absent, coherent, _⟩
  · rw [outcome] at applied
    cases applied
  · rw [outcome] at applied
    cases applied
  · have certAt : ∀ slot kind, (pool.countVote bus vote.validator vote).certAt slot kind =
        pool.certAt slot kind := fun slot kind => by rw [Pool.certAt, countVote_certs, Pool.certAt]
    refine ⟨?_, by simpa only [certAt] using tallied.stored, tallied.saving, tallied.published⟩
    simp only [certAt]
    intro slot
    rw [countVote_slots]
    split
    next same =>
      rw [same]
      exact slotTallied.count capped rfl signed absent coherent
    next => exact tallied.votes slot

lemma Tallied.supported (tallied : pool.Tallied bus signs) (capped : bus.totalWeight ≤ 2 ^ 61)
    (wanted : pool.wantsCertificate cert.vote = true) (justified : pool.Justified bus signs cert) :
    cert.Supported bus.toSession signs := by
  rcases justified with ⟨received, vouched, accepted⟩ | ⟨created, heavy⟩
  · exact Certificate.fromTl_supported capped vouched accepted
  · obtain ⟨_, needed⟩ := wantsCertificate_iff.mp wanted
    have uncertified :
        ¬ (pool.certAt cert.vote.referencedSlot cert.vote.kind).isSome = true := by
      simp only [CertificateBundle.needs, Bool.and_eq_true, Option.isNone_iff_eq_none] at needed
      simp [Pool.certAt, needed.1]
    obtain ⟨built, builtOk, _, _, supported⟩ := (tallied.votes cert.vote.referencedSlot).createCert rfl uncertified
    rw [builtOk] at created
    cases created
    exact supported heavy

lemma Tallied.begun (tallied : pool.Tallied bus signs) (supported : cert.Supported bus.toSession signs) :
    (pool.beginSaving cert).Tallied bus signs := by
  have certAt := (beginSaving_sameChain pool cert).certAt
  refine ⟨?_, by simpa only [certAt] using tallied.stored, ?_, ?_⟩
  · simp only [certAt]
    intro slot
    simp only [beginSaving, modifySlot_slots]
    split
    next same =>
      rw [same]
      exact (tallied.votes _).congr rfl (fun vote => by cases vote <;> rfl) fun _ kept => kept
    next => exact tallied.votes slot
  · exact forall_mem_append.mpr ⟨tallied.saving, forall_mem_singleton.mpr supported⟩
  · exact forall_mem_append.mpr ⟨tallied.published, forall_mem_singleton.mpr supported⟩

lemma Change.tallied (capped : bus.totalWeight ≤ 2 ^ 61) (change : Change bus signs pool next)
    (tallied : pool.Tallied bus signs) : next.Tallied bus signs := by
  cases change with
  | quiet quiet => exact tallied.quiet quiet
  | @reported vote misbehavior admissible outcome =>
    have slotTallied := tallied.votes vote.vote.referencedSlot
    refine tallied.publish ?_
    rcases Tsentrizbirkom.addVote_cases (slotTallied.coherent vote.validator) (Proven.ofSigned_slot vote) with
      ⟨opposed, _⟩ | ⟨_, _, applied⟩ | ⟨_, _, _, applied⟩
    · exact slotTallied.equivocated rfl ⟨_, admissible.signed⟩ opposed
    · rw [applied] at outcome
      cases outcome
    · rw [applied] at outcome
      cases outcome
  | counted admissible applied => exact tallied.counted capped admissible.signed applied
  | saving wanted justified => exact tallied.begun (tallied.supported capped wanted justified)

lemma Tallied.completed (tallied : pool.Tallied bus signs) (waiting : cert ∈ pool.saving)
    (completes : Completes cert pool next) : next.Tallied bus signs := by
  have removed := tallied.withSaving (erase_subset (a := cert))
  cases completes with
  | overtaken behind => exact removed
  | stored tracked result quiet =>
    exact (removed.saved (tallied.saving cert waiting) result).quiet quiet

lemma fresh_tallied (bus : Bus n) (signs : Fin n → Vote → BufferSlice → Prop) (params : NoncriticalParams) (window : Nat) :
    (fresh params window).Tallied bus signs where
  votes slot := by
    simp only [fresh, empty, modifySlot, modifySlot_slots]
    split <;> exact SlotState.tallied_initial _ _ _ _ _
  stored slot kind cert found := by simp [fresh_certAt] at found
  saving cert member := by cases member
  published event member := by cases member

lemma startUp_tallied {bootstrap : Bootstrap n}
    (supported : ∀ cert ∈ bootstrap.certificates, cert.Supported bus.toSession signs)
    (result : startUp bus params bootstrap = .ok pool) : pool.Tallied bus signs := by
  refine startUp_preserve (Tallied bus signs) ?_ (fun quiet tallied => tallied.quiet quiet)
    (fresh_tallied bus signs params bootstrap.firstNonannouncedWindow) result
  intro cert pool stored member result tallied
  exact .stored_one (storeCertificate_spec result) (supported cert member)
    (tallied.votes.mono fun _ _ kept => .inl kept) tallied.stored tallied.saving tallied.published

lemma step_tallied (capped : bus.totalWeight ≤ 2 ^ 61) (enabled : pool.Enabled bus event) (vouched : Vouched bus signs event)
    (tallied : pool.Tallied bus signs) (result : step bus pool event = .ok next) : next.Tallied bus signs := by
  have cleared : ({ pool with published := [] } : Pool n).Tallied bus signs :=
    ⟨tallied.votes, tallied.stored, tallied.saving, by simp⟩
  rcases handleEvent_changes vouched result with ⟨changes, _⟩ | ⟨cert, rfl, completes⟩ | ⟨cert, rfl, rfl⟩
  · exact changes.preserve (fun change => change.tallied capped) cleared
  · exact cleared.completed enabled completes
  · exact cleared.withSaving erase_subset

/-- A stored vote always has the proof that is asked for, and own votes clash
only if the own key signed conflicting votes. -/
def Excused (bus : Bus n) (signs : Fin n → Vote → BufferSlice → Prop) (failure : Check) : Prop :=
  failure ≠ .signedVoteProof ∧ (failure = .ownVotesConsistent → Equivocated signs bus.localId)

lemma Excused.of_isBookkeeping {failure : Check} (bookkeeping : failure.isBookkeeping = true) : Excused bus signs failure := by
  refine ⟨?_, ?_⟩ <;> rintro rfl <;> cases bookkeeping

lemma Tallied.createCert_ok (tallied : pool.Tallied bus signs)
    (unsaved : (pool.state.slots vote.referencedSlot).willBe vote.kind = false) :
    ∃ cert, (pool.state.slots vote.referencedSlot).createCert vote = .ok cert := by
  have uncertified : ¬ (pool.certAt vote.referencedSlot vote.kind).isSome = true := by
    simp only [SlotState.willBe, Bool.or_eq_false_iff] at unsaved
    simp [Pool.certAt, unsaved.1]
  obtain ⟨cert, created, _⟩ := (tallied.votes vote.referencedSlot).createCert rfl uncertified
  exact ⟨cert, created⟩

lemma handleVote_fails (capped : bus.totalWeight ≤ 2 ^ 61) (tallied : pool.Tallied bus signs)
    {vote : Signed n} (signed : signs vote.validator vote.vote vote.signature) (tolerate : Bool) :
    FailsWith (Excused bus signs) (pool.handleVote bus vote.validator vote tolerate) := by
  have slotTallied := tallied.votes vote.vote.referencedSlot
  simp only [handleVote]
  split
  · exact .ok _
  next state found =>
    obtain ⟨_, rfl⟩ := slotAt_eq_some.mp found
    rcases Tsentrizbirkom.addVote_cases (slotTallied.coherent vote.validator) (Proven.ofSigned_slot vote) with
      ⟨opposed, misbehavior, outcome⟩ | ⟨_, _, outcome⟩ | ⟨_, _, _, outcome⟩
    · simp only [outcome, AddVoteResult.ofMisbehavior]
      split
      next own =>
        refine .error ⟨by decide, fun _ => ?_⟩
        rw [← own.1]
        exact slotTallied.equivocated rfl ⟨_, signed⟩ opposed
      next => exact .ok _
    · simp only [outcome, AddVoteResult.ofBool, Bool.false_eq_true, if_false]
      exact .ok _
    · simp only [outcome, AddVoteResult.ofBool, if_true]
      refine FailsWith.bind ?_ fun _ => .ok _
      have counted := tallied.counted capped signed outcome
      simp only [handleTypedVote]
      split
      next enough =>
        have unsaved := (Bool.not_eq_true' _).mp enough.1
        obtain ⟨cert, created⟩ := counted.createCert_ok unsaved
        intro failure failed
        rcases bind_eq_error.mp failed with failed | ⟨cert, _, failed⟩
        · cases failed.symm.trans created
        · rw [handleCertificate_eq] at failed
          cases failed
      next => exact .ok _

lemma Tallied.serializeVote_ok (tallied : pool.Tallied bus signs) (slot : Nat)
    (validator : Fin n) (kind : VoteKind) : ∃ messages,
      ((pool.state.slots slot).votes validator).serializeVote (pool.state.slots slot).certs kind = .ok messages := by
  unfold Tsentrizbirkom.serializeVote
  split
  next vote stored absent =>
    have signed : vote.isSigned = true := by
      by_contra unsigned
      have certified := (tallied.votes slot).certified _ _ _ stored (by simpa using unsigned)
      simp [Pool.certAt, absent] at certified
    obtain ⟨_, proof⟩ := vote
    cases proof with
    | signed signedVote => exact ⟨_, rfl⟩
    | certificate cert => cases signed
  next => exact ⟨_, rfl⟩

lemma Tallied.standstillMessages_ok (tallied : pool.Tallied bus signs) (slot : Nat) :
    ∃ messages, (pool.state.slots slot).standstillMessages bus.localId = .ok messages := by
  obtain ⟨notarize, notarizeOk⟩ := tallied.serializeVote_ok slot bus.localId .notarize
  obtain ⟨skip, skipOk⟩ := tallied.serializeVote_ok slot bus.localId .skip
  obtain ⟨finalize, finalizeOk⟩ := tallied.serializeVote_ok slot bus.localId .finalize
  exact ⟨(pool.state.slots slot).certs.serializeTo ++ (notarize ++ skip ++ finalize), by
    simp only [SlotState.standstillMessages, Tsentrizbirkom.serializeTo, notarizeOk, skipOk, finalizeOk, ok_bind, pure_eq_ok]⟩

lemma slotRef_eq_ok (result : pool.slotRef slot = .ok state) : state = pool.state.slots slot := by
  unfold slotRef at result
  split at result
  next found =>
    cases result
    exact (slotAt_eq_some.mp found).2.symm
  next => cases result

lemma handleEvent_fails (capped : bus.totalWeight ≤ 2 ^ 61)
    (vouched : Vouched bus signs event) (tallied : pool.Tallied bus signs) :
    FailsWith (Excused bus signs) (pool.handleEvent bus event) := by
  cases event with
  | start =>
    exact (advancePresent_fails bus { pool with isStarted := true }).imp fun _ => .of_isBookkeeping
  | incomingProtocolMessage source message time =>
    have checked := (isBanned_steps pool source time).changes.preserve (fun change => change.tallied capped) tallied
    simp only [handleEvent, handleIncomingProtocolMessage]
    split
    · exact .ok _
    cases message with
    | vote vote signature =>
      simp only [handleVoteMessage]
      split
      · exact .ok _
      split
      · exact .ok _
      refine ((slotRef_fails _ _).imp fun _ => .of_isBookkeeping).bind fun state => ?_
      split
      · exact .ok _
      split
      · exact .ok _
      next valid =>
        have signed : signs source vote signature := vouched (by simpa [Session.Verifies] using valid)
        have handled : FailsWith (Excused bus signs) ((pool.isBanned source time).2.handleVote
            bus source ⟨source, vote, signature⟩ false) := handleVote_fails capped checked signed _
        exact handled.bind fun _ => .ok _
    | certificate certificate =>
      intro failure failed
      rw [handleCertificateMessage_error failed]
      exact .of_isBookkeeping rfl
    | other => exact .ok _
  | broadcastVote vote => exact .ok _
  | keyringSigned frame signature =>
    have removed : Tallied bus signs { pool with ourVotes := pool.ourVotes.erase frame } := tallied.quiet (.silent rfl rfl rfl)
    have handled : FailsWith (Excused bus signs) (({ pool with
        ourVotes := pool.ourVotes.erase frame } : Pool n).handleVote bus bus.localId
          ⟨bus.localId, frame.vote, signature⟩ frame.tolerateConflicts) :=
      have signed : signs bus.localId frame.vote signature := vouched
      handleVote_fails capped removed signed _
    refine handled.bind fun outcome => ?_
    obtain ⟨applied, next⟩ := outcome
    dsimp only
    split
    · exact .ok _
    · exact .ok _
  | certificateSaved cert =>
    simp only [handleEvent, resumeProspectiveCertificate]
    split
    · exact .ok _
    · refine (handleSavedCertificate_fails _ _ _).imp fun failure allowed => ?_
      rcases allowed with bookkeeping | ⟨rfl, _⟩ | ⟨_, _, _, _, refused⟩
      · exact .of_isBookkeeping bookkeeping
      · exact ⟨by decide, fun same => by cases same⟩
      · rcases refused.cases with rfl | rfl <;> exact ⟨by decide, fun same => by cases same⟩
  | certificateSaveFailed cert => exact .ok _
  | waitForParent candidate =>
    exact (processWaitForParent_fails _ _).imp fun _ => .of_isBookkeeping
  | standstill slot =>
    intro failure failed
    rcases bind_eq_error.mp failed with untracked | ⟨state, found, failed⟩
    · exact .of_isBookkeeping (slotRef_fails _ _ failure untracked)
    · obtain ⟨messages, ok⟩ := tallied.standstillMessages_ok slot
      rw [slotRef_eq_ok found, ok] at failed
      cases failed
  | precheckCandidateBroadcast slot broadcastId signatureChecked => exact .ok _
  | noncriticalParamsUpdated params => exact .ok _

end Pool

def Vote.entryKey (vote : Vote) : Nat × VoteKind := (vote.referencedSlot, vote.kind)

def Published.save? : Published n → Option (Certificate n)
  | .saveCertificate cert => some cert
  | _ => none

def saves (events : List (Published n)) : List (Certificate n) :=
  events.filterMap Published.save?

@[simp] lemma saves_append (left right : List (Published n)) : saves (left ++ right) = saves left ++ saves right := by
  simp [saves]

lemma saves_of_quiet {events : List (Published n)} (quiet : ∀ event ∈ events, event.isQuiet = true) : saves events = [] := by
  refine filterMap_eq_nil_iff.mpr fun event member => ?_
  have isQuiet := quiet event member
  cases event <;> first | rfl | cases isQuiet

namespace Pool

variable {bus : Bus n} {pool middle next : Pool n}

structure Saving (pool : Pool n) : Prop where
  distinct : (pool.saving.map (·.vote.entryKey)).Nodup
  flagged : ∀ cert ∈ pool.saving, ((pool.state.slots cert.vote.referencedSlot).certs.entry cert.vote.kind).beingSaved = true ∧
    pool.certAt cert.vote.referencedSlot cert.vote.kind = none
  owned : ∀ slot kind, pool.state.firstNonFinalizedSlot ≤ slot → ((pool.state.slots slot).certs.entry kind).beingSaved = true →
    pool.certAt slot kind = none → ∃ cert ∈ pool.saving, cert.vote.entryKey = (slot, kind)

/-- New coroutines are exactly the published requests, and stored certificates
stay the same. -/
structure Begins (pool next : Pool n) : Prop where
  added : ∃ added, next.saving = pool.saving ++ added ∧ saves next.published = saves pool.published ++ added ∧
    ∀ cert ∈ added, pool.state.firstNonFinalizedSlot ≤ cert.vote.referencedSlot
  certAt : ∀ slot kind, next.certAt slot kind = pool.certAt slot kind
  notEarlier : pool.state.firstNonFinalizedSlot ≤ next.state.firstNonFinalizedSlot

lemma Begins.trans (first : Begins pool middle) (second : Begins middle next) : Begins pool next where
  added := by
    obtain ⟨early, earlySaving, earlySaves, earlyTracked⟩ := first.added
    obtain ⟨late, lateSaving, lateSaves, lateTracked⟩ := second.added
    refine ⟨early ++ late, by rw [lateSaving, earlySaving, append_assoc],
      by rw [lateSaves, earlySaves, append_assoc], fun cert member => ?_⟩
    rcases mem_append.mp member with inEarly | inLate
    · exact earlyTracked cert inEarly
    · exact le_trans first.notEarlier (lateTracked cert inLate)
  certAt slot kind := (second.certAt slot kind).trans (first.certAt slot kind)
  notEarlier := le_trans first.notEarlier second.notEarlier

lemma Quiet.saves (quiet : Quiet pool next) : Simplex.saves next.published = Simplex.saves pool.published := by
  obtain ⟨events, published, allQuiet⟩ := quiet.published
  rw [published, saves_append, saves_of_quiet allQuiet, append_nil]

lemma Quiet.begins (quiet : Quiet pool next) : Begins pool next where
  added := ⟨[], by rw [quiet.saving, append_nil], by rw [quiet.saves, append_nil], by simp⟩
  certAt := quiet.certAt
  notEarlier := quiet.notEarlier

lemma Change.begins (change : Change bus signs pool next) : Begins pool next := by
  cases change with
  | quiet quiet => exact quiet.begins
  | reported admissible outcome =>
    exact ⟨⟨[], by simp [publish], by simp [publish, Simplex.saves, Published.save?], by simp⟩, fun _ _ => rfl, le_refl _⟩
  | @counted vote admissible applied =>
    exact ⟨⟨[], by simp [countVote, modifySlot], by simp [countVote, modifySlot],
      by simp⟩, fun slot kind => by rw [Pool.certAt, countVote_certs, Pool.certAt], le_refl _⟩
  | @saving cert wanted justified =>
    exact ⟨⟨[cert], rfl, by simp [beginSaving, Simplex.saves, Published.save?],
      by simpa using (wantsCertificate_iff.mp wanted).1⟩, (beginSaving_sameChain pool cert).certAt, le_refl _⟩

lemma Changes.begins (changes : Changes bus signs pool next) : Begins pool next :=
  changes.preserve (fun change begun => begun.trans change.begins) (Quiet.refl pool).begins

lemma Saving.congr (saving : pool.Saving) (certs : ∀ slot, (next.state.slots slot).certs = (pool.state.slots slot).certs)
    (same : next.saving = pool.saving) (notEarlier : pool.state.firstNonFinalizedSlot ≤ next.state.firstNonFinalizedSlot) :
    next.Saving where
  distinct := by
    rw [same]
    exact saving.distinct
  flagged cert member := by
    rw [same] at member
    rw [certs, Pool.certAt, certs]
    exact saving.flagged cert member
  owned slot kind tracked flag absent := by
    rw [certs] at flag
    rw [Pool.certAt, certs] at absent
    rw [same]
    exact saving.owned slot kind (le_trans notEarlier tracked) flag absent

lemma Saving.quiet (saving : pool.Saving) (quiet : Quiet pool next) : next.Saving :=
  saving.congr quiet.certs quiet.saving quiet.notEarlier

lemma beginSaving_entry (pool : Pool n) (cert : Certificate n) (slot : Nat) (kind : VoteKind) :
    ((pool.beginSaving cert).state.slots slot).certs.entry kind =
      { (pool.state.slots slot).certs.entry kind with
        beingSaved := ((pool.state.slots slot).certs.entry kind).beingSaved ||
          decide ((slot, kind) = cert.vote.entryKey) } := by
  simp only [beginSaving, ConsensusState.modifySlot_slots]
  by_cases same : slot = cert.vote.referencedSlot
  · simp [same, CertificateBundle.entry_markSaving, Vote.entryKey]
  · simp [same, Vote.entryKey]

variable {cert : Certificate n}

lemma Saving.begun (saving : pool.Saving) (wanted : pool.wantsCertificate cert.vote = true) :
    (pool.beginSaving cert).Saving := by
  obtain ⟨_, needed⟩ := wantsCertificate_iff.mp wanted
  obtain ⟨absent, unflagged⟩ :
      pool.certAt cert.vote.referencedSlot cert.vote.kind = none ∧
      ((pool.state.slots cert.vote.referencedSlot).certs.entry cert.vote.kind).beingSaved =
        false := by
    simpa [CertificateBundle.needs, Pool.certAt] using needed
  have certAt := (beginSaving_sameChain pool cert).certAt
  refine ⟨?_, ?_, ?_⟩
  · have newcomer : cert.vote.entryKey ∉ pool.saving.map (·.vote.entryKey) := by
      intro member
      obtain ⟨other, waiting, same⟩ := mem_map.mp member
      have flag := (saving.flagged other waiting).1
      simp only [Vote.entryKey, Prod.mk.injEq] at same
      rw [same.1, same.2, unflagged] at flag
      cases flag
    simp only [beginSaving, map_append, map_cons, map_nil]
    exact saving.distinct.append (by simp) (by simpa using newcomer)
  · intro other member
    rw [beginSaving_entry, certAt]
    rcases mem_append.mp member with earlier | new
    · obtain ⟨flag, otherAbsent⟩ := saving.flagged other earlier
      exact ⟨by simp [flag], otherAbsent⟩
    · rw [mem_singleton.mp new]
      exact ⟨by simp [Vote.entryKey], absent⟩
  · intro slot kind tracked flag otherAbsent
    rw [beginSaving_entry] at flag
    rw [certAt] at otherAbsent
    simp only [Bool.or_eq_true, decide_eq_true_eq] at flag
    rcases flag with earlier | same
    · obtain ⟨other, waiting, key⟩ := saving.owned slot kind tracked earlier otherAbsent
      exact ⟨other, mem_append_left _ waiting, key⟩
    · exact ⟨cert, by simp [beginSaving], same.symm⟩

lemma Change.saving_preserved (change : Change bus signs pool next) (saving : pool.Saving) : next.Saving := by
  cases change with
  | quiet quiet => exact saving.quiet quiet
  | reported admissible outcome => exact saving.congr (fun _ => rfl) rfl (le_refl _)
  | counted admissible applied =>
    exact saving.congr (countVote_certs _ _ _ _) rfl (le_refl _)
  | saving wanted justified => exact saving.begun wanted

lemma Saving.removed (saving : pool.Saving) {other : Certificate n} (waiting : cert ∈ pool.saving)
    (member : other ∈ pool.saving.erase cert) : other ∈ pool.saving ∧ other.vote.entryKey ≠ cert.vote.entryKey := by
  have distinct : pool.saving.Nodup := saving.distinct.of_map _
  obtain ⟨different, kept⟩ := distinct.mem_erase_iff.mp member
  refine ⟨kept, fun same => different ?_⟩
  exact inj_on_of_nodup_map saving.distinct kept waiting same

lemma Saving.erased (saving : pool.Saving) {cert : Certificate n} (waiting : cert ∈ pool.saving)
    (same : next.saving = pool.saving.erase cert) (entries : ∀ slot kind, (slot, kind) ≠ cert.vote.entryKey →
      (next.state.slots slot).certs.entry kind = (pool.state.slots slot).certs.entry kind)
    (notEarlier : pool.state.firstNonFinalizedSlot ≤ next.state.firstNonFinalizedSlot)
    (settled : cert.vote.referencedSlot < next.state.firstNonFinalizedSlot ∨
      next.certAt cert.vote.referencedSlot cert.vote.kind ≠ none) : next.Saving where
  distinct := by
    rw [same]
    exact saving.distinct.sublist (erase_sublist.map _)
  flagged other member := by
    rw [same] at member
    obtain ⟨kept, different⟩ := saving.removed waiting member
    rw [entries _ _ different, Pool.certAt, entries _ _ different]
    exact saving.flagged other kept
  owned slot kind tracked flag absent := by
    have different : (slot, kind) ≠ cert.vote.entryKey := by
      intro key
      simp only [Vote.entryKey, Prod.mk.injEq] at key
      rcases settled with behind | present
      · omega
      · rw [← key.1, ← key.2] at present
        exact present absent
    rw [entries _ _ different] at flag
    rw [Pool.certAt, entries _ _ different] at absent
    obtain ⟨other, kept, key⟩ := saving.owned slot kind (le_trans notEarlier tracked) flag absent
    refine ⟨other, ?_, key⟩
    rw [same]
    refine (mem_erase_of_ne ?_).mpr kept
    rintro rfl
    exact different key.symm

lemma addCertificateVotes_saves (pool : Pool n) (cert : Certificate n) (validators : List (Fin n)) :
    saves (pool.addCertificateVotes cert validators).published = saves pool.published := by
  induction validators generalizing pool with
  | nil => rfl
  | cons validator rest ih =>
    simp only [addCertificateVotes]
    split
    · rw [ih]
      simp [publish, modifySlot, saves, Published.save?]
    · rw [ih]
      simp [modifySlot]

structure Completed (cert : Certificate n) (pool next : Pool n) : Prop where
  saving : next.Saving
  removed : next.saving = pool.saving.erase cert
  saves : saves next.published = saves pool.published
  notEarlier : pool.state.firstNonFinalizedSlot ≤ next.state.firstNonFinalizedSlot
  certAt : ∀ slot kind, (slot, kind) ≠ cert.vote.entryKey → next.certAt slot kind = pool.certAt slot kind
  settled : next.certAt cert.vote.referencedSlot cert.vote.kind = some cert ∨
    cert.vote.referencedSlot < next.state.firstNonFinalizedSlot

lemma Completes.completed (completes : Completes cert pool next) (saving : pool.Saving)
    (waiting : cert ∈ pool.saving) : Completed cert pool next := by
  cases completes with
  | overtaken behind =>
    exact ⟨saving.erased waiting rfl (fun _ _ _ => rfl) (le_refl _) (.inl behind), rfl, rfl,
      le_refl _, fun _ _ _ => rfl, .inr behind⟩
  | @stored stored next tracked result quiet =>
    obtain ⟨certs, kept, dropped⟩ := addCertificateVotes_keeps { pool with saving := pool.saving.erase cert } cert cert.signers
    have stores := storeCertificate_spec result
    have entries : ∀ slot kind, (slot, kind) ≠ cert.vote.entryKey →
        (next.state.slots slot).certs.entry kind =
          (pool.state.slots slot).certs.entry kind := by
      intro slot kind different
      rw [quiet.certs, stores.entry, if_neg (by simpa [Vote.entryKey] using different), certs]
    have present : next.certAt cert.vote.referencedSlot cert.vote.kind = some cert := by
      rw [quiet.certAt, stores.certAt, if_pos ⟨rfl, rfl⟩]
    have removed : next.saving = pool.saving.erase cert := by
      rw [quiet.saving, stores.rest, kept]
    have notEarlier : pool.state.firstNonFinalizedSlot ≤ next.state.firstNonFinalizedSlot := by
      have later := quiet.notEarlier
      rw [stores.dropped, dropped] at later
      exact later
    refine ⟨saving.erased waiting removed entries notEarlier (.inr (by simp [present])), removed,
      ?_, notEarlier, fun slot kind different => ?_, .inl present⟩
    · rw [quiet.saves, stores.rest, addCertificateVotes_saves]
    · rw [Pool.certAt, entries slot kind different, Pool.certAt]

end Pool

end TonNode.Simplex
