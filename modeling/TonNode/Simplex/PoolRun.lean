import TonNode.Simplex.PoolVotes

/-!
# Runs of the pool

Every event keeps the pool in step with its chain view, as long as the
certificates it stores do not conflict. The start-up and all later events
preserve this, so it holds throughout a run.
-/

namespace TonNode.Simplex

open Consensus Lib ConsensusState List

variable {n : Nat}

namespace Pool

variable {bus : Bus n} {pool next : Pool n} {view : ChainView} {certified : Vote → Prop}

lemma storeCertificate_eq (pool : Pool n) (cert : Certificate n) :
    pool.storeCertificate cert =
      if pool.certAt cert.vote.referencedSlot cert.vote.kind = none then
        .ok (pool.modifySlot cert.vote.referencedSlot fun state =>
          { state with certs := ((pool.state.slots cert.vote.referencedSlot).certs.store cert).2 })
      else
        .error .certificateNotStored := by
  simp only [storeCertificate, CertificateBundle.store, Pool.certAt, Option.isSome_iff_ne_none]
  by_cases absent : ((pool.state.slots cert.vote.referencedSlot).certs.entry cert.vote.kind).cert = none
  · simp [absent]
  · simp [absent]

structure StoresOne (cert : Certificate n) (pool next : Pool n) : Prop where
  absent : pool.certAt cert.vote.referencedSlot cert.vote.kind = none
  entry : ∀ slot kind, (next.state.slots slot).certs.entry kind =
    if slot = cert.vote.referencedSlot ∧ kind = cert.vote.kind then
      { (pool.state.slots slot).certs.entry kind with cert := some cert }
    else
      (pool.state.slots slot).certs.entry kind
  votes : ∀ slot, (next.state.slots slot).votes = (pool.state.slots slot).votes
  weights : ∀ slot vote, (next.state.slots slot).weightOf vote = (pool.state.slots slot).weightOf vote
  base : ∀ slot, (next.state.slots slot).availableBase = (pool.state.slots slot).availableBase
  rest : next = { pool with state := next.state }
  dropped : next.state.firstNonFinalizedSlot = pool.state.firstNonFinalizedSlot
  trackedEnd : next.state.trackedEnd = max pool.state.trackedEnd (cert.vote.referencedSlot + 1)

variable {cert : Certificate n} {event : Event n} {vote : Vote} {certs : List (Certificate n)} {request : Request n}
variable {params : NoncriticalParams} {bootstrap : Bootstrap n}

lemma storeCertificate_spec (result : pool.storeCertificate cert = .ok next) : StoresOne cert pool next := by
  rw [storeCertificate_eq] at result
  split at result
  next absent =>
    cases result
    refine ⟨absent, ?_, modifySlot_kept SlotState.votes rfl,
      fun slot vote => modifySlot_kept (SlotState.weightOf · vote) (by cases vote <;> rfl) slot,
      modifySlot_kept SlotState.availableBase rfl, rfl, rfl, rfl⟩
    · intro slot kind
      simp only [modifySlot, modifySlot_slots]
      have empty :
          ((pool.state.slots cert.vote.referencedSlot).certs.entry cert.vote.kind).cert = none :=
        absent
      by_cases here : slot = cert.vote.referencedSlot
      · subst here
        simp only [if_true, CertificateBundle.store, empty, true_and, Option.isSome_none,
          Bool.false_eq_true, if_false, CertificateBundle.entry_withEntry]
        split
        next same => rw [same]
        next => rfl
      · simp [here]
  next => cases result

lemma StoresOne.certAt (stored : StoresOne cert pool next) (slot : Nat) (kind : VoteKind) : next.certAt slot kind =
      if slot = cert.vote.referencedSlot ∧ kind = cert.vote.kind then some cert else pool.certAt slot kind := by
  rw [Pool.certAt, stored.entry]
  split <;> rfl

lemma StoresOne.holds (stored : StoresOne cert pool next) (vote : Vote) :
    next.Holds vote ↔ vote = cert.vote ∨ pool.Holds vote := by
  simp only [Holds, stored.certAt]
  by_cases here : vote.referencedSlot = cert.vote.referencedSlot ∧ vote.kind = cert.vote.kind
  · have absent : ¬ ∃ other, pool.certAt vote.referencedSlot vote.kind = some other ∧
        other.vote = vote := by
      rw [here.1, here.2, stored.absent]
      simp
    rw [if_pos here, or_iff_left absent]
    simp [eq_comm]
  · have different : vote ≠ cert.vote := by
      rintro rfl
      exact here ⟨rfl, rfl⟩
    simp [here, different]

lemma StoresOne.keeps (stored : StoresOne cert pool next) (keeps : pool.Keeps certified) :
    next.Keeps fun vote => vote = cert.vote ∨ certified vote where
  typed slot kind other found := by
    rw [stored.certAt] at found
    split at found
    next here =>
      cases found
      exact ⟨here.2.symm, here.1.symm⟩
    next => exact keeps.typed slot kind other found
  held vote := by rw [stored.holds, keeps.held]

lemma StoresOne.stores (stored : StoresOne cert pool next) (stores : pool.Stores certified) :
    next.Stores fun vote => vote = cert.vote ∨ certified vote where
  toKeeps := stored.keeps stores.toKeeps
  untouched slot kind beyond := by
    rw [stored.trackedEnd] at beyond
    rw [stored.certAt, if_neg (by omega)]
    exact stores.untouched slot kind (by omega)

lemma broadcastCertificate_sameChain (pool : Pool n) (cert : Certificate n) :
    SameChain pool (pool.broadcastCertificate cert) := by
  have obtained : SameChain pool (pool.publish (.obtainedCertificate cert)) := .publish _ rfl rfl
  simp only [broadcastCertificate]
  split
  · exact obtained.trans (.publish _ rfl rfl)
  · exact obtained

lemma handleSavedCertificate_cases (result : pool.handleSavedCertificate bus cert = .ok next) :
    ∃ stored handled, StoresOne cert pool stored ∧ Update (stored.broadcastCertificate cert) handled ∧
      (stored.broadcastCertificate cert).handleTypedSavedCertificate bus cert = .ok handled ∧ Resolves handled next := by
  obtain ⟨stored, storedResult, result⟩ := bind_eq_ok.mp result
  obtain ⟨handled, handledResult, result⟩ := bind_eq_ok.mp result
  exact ⟨stored, handled, storeCertificate_spec storedResult, handleTypedSavedCertificate_update handledResult, handledResult,
    maybeResolveRequests_resolves result⟩

lemma SameChain.holds (same : SameChain pool next) (vote : Vote) : next.Holds vote ↔ pool.Holds vote := by
  simp only [Holds, same.certAt]

lemma handleSavedCertificate_holds (result : pool.handleSavedCertificate bus cert = .ok next) (vote : Vote) :
    next.Holds vote ↔ vote = cert.vote ∨ pool.Holds vote := by
  obtain ⟨stored, handled, stores, update, _, resolves⟩ := handleSavedCertificate_cases result
  rw [resolves.frame.holds, update.holds, (broadcastCertificate_sameChain stored cert).holds, stores.holds]

/-- Bookkeeping and certificates agree with `view`, and every request still
pending is one that `view` does not decide. -/
structure Follows (view : ChainView) (pool : Pool n) : Prop where
  matched : pool.Matches view
  stores : pool.Stores view.certified
  pending : ∀ request ∈ pool.requests, nextSlotAfterParent request.parent ≤ request.id.slot ∧ view.first ≤ request.id.slot ∧
      ¬ view.Contradicts request.id request.parent ∧ ¬ view.Extends request.id request.parent

lemma Follows.view_eq (follows : pool.Follows view) : pool.view = view := by
  have certified : pool.Holds = view.certified := funext fun vote => propext (follows.stores.held vote)
  rw [Pool.view, certified, follows.matched.last]

lemma Follows.above {slot : Nat} {state : SlotState n} (follows : pool.Follows view)
    (tracked : pool.state.slotAt slot = some state) : view.first ≤ slot := by
  rw [← follows.matched.dropped]
  exact (slotAt_eq_some.mp tracked).1

lemma SameChain.view_eq (same : SameChain pool next) : next.view = pool.view := by
  have certified : next.Holds = pool.Holds := funext fun vote => propext (same.holds vote)
  rw [Pool.view, certified, same.last, Pool.view]

lemma SameChain.follows (same : SameChain pool next) (follows : pool.Follows view) : next.Follows view where
  matched := same.matched follows.matched
  stores := same.stores follows.stores
  pending := by
    rw [same.requests]
    exact follows.pending

section

variable (matched : pool.Matches view) (stores : pool.Stores view.certified) (clean : ConflictFree view.certified)
  (before : nextSlotAfterParent request.parent ≤ request.id.slot)
include matched stores clean before

lemma maybeResolveRequest_total : ∃ answer, pool.maybeResolveRequest request = .ok answer := by
  rcases maybeResolveRequest_spec matched stores clean before with
    ⟨_, answer⟩ | ⟨_, answer⟩ | ⟨_, answer⟩ | ⟨_, _, _, answer⟩
  all_goals exact ⟨_, answer⟩

lemma maybeResolveRequest_eq_none :
    pool.maybeResolveRequest request = .ok none ↔ view.first ≤ request.id.slot ∧ ¬ view.Contradicts request.id request.parent ∧
        ¬ view.Extends request.id request.parent := by
  rcases maybeResolveRequest_spec matched stores clean before with
    ⟨finalized, answer⟩ | ⟨contradicts, answer⟩ | ⟨extends_, answer⟩ | ⟨above, no, nor, answer⟩
  · rw [answer]
    simp
    omega
  · rw [answer]
    simp [contradicts]
  · rw [answer]
    simp [extends_]
  · simp [answer, above, no, nor]

end

lemma Matches.withRequests (matched : pool.Matches view) (requests : List (Request n))
    (nextPromise : Nat) (published : List (Published n)) : Matches view { pool with requests, nextPromise, published } :=
  ⟨⟨matched.dropped, matched.aligned, matched.last, matched.finals, matched.lastCertified,
    matched.ends, matched.bases⟩, matched.present, matched.waiting⟩

lemma Stores.withRequests (stores : pool.Stores certified) (requests : List (Request n))
    (nextPromise : Nat) (published : List (Published n)) : Stores certified { pool with requests, nextPromise, published } :=
  ⟨⟨stores.typed, stores.held⟩, stores.untouched⟩

lemma Resolves.follows (resolves : Resolves pool next) (matched : pool.Matches view)
    (stores : pool.Stores view.certified) (clean : ConflictFree view.certified) (ordered : ∀ request ∈ pool.requests,
      nextSlotAfterParent request.parent ≤ request.id.slot) : next.Follows view := by
  obtain ⟨kept, resolved, same, answered, perm⟩ := resolves
  have nextMatched : next.Matches view := by
    rw [same]
    exact matched.withRequests _ _ _
  have nextStores : next.Stores view.certified := by
    rw [same]
    exact stores.withRequests _ _ _
  refine ⟨nextMatched, nextStores, ?_⟩
  intro request member
  have before := ordered request (perm.subset (mem_append_right _ member))
  exact ⟨before, (maybeResolveRequest_eq_none matched stores clean before).mp (kept request member)⟩

lemma handleSavedCertificate_follows (bus : Bus n) (follows : pool.Follows view) (above : view.first ≤ cert.vote.referencedSlot)
    (absent : pool.certAt cert.vote.referencedSlot cert.vote.kind = none)
    (regular : Regular (view.certify cert.vote).certified) : ∃ next, pool.handleSavedCertificate bus cert = .ok next ∧
      next.Follows (view.certify cert.vote) ∧ Announces bus (view.certify cert.vote) pool next := by
  obtain ⟨stored, storedResult⟩ : ∃ stored, pool.storeCertificate cert = .ok stored := by
    rw [storeCertificate_eq, if_pos absent]
    exact ⟨_, rfl⟩
  have stores := storeCertificate_spec storedResult
  have storedMatched : stored.Matches view := by
    rw [stores.rest]
    exact ⟨⟨stores.dropped.trans follows.matched.dropped, follows.matched.aligned,
      follows.matched.last, follows.matched.finals, follows.matched.lastCertified,
      follows.matched.ends, fun slot notFinalized notSkipped => by
        rw [stores.base]
        exact follows.matched.bases slot notFinalized notSkipped⟩,
      follows.matched.present, follows.matched.waiting⟩
  have broadcast := broadcastCertificate_sameChain stored cert
  have pending : (stored.broadcastCertificate cert).Pending view cert.vote := by
    refine ⟨broadcast.matched storedMatched, broadcast.stores (stores.stores follows.stores), above, ?_, regular⟩
    intro other held kindSame slotSame
    obtain ⟨found, foundAt, _⟩ := (follows.stores.held other).mpr held
    rw [kindSame, slotSame, absent] at foundAt
    cases foundAt
  obtain ⟨handled, handledResult, matched, handledStores, announces⟩ := handleTypedSavedCertificate_spec bus pending
  have requests : handled.requests = pool.requests := by
    rw [(handleTypedSavedCertificate_update handledResult).requests, broadcast.requests, stores.rest]
  have ordered : ∀ request ∈ handled.requests,
      nextSlotAfterParent request.parent ≤ request.id.slot := by
    rw [requests]
    exact fun request member => (follows.pending request member).1
  obtain ⟨next, result⟩ : ∃ next, handled.maybeResolveRequests = .ok next :=
    resolveFrom_total fun request member =>
      maybeResolveRequest_total matched handledStores regular.toConflictFree (ordered request member)
  have resolves := maybeResolveRequests_resolves result
  refine ⟨next, bind_eq_ok.mpr ⟨stored, storedResult, bind_eq_ok.mpr ⟨handled, handledResult,
    result⟩⟩, resolves.follows matched handledStores regular.toConflictFree ordered, ?_⟩
  have unchanged := resolves.bookkeeping
  unfold Announces
  rw [unchanged.1, unchanged.2.1, unchanged.2.2]
  refine announces.of_same (broadcast.windows.trans ?_) (broadcast.window.trans ?_)
  all_goals rw [stores.rest]

lemma handleSavedCertificate_reaches (follows : pool.Follows view) (above : view.first ≤ cert.vote.referencedSlot)
    (result : pool.handleSavedCertificate bus cert = .ok next) (regular : Regular next.Holds) :
    next.Follows (view.certify cert.vote) ∧ Announces bus (view.certify cert.vote) pool next := by
  obtain rfl := follows.view_eq
  obtain ⟨_, _, stored, _⟩ := handleSavedCertificate_cases result
  obtain ⟨other, otherResult, reached⟩ := handleSavedCertificate_follows bus follows above stored.absent
    (regular.subset fun vote => (handleSavedCertificate_holds result vote).mpr)
  rw [result] at otherResult
  cases otherResult
  exact reached

lemma handleEvent_cases (result : pool.handleEvent bus event = .ok next) : SameChain pool next ∨
    (event = .start ∧ pool.handleStart bus = .ok next) ∨ (∃ cert middle, event = .certificateSaved cert ∧ SameChain pool middle ∧
      pool.state.firstNonFinalizedSlot ≤ cert.vote.referencedSlot ∧ middle.handleSavedCertificate bus cert = .ok next) ∨
    ∃ candidate, event = .waitForParent candidate ∧ pool.processWaitForParent candidate = .ok next := by
  cases event with
  | start => exact .inr (.inl ⟨rfl, result⟩)
  | incomingProtocolMessage source message time =>
    exact .inl (handleIncomingProtocolMessage_collects result).toSameChain
  | broadcastVote vote | certificateSaveFailed cert | noncriticalParamsUpdated params =>
    cases result
    exact .inl (.of_eq rfl rfl rfl rfl rfl rfl rfl rfl rfl rfl rfl)
  | keyringSigned frame signature =>
    have removed : SameChain pool { pool with ourVotes := pool.ourVotes.erase frame } :=
      .of_eq rfl rfl rfl rfl rfl rfl rfl rfl rfl rfl rfl
    have steps := @resumeOurVote_steps _ bus (fun _ _ _ => True) _ _ _ _ trivial result
    exact .inl (removed.trans steps.toSameChain)
  | certificateSaved cert =>
    have removed : SameChain pool { pool with saving := pool.saving.erase cert } :=
      .of_eq rfl rfl rfl rfl rfl rfl rfl rfl rfl rfl rfl
    simp only [handleEvent, resumeProspectiveCertificate] at result
    split at result
    next =>
      cases result
      exact .inl removed
    next state tracked =>
      have added := removed.trans (addCertificateVotes_collects _ cert cert.signers).toSameChain
      exact .inr (.inr (.inl ⟨cert, _, rfl, added, (slotAt_eq_some.mp tracked).1, result⟩))
  | waitForParent candidate => exact .inr (.inr (.inr ⟨candidate, rfl, result⟩))
  | standstill slot =>
    obtain ⟨state, _, result⟩ := bind_eq_ok.mp result
    obtain ⟨messages, _, result⟩ := bind_eq_ok.mp result
    cases result
    exact .inl (.of_eq rfl rfl rfl rfl rfl rfl rfl rfl rfl
      (by simp [Simplex.answers, Published.answer?]) (by simp [announcedWindows]))
  | precheckCandidateBroadcast slot broadcastId signatureChecked =>
    cases result
    refine .inl ?_
    simp only [precheckCandidateBroadcast]
    split
    · exact .publish _ rfl rfl
    split
    · exact .publish _ rfl rfl
    split
    · exact .publish _ rfl rfl
    split
    · have seen : SameChain pool { pool with
          seenBroadcasts := Function.update pool.seenBroadcasts slot (some broadcastId) } :=
        .of_eq rfl rfl rfl rfl rfl rfl rfl rfl rfl rfl rfl
      exact seen.trans (.publish _ rfl rfl)
    · exact .publish _ rfl rfl

lemma handleStart_follows (bus : Bus n) (follows : pool.Follows view) (regular : Regular view.certified) :
    ∃ next, pool.handleStart bus = .ok next ∧ next.Follows view ∧ Announces bus view pool next := by
  have matched := follows.matched
  have stores : Stores view.certified { pool with isStarted := true } :=
    ⟨⟨follows.stores.typed, follows.stores.held⟩, follows.stores.untouched⟩
  have recorded : Recorded view { pool with isStarted := true } := ⟨matched.recorded.tracked, matched.recorded.bases⟩
  obtain ⟨now, window, events, result, present, _, announces⟩ :=
    advancePresent_spec bus stores regular recorded matched.first_le_now (by
      intro _ slot notFinalized before
      by_cases started : pool.isStarted = true
      · exact (matched.present started).passed slot notFinalized before
      · have waiting := matched.waiting (by simpa using started)
        simp only at before
        omega)
  refine ⟨_, result, ⟨⟨⟨matched.dropped, matched.aligned, matched.last, matched.finals,
    matched.lastCertified, matched.ends, matched.bases⟩, present, by simp⟩,
    ⟨⟨stores.typed, stores.held⟩, stores.untouched⟩, follows.pending⟩, announces.of_same rfl rfl⟩

lemma handleStart_holds (result : pool.handleStart bus = .ok next) (vote : Vote) : next.Holds vote ↔ pool.Holds vote := by
  exact (advancePresent_update result).holds vote

lemma handleEvent_holds {event : Event n} (result : pool.handleEvent bus event = .ok next)
    {vote : Vote} (held : pool.Holds vote) : next.Holds vote := by
  rcases handleEvent_cases result with same | ⟨_, started⟩ | ⟨cert, middle, _, same, _, saved⟩ | ⟨candidate, _, waited⟩
  · exact (same.holds vote).mpr held
  · exact (handleStart_holds started vote).mpr held
  · exact (handleSavedCertificate_holds saved vote).mpr (.inr ((same.holds vote).mpr held))
  · exact ((processWaitForParent_frame waited).holds vote).mpr held

lemma processWaitForParent_follows {candidate : Candidate n} (follows : pool.Follows view) (clean : ConflictFree view.certified)
    (result : pool.processWaitForParent candidate = .ok next) : next.Follows view := by
  have matched := follows.matched
  have stores := follows.stores
  obtain ⟨before, ⟨unresolved, rfl⟩ | ⟨answer, _, rfl⟩⟩ := processWaitForParent_cases result
  · refine ⟨matched.withRequests _ _ _, stores.withRequests _ _ _, ?_⟩
    intro request member
    rcases mem_append.mp member with old | new
    · exact follows.pending request old
    · cases mem_singleton.mp new
      exact ⟨before, (maybeResolveRequest_eq_none matched stores clean before).mp unresolved⟩
  · exact ⟨matched.withRequests _ _ _, stores.withRequests _ _ _, follows.pending⟩

lemma handleEvent_follows (follows : pool.Follows pool.view)
    (result : pool.handleEvent bus event = .ok next) (regular : Regular next.Holds) : next.Follows next.view := by
  have before : Regular pool.view.certified := regular.subset fun vote held => handleEvent_holds result held
  suffices ∃ view, next.Follows view by
    obtain ⟨view, nextFollows⟩ := this
    rwa [nextFollows.view_eq]
  rcases handleEvent_cases result with same | ⟨_, started⟩ | ⟨cert, middle, _, same, tracked, saved⟩ | ⟨candidate, _, waited⟩
  · exact ⟨_, same.follows follows⟩
  · obtain ⟨other, otherResult, otherFollows, _⟩ := handleStart_follows bus follows before
    rw [started] at otherResult
    cases otherResult
    exact ⟨_, otherFollows⟩
  · have above : pool.view.first ≤ cert.vote.referencedSlot := by
      rw [← follows.matched.dropped]
      exact tracked
    exact ⟨_, (handleSavedCertificate_reaches (same.follows follows) above saved regular).1⟩
  · exact ⟨_, processWaitForParent_follows follows before.toConflictFree waited⟩

lemma fresh_certAt (params : NoncriticalParams) (window slot : Nat) (kind : VoteKind) :
    (fresh params window : Pool n).certAt slot kind = none := by
  simp only [fresh, certAt, empty, modifySlot, modifySlot_slots]
  split <;> cases kind <;> rfl

lemma fresh_follows (params : NoncriticalParams) (window : Nat) :
    (fresh params window : Pool n).Follows ⟨none, fun _ => False⟩ where
  matched := {
    dropped := rfl
    aligned := rfl
    last := rfl
    finals := fun _ => False.elim
    lastCertified := by simp
    ends := RunEnds.empty _ fun _ => id
    bases := by
      intro slot _ _ parent
      have base : ((fresh params window : Pool n).state.slots slot).availableBase =
          if slot = 0 then some none else none := by
        simp only [fresh, empty, modifySlot, modifySlot_slots]
        split <;> rfl
      rw [base]
      constructor
      · intro found
        split at found
        next zero =>
          cases found
          exact ⟨.inl rfl, Nat.zero_le _, by omega⟩
        next => cases found
      · rintro ⟨rfl | ⟨id, rfl, held, _⟩, before, between⟩
        · have zero : slot = 0 := by
            by_contra positive
            exact (between 0 (Nat.le_refl _) (by omega)).1
          simp [zero]
        · exact held.elim
    present := by simp [fresh, empty, modifySlot]
    waiting := fun _ => rfl }
  stores := {
    typed := by simp [fresh_certAt]
    untouched := by simp [fresh_certAt]
    held := by simp [Holds, fresh_certAt] }
  pending := by simp [fresh, empty, modifySlot]

lemma loadCertificates_handled (Inv : Pool n → Prop) (handles : ∀ {cert pool handled}, cert ∈ certs →
      pool.handleSavedCertificate bus cert = .ok handled → Inv pool → Inv handled)
    (start : Inv pool) (result : pool.loadCertificates bus certs = .ok next) : Inv next := by
  induction certs generalizing pool with
  | nil =>
    cases result
    exact start
  | cons cert rest ih =>
    have later := fun {pool} => @ih pool fun member => handles (mem_cons_of_mem _ member)
    simp only [loadCertificates] at result
    split at result
    · exact later start result
    · obtain ⟨middle, handled, result⟩ := bind_eq_ok.mp result
      exact later (handles mem_cons_self handled start) result

lemma loadCertificates_holds_only (result : pool.loadCertificates bus certs = .ok next)
    (held : next.Holds vote) : pool.Holds vote ∨ ∃ cert ∈ certs, cert.vote = vote := by
  refine loadCertificates_handled (fun loaded => loaded.Holds vote →
    pool.Holds vote ∨ ∃ cert ∈ certs, cert.vote = vote) ?_ .inl result held
  intro cert middle loaded member handled ih held
  rcases (handleSavedCertificate_holds handled vote).mp held with rfl | old
  · exact .inr ⟨cert, member, rfl⟩
  · exact ih old

lemma loadCertificates_follows (follows : pool.Follows pool.view)
    (result : pool.loadCertificates bus certs = .ok next) (regular : Regular next.Holds) : next.Follows next.view := by
  induction certs generalizing pool with
  | nil =>
    cases result
    exact follows
  | cons cert rest ih =>
    simp only [loadCertificates] at result
    split at result
    · exact ih follows result
    next state tracked =>
      obtain ⟨middle, handled, result⟩ := bind_eq_ok.mp result
      have middleRegular : Regular middle.Holds := regular.subset fun vote held => loadCertificates_handled (·.Holds vote)
        (fun _ handled held => (handleSavedCertificate_holds handled vote).mpr (.inr held)) held result
      have reached := (handleSavedCertificate_reaches follows (follows.above tracked) handled middleRegular).1
      refine ih ?_ result
      rwa [reached.view_eq]

lemma loadVotes_sameChain (pool : Pool n) (votes : List Vote) : SameChain pool (pool.loadVotes votes) := by
  induction votes generalizing pool with
  | nil => exact .refl _
  | cons vote rest ih =>
    simp only [loadVotes]
    split
    · exact ih _
    · have begun : SameChain pool (pool.handleOurVote vote true true) := .of_eq rfl rfl rfl rfl rfl rfl rfl rfl rfl rfl rfl
      exact begun.trans (ih _)

lemma startUp_cases
    (result : startUp bus params bootstrap = .ok pool) :
    ∃ loaded, (fresh params bootstrap.firstNonannouncedWindow).loadCertificates bus
        bootstrap.certificates = .ok loaded ∧ SameChain loaded pool ∧
      pool = ({ loaded with suppressCertificateBroadcast := false } : Pool n).loadVotes
        bootstrap.votes := by
  obtain ⟨loaded, loadedResult, result⟩ := bind_eq_ok.mp result
  cases result
  have enabled : SameChain loaded { loaded with suppressCertificateBroadcast := false } :=
    .of_eq rfl rfl rfl rfl rfl rfl rfl rfl rfl rfl rfl
  exact ⟨loaded, loadedResult, enabled.trans (loadVotes_sameChain _ _), rfl⟩

lemma startUp_follows
    (result : startUp bus params bootstrap = .ok pool) (regular : Regular pool.Holds) : pool.Follows pool.view := by
  obtain ⟨loaded, loadedResult, same, _⟩ := startUp_cases result
  have loadedRegular : Regular loaded.Holds := regular.subset fun vote held => (same.holds vote).mpr held
  have empty := fresh_follows (n := n) params bootstrap.firstNonannouncedWindow
  rw [same.view_eq]
  exact same.follows (loadCertificates_follows (by rwa [empty.view_eq]) loadedResult loadedRegular)

lemma Follows.cleared (follows : pool.Follows view) : ({ pool with published := [] } : Pool n).Follows view :=
  ⟨follows.matched.withRequests _ _ _, follows.stores.withRequests _ _ _, follows.pending⟩

lemma Run.follows {log : List (Published n)} (run : Run bus log pool)
    (regular : Regular pool.Holds) : pool.Follows pool.view := by
  induction run with
  | startUp _ result => exact startUp_follows result regular
  | step run enabled result ih =>
    refine handleEvent_follows (ih ?_).cleared result regular
    exact regular.subset fun vote held => handleEvent_holds result held

/-- A session with a single validator, in which results can be evaluated. -/
def soloBus : Bus 1 where
  weight _ := 1
  slotsPerLeaderWindow := 4
  checkSignature _ _ _ := true
  candidateHash _ := 0
  recordHash _ := 0
  localId := 0

def soloCert (vote : Vote) : Certificate 1 := { vote, signatures := [⟨0, []⟩] }

lemma soloCert_valid (vote : Vote) : (soloCert vote).Valid soloBus.toSession where
  distinct := by simp [soloCert, Certificate.signers]
  heavy := by
    change _ ≤ 1
    decide
  signed := fun _ _ => rfl

def soloStart (votes : List Vote) : Except Check (Pool 1) := do
  let pool ← startUp soloBus ⟨1, 1⟩ { firstNonannouncedWindow := 0, certificates := votes.map soloCert, votes := [] }
  step soloBus pool .start

/-- The pool started with certificates for `votes`, handled in this order. -/
def soloPool (votes : List Vote) : Pool 1 := (soloStart votes).toOption.getD (fresh ⟨1, 1⟩ 0)

lemma solo_run (votes : List Vote) (starts : (soloStart votes).toOption.isSome = true) :
    ∃ log, Run soloBus log (soloPool votes) ∧ ∀ vote, (soloPool votes).Holds vote → vote ∈ votes := by
  obtain ⟨pool, started⟩ : ∃ pool, soloStart votes = .ok pool := by
    cases result : soloStart votes with
    | ok pool => exact ⟨pool, rfl⟩
    | error failure => simp [result, Except.toOption] at starts
  have same : soloPool votes = pool := by simp [soloPool, started, Except.toOption]
  obtain ⟨booted, boot, stepped⟩ := bind_eq_ok.mp started
  have valid : ∀ cert ∈ votes.map soloCert, cert.Valid soloBus.toSession := by
    simp [soloCert_valid]
  have enabled : booted.Enabled soloBus .start := trivial
  rw [same]
  refine ⟨_, .step (.startUp valid boot) enabled stepped, fun vote held => ?_⟩
  obtain ⟨loaded, loading, unchanged, _⟩ := startUp_cases boot
  have heldLoaded := (unchanged.holds vote).mp ((handleStart_holds stepped vote).mp held)
  rcases loadCertificates_holds_only loading heldLoaded with ⟨cert, found, _⟩ | ⟨cert, member, rfl⟩
  · simp [fresh_certAt] at found
  · obtain ⟨vote, listed, rfl⟩ := mem_map.mp member
    exact listed

def soloVotes : List Vote := [.skip 1, .notarize ⟨0, 7⟩]

lemma solo_starts : (soloStart soloVotes).toOption.isSome = true := by decide +kernel

lemma solo_clean : ConflictFree (soloPool soloVotes).Holds := by
  obtain ⟨_, _, only⟩ := solo_run soloVotes solo_starts
  exact .of_list _ only (by decide) (by decide)

lemma solo_below : ∀ vote, (soloPool soloVotes).Holds vote → vote.referencedSlot + 1 < 2 ^ 32 := by
  obtain ⟨_, _, only⟩ := solo_run soloVotes solo_starts
  intro vote held
  exact (by decide : ∀ vote ∈ soloVotes, vote.referencedSlot + 1 < 2 ^ 32) vote (only vote held)

end Pool

end TonNode.Simplex
