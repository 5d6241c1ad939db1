import TonNode.Simplex.Node

/-!
# What the consensus actor votes for

The votes published so far are related to the per-slot flags: a slot gets one
notarize vote, its finalize vote comes behind the notarize vote for the same
candidate, and it is never both finalized and skipped. Every prefix of the
published votes has these properties, so a crash may cut the list anywhere.
-/

namespace TonNode.Simplex

open Consensus Lib List Function

variable {n : Nat} {vote : Vote}

/-- What a validator must keep to when it votes. -/
structure ConsistentVotes (cast : Vote → Prop) : Prop where
  oneNotarize : ∀ first second, cast (.notarize first) → cast (.notarize second) → first.slot = second.slot → first = second
  finalNotarized : ∀ id, cast (.finalize id) → cast (.notarize id)
  finalNotSkipped : ∀ id, cast (.finalize id) → ¬ cast (.skip id.slot)

lemma ConsistentVotes.congr {cast other : Vote → Prop} (consistent : ConsistentVotes cast)
    (same : ∀ vote, other vote ↔ cast vote) : ConsistentVotes other := by
  have equal : other = cast := funext fun vote => propext (same vote)
  rw [equal]
  exact consistent

lemma ConsistentVotes.not_conflicts {cast : Vote → Prop} (consistent : ConsistentVotes cast)
    {first second : Vote} (firstCast : cast first) (secondCast : cast second)
    (sameSlot : first.referencedSlot = second.referencedSlot) : first.conflicts second = false := by
  have finals : ∀ {id other : CandidateId}, cast (.finalize id) → cast (.notarize other) →
      id.slot = other.slot → id = other := fun finalized notarized same =>
    consistent.oneNotarize _ _ (consistent.finalNotarized _ finalized) notarized same
  cases first with
  | notarize id =>
    cases second with
    | notarize other =>
      simpa [Vote.conflicts] using consistent.oneNotarize _ _ firstCast secondCast sameSlot
    | finalize other =>
      simpa [Vote.conflicts] using (finals secondCast firstCast sameSlot.symm).symm
    | skip slot => rfl
  | finalize id =>
    cases second with
    | notarize other => simpa [Vote.conflicts] using finals firstCast secondCast sameSlot
    | finalize other =>
      simpa [Vote.conflicts] using finals firstCast (consistent.finalNotarized _ secondCast) sameSlot
    | skip slot =>
      have same : id.slot = slot := sameSlot
      exact absurd (same ▸ secondCast) (consistent.finalNotSkipped id firstCast)
  | skip slot =>
    cases second with
    | notarize other => rfl
    | finalize other =>
      have same : slot = other.slot := sameSlot
      exact absurd (same ▸ firstCast) (consistent.finalNotSkipped other secondCast)
    | skip other => rfl

structure ConsistentLog (issued : List Vote) : Prop
    extends ConsistentVotes (· ∈ issued) where
  prefixes : ∀ kept, kept <+: issued → ∀ id, .finalize id ∈ kept → .notarize id ∈ kept

namespace ConsistentLog

variable {issued : List Vote}

lemma empty : ConsistentLog [] where
  oneNotarize := by simp
  finalNotarized := by simp
  finalNotSkipped := by simp
  prefixes := by
    intro kept cut id member
    rw [prefix_nil.mp cut] at member
    cases member

lemma of_prefix (log : ConsistentLog issued) {kept : List Vote} (cut : kept <+: issued) : ConsistentLog kept where
  oneNotarize first second firstIn secondIn := log.oneNotarize first second (cut.subset firstIn) (cut.subset secondIn)
  finalNotarized id := log.prefixes kept cut id
  finalNotSkipped id finalized skipped := log.finalNotSkipped id (cut.subset finalized) (cut.subset skipped)
  prefixes other shorter := log.prefixes other (shorter.trans cut)

lemma append (log : ConsistentLog issued) (notarize : ∀ id other, vote = .notarize id → .notarize other ∈ issued →
      id.slot = other.slot → id = other) (finalize : ∀ id, vote = .finalize id → .notarize id ∈ issued ∧ .skip id.slot ∉ issued)
    (skip : ∀ id, vote = .skip id.slot → .finalize id ∉ issued) : ConsistentLog (issued ++ [vote]) := by
  have grown : ∀ id, .finalize id ∈ issued ++ [vote] → .notarize id ∈ issued ++ [vote] := by
    intro id finalized
    rcases mem_append.mp finalized with before | last
    · exact mem_append_left _ (log.finalNotarized id before)
    · exact mem_append_left _ (finalize id (mem_singleton.mp last).symm).1
  refine ⟨⟨?_, grown, ?_⟩, ?_⟩
  · intro first second firstIn secondIn same
    rcases mem_append.mp firstIn with firstBefore | firstLast
    · rcases mem_append.mp secondIn with secondBefore | secondLast
      · exact log.oneNotarize first second firstBefore secondBefore same
      · exact (notarize second first (mem_singleton.mp secondLast).symm firstBefore same.symm).symm
    · rcases mem_append.mp secondIn with secondBefore | secondLast
      · exact notarize first second (mem_singleton.mp firstLast).symm secondBefore same
      · exact Vote.notarize.inj ((mem_singleton.mp firstLast).trans (mem_singleton.mp secondLast).symm)
  · intro id finalized skipped
    rcases mem_append.mp finalized with finalBefore | finalLast
    · rcases mem_append.mp skipped with skipBefore | skipLast
      · exact log.finalNotSkipped id finalBefore skipBefore
      · exact skip id (mem_singleton.mp skipLast).symm finalBefore
    · have same := mem_singleton.mp finalLast
      rcases mem_append.mp skipped with skipBefore | skipLast
      · exact (finalize id same.symm).2 skipBefore
      · cases same.trans (mem_singleton.mp skipLast).symm
  · intro kept cut id finalized
    rcases prefix_concat_iff.mp (by simpa using cut) with whole | shorter
    · subst whole
      simpa using grown id (by simpa using finalized)
    · exact log.prefixes kept shorter id finalized

lemma drop_repeated {before rest : List Vote}
    (log : ConsistentLog (before ++ vote :: rest)) (repeated : vote ∈ before) : ConsistentLog (before ++ rest) := by
  have same : ∀ part other, other ∈ before ++ vote :: part ↔ other ∈ before ++ part := by
    intro part other
    simp only [mem_append, mem_cons]
    constructor
    · rintro (early | rfl | late)
      · exact .inl early
      · exact .inl repeated
      · exact .inr late
    · rintro (early | late)
      · exact .inl early
      · exact .inr (.inr late)
  refine ⟨log.toConsistentVotes.congr fun other => (same rest other).symm, ?_⟩
  intro kept cut id finalized
  rcases prefix_or_prefix_of_prefix cut (prefix_append before rest) with
    early | ⟨part, rfl⟩
  · exact log.prefixes kept (early.trans (prefix_append _ _)) id finalized
  · have late : part <+: rest := (prefix_append_right_inj before).mp cut
    have longer : before ++ vote :: part <+: before ++ vote :: rest := by
      rw [prefix_append_right_inj, cons_prefix_cons]
      exact ⟨rfl, late⟩
    exact (same part _).mp (log.prefixes _ longer id ((same part _).mpr finalized))

end ConsistentLog

namespace ConsensusImpl

variable {impl next : ConsensusImpl n} {base : List Vote}

def votes (outputs : List (Output n)) : List Vote := outputs.filterMap (·.vote?)

def frames (impl : ConsensusImpl n) : List (Candidate n) := impl.waiting ++ impl.validating

structure Remembers (issued : List Vote) (impl : ConsensusImpl n) : Prop where
  notarized : ∀ slot id, (impl.state.slots slot).votedNotar = some id ↔ id.slot = slot ∧ .notarize id ∈ issued
  skipped : ∀ slot, (impl.state.slots slot).votedSkip = true ↔ .skip slot ∈ issued
  finalized : ∀ slot, (impl.state.slots slot).votedFinal = true ↔ ∃ id, id.slot = slot ∧ .finalize id ∈ issued

/-- `base` has been issued before, the rest by the event being handled. -/
structure Voting (base : List Vote) (impl : ConsensusImpl n) : Prop where
  log : ConsistentLog (base ++ votes impl.published)
  remembers : impl.Remembers (base ++ votes impl.published)
  pending : ∀ candidate ∈ impl.frames, (impl.state.slots candidate.id.slot).pendingBlock = some candidate ∧
      (impl.state.slots candidate.id.slot).votedNotar = none
  distinct : (impl.frames.map (·.id.slot)).Nodup

@[simp] lemma votes_append (left right : List (Output n)) : votes (left ++ right) = votes left ++ votes right := by
  simp [votes]

lemma slots_modifySlot (impl : ConsensusImpl n) (slot other : Nat) (update : SlotState n → SlotState n) :
    (impl.modifySlot slot update).state.slots other =
      if other = slot then update (impl.state.slots slot) else impl.state.slots other :=
  ConsensusState.modifySlot_slots impl.state slot other update

lemma Voting.congr (voting : impl.Voting base) (published : votes next.published = votes impl.published)
    (notarized : ∀ slot, (next.state.slots slot).votedNotar = (impl.state.slots slot).votedNotar)
    (skipped : ∀ slot, (next.state.slots slot).votedSkip = (impl.state.slots slot).votedSkip)
    (finalized : ∀ slot, (next.state.slots slot).votedFinal = (impl.state.slots slot).votedFinal) (pending : ∀ slot,
      (next.state.slots slot).pendingBlock = (impl.state.slots slot).pendingBlock)
    (frames : next.frames.Subperm impl.frames) : next.Voting base where
  log := published ▸ voting.log
  remembers := by
    rw [published]
    exact {
      notarized := fun slot id => by rw [notarized, voting.remembers.notarized]
      skipped := fun slot => by rw [skipped, voting.remembers.skipped]
      finalized := fun slot => by rw [finalized, voting.remembers.finalized] }
  pending := by
    intro candidate member
    rw [pending, notarized]
    exact voting.pending candidate (frames.subset member)
  distinct := by
    obtain ⟨ordered, same, sub⟩ := frames
    exact (same.map _).nodup_iff.mp (voting.distinct.sublist (sub.map _))

lemma Voting.of_state_eq (voting : impl.Voting base) (state : next.state = impl.state)
    (published : votes next.published = votes impl.published) (frames : next.frames.Subperm impl.frames) : next.Voting base :=
  voting.congr published (by simp [state]) (by simp [state]) (by simp [state]) (by simp [state])
    frames

section Adding

variable {issued : List Vote} {slot : Nat} {id : CandidateId}

lemma Remembers.addNotarize (remembers : impl.Remembers issued)
    (first : ∀ other, other.slot = id.slot → .notarize other ∈ issued → other = id)
    (slots : next.state.slots = update impl.state.slots id.slot
      { impl.state.slots id.slot with votedNotar := some id }) :
    next.Remembers (issued ++ [.notarize id]) := by
  refine ⟨fun slot other => ?_, fun slot => ?_, fun slot => ?_⟩
  · rw [slots, update_apply]
    split
    next same =>
      subst same
      simp only [Option.some.injEq, mem_append, mem_singleton, Vote.notarize.injEq]
      constructor
      · rintro rfl
        exact ⟨rfl, .inr rfl⟩
      · rintro ⟨located, earlier | rfl⟩
        · exact (first other located earlier).symm
        · rfl
    next different =>
      simp only [remembers.notarized, mem_append, mem_singleton, Vote.notarize.injEq]
      constructor
      · rintro ⟨located, earlier⟩
        exact ⟨located, .inl earlier⟩
      · rintro ⟨located, earlier | rfl⟩
        · exact ⟨located, earlier⟩
        · exact absurd located.symm different
  · rw [slots, update_apply]
    split
    next same => simp [same, remembers.skipped]
    · simp [remembers.skipped]
  · rw [slots, update_apply]
    split
    next same => simp [same, remembers.finalized]
    · simp [remembers.finalized]

lemma Remembers.addSkip (remembers : impl.Remembers issued)
    (slots : next.state.slots = update impl.state.slots slot { impl.state.slots slot with votedSkip := true }) :
    next.Remembers (issued ++ [.skip slot]) := by
  refine ⟨fun other id => ?_, fun other => ?_, fun other => ?_⟩
  · rw [slots, update_apply]
    split
    next same => simp [same, remembers.notarized]
    · simp [remembers.notarized]
  · rw [slots, update_apply]
    split
    next same => simp [same]
    next different => simp [remembers.skipped, different]
  · rw [slots, update_apply]
    split
    next same => simp [same, remembers.finalized]
    · simp [remembers.finalized]

lemma Remembers.addFinalize (remembers : impl.Remembers issued)
    (slots : next.state.slots = update impl.state.slots id.slot { impl.state.slots id.slot with votedFinal := true }) :
    next.Remembers (issued ++ [.finalize id]) := by
  refine ⟨fun slot other => ?_, fun slot => ?_, fun slot => ?_⟩
  · rw [slots, update_apply]
    split
    next same => simp [same, remembers.notarized]
    · simp [remembers.notarized]
  · rw [slots, update_apply]
    split
    next same => simp [same, remembers.skipped]
    · simp [remembers.skipped]
  · rw [slots, update_apply]
    split
    next same => exact ⟨fun _ => ⟨id, same.symm, by simp⟩, fun _ => rfl⟩
    next different =>
      simp only [remembers.finalized, mem_append, mem_singleton, Vote.finalize.injEq]
      constructor
      · rintro ⟨other, located, earlier⟩
        exact ⟨other, located, .inl earlier⟩
      · rintro ⟨other, located, earlier | rfl⟩
        · exact ⟨other, located, earlier⟩
        · exact absurd located.symm different

end Adding

lemma Voting.voteSkip (voting : impl.Voting base) (slot : Nat) : (impl.voteSkip slot).Voting base := by
  unfold ConsensusImpl.voteSkip
  split
  · exact voting
  next state found =>
    obtain ⟨_, rfl⟩ := ConsensusState.slotAt_eq_some.mp found
    split
    · exact voting
    next open_ =>
      have unfinalized : ∀ id, id.slot = slot → .finalize id ∉ base ++ votes impl.published :=
        fun id same finalized => open_ ((voting.remembers.finalized slot).mpr ⟨id, same, finalized⟩)
      have grown : base ++ votes ((impl.modifySlot slot ({ · with votedSkip := true })).publish
          (.broadcastVote (.skip slot))).published =
          base ++ votes impl.published ++ [.skip slot] := by
        rw [append_assoc]
        exact congrArg (base ++ ·) (votes_append _ _)
      refine ⟨?_, ?_, ?_, voting.distinct⟩
      · rw [grown]
        refine voting.log.append (fun _ _ same => by cases same) (fun _ same => by cases same) ?_
        intro id same
        exact unfinalized id (Vote.skip.inj same).symm
      · rw [grown]
        exact voting.remembers.addSkip rfl
      · intro candidate member
        obtain ⟨pending, unvoted⟩ := voting.pending candidate member
        rw [publish, slots_modifySlot]
        split
        next same => exact ⟨same ▸ pending, same ▸ unvoted⟩
        · exact ⟨pending, unvoted⟩

lemma Voting.skipSlots (voting : impl.Voting base) (slot count : Nat) : (impl.skipSlots slot count).Voting base := by
  induction count generalizing impl slot with
  | zero => exact voting
  | succ count ih => exact ih (voting.voteSkip slot) (slot + 1)

lemma Voting.tryVoteFinal (voting : impl.Voting base) {slot : Nat}
    (result : impl.tryVoteFinal slot = .ok next) : next.Voting base := by
  unfold ConsensusImpl.tryVoteFinal at result
  simp only at result
  split at result
  · cases result
  next voted certified votedNotar _ =>
    split at result
    next allowed =>
      cases result
      obtain ⟨located, notarized⟩ := (voting.remembers.notarized slot voted).mp votedNotar
      have unskipped : .skip voted.slot ∉ base ++ votes impl.published := by
        rw [located, ← voting.remembers.skipped]
        simpa using allowed.1
      have grown : base ++ votes ((impl.publish (.broadcastVote (.finalize voted))).modifySlot slot
          ({ · with votedFinal := true })).published =
          base ++ votes impl.published ++ [.finalize voted] := by
        rw [append_assoc]
        exact congrArg (base ++ ·) (votes_append _ _)
      refine ⟨?_, ?_, ?_, voting.distinct⟩
      · rw [grown]
        refine voting.log.append (fun _ _ same => by cases same) ?_ (fun _ same => by cases same)
        intro id same
        cases same
        exact ⟨notarized, unskipped⟩
      · rw [grown]
        subst located
        exact voting.remembers.addFinalize rfl
      · intro candidate member
        obtain ⟨pending, unvoted⟩ := voting.pending candidate member
        rw [slots_modifySlot, publish]
        split
        next same => exact ⟨same ▸ pending, same ▸ unvoted⟩
        · exact ⟨pending, unvoted⟩
    · cases result
      exact voting
  · cases result
    exact voting

variable {candidate : Candidate n} {session : Session n} {allowed : Vote → Prop}

lemma Voting.frames_drop (voting : impl.Voting base) (member : candidate ∈ impl.validating) :
    ∀ other ∈ (impl.dropCandidate candidate).frames, other.id.slot ≠ candidate.id.slot := by
  have split : impl.frames.Perm (candidate :: (impl.dropCandidate candidate).frames) :=
    ((perm_cons_erase member).append_left impl.waiting).trans perm_middle
  have distinct := (split.map (·.id.slot)).nodup_iff.mp voting.distinct
  intro other remaining same
  exact (nodup_cons.mp distinct).1 (mem_map.mpr ⟨other, remaining, same⟩)

section

variable (voting : impl.Voting base)
include voting

lemma Voting.resumeWithVerdict (member : candidate ∈ impl.validating)
    (result : impl.resumeWithVerdict candidate = .ok next) : next.Voting base := by
  refine Voting.tryVoteFinal ?_ result
  have dropped : (impl.dropCandidate candidate).Voting base :=
    voting.of_state_eq rfl rfl (erase_sublist.append_left _).subperm
  have others := voting.frames_drop member
  have unvoted := (voting.pending candidate (mem_append_right _ member)).2
  have fresh : ∀ id, id.slot = candidate.id.slot → .notarize id ∉ base ++ votes impl.published := by
    intro id same issued
    have voted := (voting.remembers.notarized candidate.id.slot id).mpr ⟨same, issued⟩
    rw [unvoted] at voted
    cases voted
  have grown : base ++ votes (((impl.dropCandidate candidate).modifySlot candidate.id.slot
      ({ · with votedNotar := some candidate.id })).publish (.broadcastVote (.notarize candidate.id))).published =
      base ++ votes impl.published ++ [.notarize candidate.id] := by
    rw [append_assoc]
    exact congrArg (base ++ ·) (votes_append _ _)
  refine ⟨?_, ?_, ?_, dropped.distinct⟩
  · rw [grown]
    refine voting.log.append ?_ (fun _ same => by cases same) (fun _ same => by cases same)
    intro id other same issued aligned
    cases same
    exact absurd issued (fresh other aligned.symm)
  · rw [grown]
    refine voting.remembers.addNotarize ?_ rfl
    intro other located earlier
    exact absurd earlier (fresh other located)
  · intro other remaining
    rw [publish, slots_modifySlot, if_neg (others other remaining)]
    exact dropped.pending other remaining

lemma Voting.handleCandidateReceived (session : Session n) (candidate : Candidate n) :
    (impl.handleCandidateReceived session candidate).Voting base := by
  unfold ConsensusImpl.handleCandidateReceived
  simp only
  split
  · exact voting
  split
  · exact voting
  next state found =>
  obtain ⟨_, rfl⟩ := ConsensusState.slotAt_eq_some.mp found
  split
  · exact voting
  next unvoted =>
  split
  · exact voting
  split
  · exact voting
  next idle =>
  have fresh : ∀ other ∈ impl.frames, other.id.slot ≠ candidate.id.slot := by
    intro other member same
    have pending := (voting.pending other member).1
    rw [same] at pending
    exact idle (by simp [pending])
  have framed : ((impl.modifySlot candidate.id.slot
      ({ · with pendingBlock := some candidate })).tryNotarize candidate).frames.Perm
      (candidate :: impl.frames) := by
    have moved : (impl.waiting ++ [candidate] ++ impl.validating).Perm
        (candidate :: (impl.waiting ++ impl.validating)) := by
      rw [append_assoc]
      exact perm_middle
    exact moved
  have published : votes ((impl.modifySlot candidate.id.slot
      ({ · with pendingBlock := some candidate })).tryNotarize candidate).published =
      votes impl.published := by
    rw [tryNotarize, publish, votes_append]
    exact append_nil _
  refine ⟨?_, ?_, ?_, ?_⟩
  · rw [published]
    exact voting.log
  · rw [published]
    refine ⟨fun slot id => ?_, fun slot => ?_, fun slot => ?_⟩
    · rw [tryNotarize, publish, slots_modifySlot, ← voting.remembers.notarized]
      split <;> simp_all
    · rw [tryNotarize, publish, slots_modifySlot, ← voting.remembers.skipped]
      split <;> simp_all
    · rw [tryNotarize, publish, slots_modifySlot, ← voting.remembers.finalized]
      split <;> simp_all
  · intro other member
    rw [tryNotarize, publish, slots_modifySlot]
    rcases mem_cons.mp (framed.subset member) with rfl | earlier
    · rw [if_pos rfl]
      exact ⟨rfl, by simpa using unvoted⟩
    · rw [if_neg (fresh other earlier)]
      exact voting.pending other earlier
  · rw [(framed.map (·.id.slot)).nodup_iff, map_cons, nodup_cons]
    refine ⟨?_, voting.distinct⟩
    intro member
    obtain ⟨other, earlier, same⟩ := mem_map.mp member
    exact fresh other earlier same

lemma Voting.processNotarizationObserved {id : CandidateId}
    (result : impl.processNotarizationObserved session id = .ok next) : next.Voting base := by
  unfold ConsensusImpl.processNotarizationObserved at result
  split at result
  · cases result
    exact voting
  refine Voting.tryVoteFinal ?_ result
  have deferred : (impl.deferTimeout session id.slot).Voting base := by
    unfold deferTimeout
    split
    · exact voting.of_state_eq rfl rfl (List.Subperm.refl _)
    · exact voting
  refine deferred.congr rfl ?_ ?_ ?_ ?_ (List.Subperm.refl _)
  all_goals
    intro slot
    rw [slots_modifySlot]
    split
    next same => rw [same]
    · rfl

lemma Voting.resumeWithParent (member : candidate ∈ impl.waiting) (answer : ParentAnswer n) :
    (impl.resumeWithParent candidate answer).Voting base := by
  have fewer : (impl.waiting.erase candidate ++ impl.validating).Subperm impl.frames :=
    (erase_sublist.append_right impl.validating).subperm
  cases answer with
  | error message => exact voting.of_state_eq rfl rfl fewer
  | misbehavior misbehavior =>
    refine voting.of_state_eq rfl ?_ fewer
    rw [ConsensusImpl.resumeWithParent, publish, votes_append]
    exact append_nil _
  | noMisbehavior =>
    refine voting.of_state_eq rfl rfl (List.Perm.subperm ?_)
    have moved : (impl.waiting.erase candidate ++ (impl.validating ++ [candidate])).Perm
        (candidate :: (impl.waiting.erase candidate ++ impl.validating)) := by
      rw [← append_assoc]
      exact perm_append_singleton _ _
    exact moved.trans ((perm_cons_erase member).symm.append_right impl.validating)

lemma Voting.handleLeaderWindowObserved (bus : Bus n) (startSlot : Nat) (parent : ParentId) :
    (impl.handleLeaderWindowObserved bus startSlot parent).Voting base := by
  have entered : (impl.enterWindow bus startSlot parent).Voting base := by
    unfold enterWindow
    split <;> exact voting.of_state_eq rfl rfl (List.Subperm.refl _)
  unfold ConsensusImpl.handleLeaderWindowObserved armTimeout
  split
  · exact entered.of_state_eq rfl rfl (List.Subperm.refl _)
  · exact entered

lemma Voting.resumeGeneration (session : Session n) (startSlot : Nat) (parent : ParentId) :
    (impl.resumeGeneration session startSlot parent).Voting base := by
  unfold ConsensusImpl.resumeGeneration
  simp only
  split
  · exact voting.of_state_eq rfl rfl (List.Subperm.refl _)
  · refine voting.of_state_eq rfl ?_ (List.Subperm.refl _)
    rw [publish, votes_append]
    exact append_nil _

end

lemma step_voting {bus : Bus n} {event : Event n} (enabled : impl.Enabled event)
    (voting : ({ impl with published := [] } : ConsensusImpl n).Voting base)
    (result : impl.step bus event = .ok next) : next.Voting base := by
  cases event with
  | notarizationObserved id => exact voting.processNotarizationObserved result
  | finalizationObserved id =>
    cases result
    exact voting.congr rfl (fun _ => rfl) (fun _ => rfl) (fun _ => rfl) (fun _ => rfl) (List.Subperm.refl _)
  | leaderWindowObserved startSlot parent =>
    cases result
    exact voting.handleLeaderWindowObserved bus startSlot parent
  | candidateReceived candidate =>
    cases result
    exact voting.handleCandidateReceived bus.toSession candidate
  | parentResolved candidate answer =>
    cases result
    exact voting.resumeWithParent enabled answer
  | candidateAccepted candidate => exact voting.resumeWithVerdict enabled result
  | candidateDropped candidate =>
    cases result
    exact voting.of_state_eq rfl rfl (erase_sublist.append_left _).subperm
  | generationReady startSlot parent =>
    cases result
    exact voting.resumeGeneration bus.toSession startSlot parent
  | generationFailed startSlot parent | noncriticalParamsUpdated desync =>
    cases result
    exact voting.of_state_eq rfl rfl (List.Subperm.refl _)
  | alarm =>
    cases result
    exact (voting.skipSlots _ _).of_state_eq rfl rfl (List.Subperm.refl _)

lemma Voting.settle (voting : impl.Voting base) :
    ({ impl with published := [] } : ConsensusImpl n).Voting (base ++ votes impl.published) where
  log := by simpa [votes] using voting.log
  remembers := by
    have kept := voting.remembers
    exact {
      notarized := by simpa [votes] using kept.notarized
      skipped := by simpa [votes] using kept.skipped
      finalized := by simpa [votes] using kept.finalized }
  pending := voting.pending
  distinct := voting.distinct

lemma loadVotes_frame (impl : ConsensusImpl n) (votes : List Vote) : (impl.loadVotes votes).waiting = impl.waiting ∧
      (impl.loadVotes votes).validating = impl.validating ∧ (impl.loadVotes votes).published = impl.published := by
  induction votes generalizing impl with
  | nil => exact ⟨rfl, rfl, rfl⟩
  | cons vote rest ih =>
    rw [loadVotes]
    split
    · exact ih impl
    · exact ih (impl.modifySlot vote.referencedSlot (replayVote · vote))

lemma Remembers.replay {done : List Vote} (consistent : ConsistentVotes allowed) (earlier : ∀ other ∈ done, allowed other)
    (isAllowed : allowed vote) (remembers : impl.Remembers done) :
    (impl.modifySlot vote.referencedSlot (replayVote · vote)).Remembers (done ++ [vote]) := by
  have notarizedAs : ∀ slot other, (impl.state.slots slot).votedNotar = some other →
      other.slot = slot ∧ allowed (.notarize other) := fun slot other voted =>
    have issued := (remembers.notarized slot other).mp voted
    ⟨issued.1, earlier _ issued.2⟩
  cases vote with
  | notarize id =>
    have kept : replayVote (impl.state.slots id.slot) (.notarize id) =
        { impl.state.slots id.slot with votedNotar := some id } := by
      refine if_neg ?_
      rintro ⟨present, different⟩
      obtain ⟨other, voted⟩ := Option.isSome_iff_exists.mp present
      obtain ⟨located, notarized⟩ := notarizedAs id.slot other voted
      rw [consistent.oneNotarize other id notarized isAllowed located] at voted
      exact different voted
    refine remembers.addNotarize ?_ (congrArg (update _ _) kept)
    intro other located issued
    exact consistent.oneNotarize other id (earlier _ issued) isAllowed located
  | finalize id =>
    have kept : replayVote (impl.state.slots id.slot) (.finalize id) =
        { impl.state.slots id.slot with votedFinal := true } := by
      refine if_neg ?_
      rintro (skipped | ⟨present, different⟩)
      · exact consistent.finalNotSkipped id isAllowed (earlier _ ((remembers.skipped id.slot).mp skipped))
      · obtain ⟨other, voted⟩ := Option.isSome_iff_exists.mp present
        obtain ⟨located, notarized⟩ := notarizedAs id.slot other voted
        rw [consistent.oneNotarize other id notarized (consistent.finalNotarized id isAllowed) located] at voted
        exact different voted
    exact remembers.addFinalize (congrArg (update _ _) kept)
  | skip skipped =>
    have kept : replayVote (impl.state.slots skipped) (.skip skipped) =
        { impl.state.slots skipped with votedSkip := true } := by
      refine if_neg ?_
      intro finalized
      obtain ⟨id, located, issued⟩ := (remembers.finalized skipped).mp finalized
      exact consistent.finalNotSkipped id (earlier _ issued) (located ▸ isAllowed)
    exact remembers.addSkip (congrArg (update _ _) kept)

lemma Remembers.loadVotes {done loaded : List Vote}
    (consistent : ConsistentVotes allowed) (within : ∀ vote ∈ done ++ loaded, allowed vote)
    (untracked : impl.state.firstNonFinalizedSlot = 0) (remembers : impl.Remembers done) :
    (impl.loadVotes loaded).Remembers (done ++ loaded) := by
  induction loaded generalizing impl done with
  | nil => simpa [ConsensusImpl.loadVotes] using remembers
  | cons vote rest ih =>
    have tracked : impl.state.slotAt vote.referencedSlot = some (impl.state.slots vote.referencedSlot) :=
      ConsensusState.slotAt_of_le (by omega)
    rw [ConsensusImpl.loadVotes, tracked]
    have replayed := remembers.replay consistent (fun other member => within other (mem_append_left _ member))
      (within vote (by simp))
    have grouped : done ++ vote :: rest = done ++ [vote] ++ rest := by simp
    rw [grouped] at within ⊢
    exact ih within untracked replayed

lemma startUp_voting {desync : Nat} {bootstrap : Pool.Bootstrap n}
    (log : ConsistentLog base) (read : ∀ vote, vote ∈ bootstrap.votes ↔ vote ∈ base) :
    (startUp session desync bootstrap).Voting base := by
  let fresh : ConsensusImpl n := { maxLeaderWindowDesync := desync }
  obtain ⟨waiting, validating, published⟩ := loadVotes_frame fresh bootstrap.votes
  have blank : fresh.Remembers [] := by
    refine ⟨?_, ?_, ?_⟩ <;> intros <;> simp [fresh]
  have loaded := blank.loadVotes log.toConsistentVotes (fun vote member => (read vote).mp (by simpa using member)) rfl
  have voting : (fresh.loadVotes bootstrap.votes).Voting base := by
    have silent : votes (fresh.loadVotes bootstrap.votes).published = [] := by
      rw [published]
      rfl
    have none : (fresh.loadVotes bootstrap.votes).frames = [] := by
      rw [frames, waiting, validating]
      rfl
    refine ⟨?_, ?_, ?_, ?_⟩
    · rwa [silent, append_nil]
    · rw [silent, append_nil]
      exact {
        notarized := fun slot id => by rw [loaded.notarized, nil_append, read]
        skipped := fun slot => by rw [loaded.skipped, nil_append, read]
        finalized := fun slot => by simp only [loaded.finalized, nil_append, read] }
    · simp [none]
    · simp [none]
  unfold startUp
  simp only
  split
  · exact voting.skipSlots _ _
  · exact voting

end ConsensusImpl

end TonNode.Simplex
