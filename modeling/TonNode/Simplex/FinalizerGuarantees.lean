import TonNode.Simplex.FinalizedBlocks

/-!
# The order of finalized blocks

Blocks are finalized after their ancestors, one request at a time, with
signatures on their own block id.
-/

namespace TonNode.Simplex

open Consensus Block List

namespace Finalizer

open StateResolver

section Justified

variable (crypto : Crypto) (params : SessionParams)
  (candidates : CandidateId → Candidate params.count)

structure Justified (before : List (FinalizerEntry params.count))
    (candidate : Candidate params.count) (signatureSet : BlockSignatureSet) : Prop where
  own : candidate = candidates candidate.id
  notEmpty : candidate.isEmpty = false
  ancestors : ∀ ancestor, Relation.TransGen (ParentOf candidates) candidate.id ancestor →
    (candidates ancestor).isEmpty = false → .completed ancestor ∈ before
  idle : inProgress candidate.id before = false
  notDone : .done candidate.id ∉ before
  signed : SignedBy crypto params candidates before candidate signatureSet

def LogJustified (log : List (FinalizerEntry params.count)) : Prop :=
  ∀ before candidate signatureSet after, log = before ++ .published candidate signatureSet :: after →
      Justified crypto params candidates before candidate signatureSet

structure Ordered (finalizer : Finalizer params.count) : Prop where
  sound : Sound crypto params candidates finalizer.log finalizer.disk finalizer.resolver
  done : ∀ id, .done id ∈ finalizer.log → (finalizer.resolver.entry id).done = true
  progress : ∀ id, inProgress id finalizer.log = true →
    ∃ runner ∈ finalizer.resolver.runners, runner.id = id ∧ runner.phase = .publishing
  log : LogJustified crypto params candidates finalizer.log

/-- What a step leads to; a candidate that is done stays so, also over a restart. -/
structure Continues (finalizer next : Finalizer params.count) : Prop where
  ordered : Ordered crypto params candidates next
  done : ∀ id, (finalizer.resolver.entry id).done = true → (next.resolver.entry id).done = true

end Justified

variable {crypto : Crypto} {params : SessionParams}
variable {log : List (FinalizerEntry params.count)}
  {candidates : CandidateId → Candidate params.count}
  {finalizer next : Finalizer params.count}

lemma LogJustified.append (justified : LogJustified crypto params candidates log) {entry : FinalizerEntry params.count}
    (last : ∀ candidate signatureSet, entry = .published candidate signatureSet →
      Justified crypto params candidates log candidate signatureSet) :
    LogJustified crypto params candidates (log ++ [entry]) := by
  intro before candidate signatureSet after same
  rcases eq_nil_or_concat' after with rfl | ⟨rest, final, rfl⟩
  · obtain ⟨rfl, equal⟩ := append_inj' same rfl
    cases equal
    exact last candidate signatureSet rfl
  · rw [← cons_append, ← append_assoc] at same
    obtain ⟨equal, _⟩ := append_inj' same rfl
    exact justified before candidate signatureSet rest equal

variable {runner : Runner params.count} {base : StateResolver params.count} {disk : List CandidateId} {old : Runner params.count}

section

variable (ordered : Ordered crypto params candidates finalizer) {entries : List (FinalizerEntry params.count)}
include ordered

lemma Ordered.not_inProgress (member : runner ∈ finalizer.resolver.runners) (elsewhere : runner.phase ≠ .publishing) :
    inProgress runner.id finalizer.log = false := by
  by_contra running
  obtain ⟨other, otherMember, same, publishing⟩ := ordered.progress runner.id (by simpa using running)
  have equal := inj_on_of_nodup_map ordered.sound.distinct otherMember member same
  rw [equal] at publishing
  exact elsewhere publishing

lemma Ordered.not_done (member : runner ∈ finalizer.resolver.runners) : .done runner.id ∉ finalizer.log := by
  intro listed
  have done := ordered.done runner.id listed
  rw [(ordered.sound.running runner member).2] at done
  cases done

lemma Ordered.quiet {resolver : StateResolver params.count}
    (sound : Sound crypto params candidates (finalizer.log ++ entries) disk resolver)
    (silent : ∀ entry ∈ entries, ∀ candidate signatureSet, entry ≠ .published candidate signatureSet)
    (done : ∀ id, (finalizer.resolver.entry id).done = true ∨ .done id ∈ entries → (resolver.entry id).done = true)
    (progress : ∀ id, inProgress id (finalizer.log ++ entries) = true →
      ∃ runner ∈ resolver.runners, runner.id = id ∧ runner.phase = .publishing) :
    Continues crypto params candidates finalizer { resolver, disk, log := finalizer.log ++ entries } := by
  refine ⟨⟨sound, ?_, progress, ?_⟩, fun id before => done id (.inl before)⟩
  · intro id listed
    rcases mem_append.mp listed with earlier | now
    · exact done id (.inl (ordered.done id earlier))
    · exact done id (.inr now)
  · clear sound done progress
    have justified := ordered.log
    generalize finalizer.log = log at justified
    induction entries generalizing log with
    | nil => simpa using justified
    | cons entry rest ih =>
      rw [append_cons]
      refine ih (forall_mem_cons.mp silent).2 _ ?_
      refine justified.append fun candidate signatureSet same => ?_
      exact absurd same (silent entry mem_cons_self candidate signatureSet)

section

variable (sound : Sound crypto params candidates finalizer.log finalizer.disk base)
variable (sameBlocks : base.finalizedBlocks = finalizer.resolver.finalizedBlocks)
variable (sameRunners : base.runners = finalizer.resolver.runners)
include sound sameBlocks sameRunners

lemma Ordered.finish (quiet : base.published = [])
    (member : runner ∈ finalizer.resolver.runners) {isOk : Bool} (written : isOk = true → runner.id ∈ finalizer.disk)
    (silent : ∀ entry ∈ entries, ∀ candidate signatureSet,
      entry ≠ .published candidate signatureSet) (marked : ∀ id, .done id ∈ entries → id = runner.id ∧ isOk = true)
    (idle : inProgress runner.id (finalizer.log ++ entries) = false)
    (others : ∀ id, id ≠ runner.id → inProgress id (finalizer.log ++ entries) = inProgress id finalizer.log) :
    Continues crypto params candidates finalizer ((finalizer.adopt (base.finish runner.id isOk)).record entries) := by
  have quietLog : (base.finish runner.id isOk).published = [] := quiet
  simp only [adopt, record, quietLog, map_nil, append_nil]
  have sameEntry : ∀ id, base.entry id = finalizer.resolver.entry id := by
    intro id
    rw [StateResolver.entry, StateResolver.entry, sameBlocks]
  refine ordered.quiet (sound.finish written).grow silent ?_ ?_
  · intro id done
    by_cases same : id = runner.id
    · subst same
      rcases done with before | now
      · rw [(ordered.sound.running runner member).2] at before
        cases before
      · rw [(marked _ now).2]
        simp [StateResolver.finish]
    · rcases done with before | now
      · rw [StateResolver.finish, entry_setEntry_of_ne _ _ same]
        exact (congrArg FinalizedBlock.done (sameEntry id)).trans before
      · exact absurd (marked id now).1 same
  · intro id running
    have different : id ≠ runner.id := by
      rintro rfl
      rw [idle] at running
      cases running
    rw [others id different] at running
    obtain ⟨other, otherMember, rfl, publishing⟩ := ordered.progress id running
    refine ⟨other, mem_finish.mpr ⟨?_, different⟩, rfl, publishing⟩
    rwa [sameRunners]

lemma Ordered.abort (quiet : base.published = [])
    (member : runner ∈ finalizer.resolver.runners) (elsewhere : runner.phase ≠ .publishing) :
    Continues crypto params candidates finalizer (finalizer.adopt (base.finish runner.id false)) := by
  have idle := ordered.not_inProgress member elsewhere
  have finished : Continues crypto params candidates finalizer
      ((finalizer.adopt (base.finish runner.id false)).record []) := by
    refine ordered.finish sound sameBlocks sameRunners quiet member ?_ ?_ ?_ ?_ ?_
    · simp
    · simp
    · simp
    · rwa [append_nil]
    · intro id _
      rw [append_nil]
  simpa only [record, append_nil] using finished

end

lemma Ordered.proceed (references : References candidates)
    (sound : Sound crypto params candidates finalizer.log finalizer.disk base)
    (sameBlocks : base.finalizedBlocks = finalizer.resolver.finalizedBlocks)
    (sameRunners : base.runners = finalizer.resolver.runners) (quiet : base.published = [])
    (member : old ∈ finalizer.resolver.runners) (same : runner.id = old.id) (elsewhere : old.phase ≠ .publishing)
    {candidate : Candidate params.count} {notarCert : Certificate params.count}
    (certified : Certified crypto params candidates finalizer.log runner.id runner.finalCert runner.finalCandidate)
    (reached : Reached crypto params candidates finalizer.log runner (.waiting candidate notarCert))
    (settled : ParentSettled candidates finalizer.log runner.id) :
    ∃ resolver, base.proceed crypto params runner candidate notarCert = some resolver ∧
      Continues crypto params candidates finalizer (finalizer.adopt resolver) := by
  have idle := ordered.not_inProgress member elsewhere
  have notDone := ordered.not_done member
  rw [← same] at idle notDone
  have baseMember : old ∈ base.runners := by rwa [sameRunners]
  have kept : ∀ (changed : Runner params.count) id, changed.id = runner.id → id ≠ runner.id →
      inProgress id finalizer.log = true →
      ∃ other ∈ (base.setRunner changed).runners, other.id = id ∧ other.phase = .publishing := by
    intro changed id changedSame different running
    obtain ⟨other, otherMember, rfl, publishing⟩ := ordered.progress id running
    refine ⟨other, mem_map.mpr ⟨other, by rwa [sameRunners], ?_⟩, rfl, publishing⟩
    rw [if_neg (by rwa [changedSame])]
  have known := reached.1
  have identified := reached.2.1
  rcases proceed_spec references certified reached with
    ⟨isEmpty, result⟩ | ⟨notEmpty, signatureSet, signed, result⟩
  · refine ⟨_, result, ?_⟩
    have saving : Sound crypto params candidates finalizer.log finalizer.disk
        (base.setRunner { runner with phase := .saving }) := by
      refine sound.setRunner baseMember same certified (settled.settled fun notEmpty => ?_)
      rw [← known, isEmpty] at notEmpty
      cases notEmpty
    have quietLog : (base.setRunner { runner with phase := .saving }).published = [] := quiet
    simp only [adopt, record, quietLog, map_nil]
    refine ordered.quiet saving.grow (by simp) ?_ ?_
    · intro id done
      simpa [StateResolver.entry, setRunner, sameBlocks] using done
    · intro id running
      rw [append_nil] at running
      have different : id ≠ runner.id := by
        rintro rfl
        rw [idle] at running
        cases running
      exact kept _ id rfl different running
  · refine ⟨_, result, ?_⟩
    have publishing : Sound crypto params candidates finalizer.log finalizer.disk
        (base.setRunner { runner with phase := .publishing }) :=
      sound.setRunner baseMember same certified ⟨settled, known ▸ notEmpty⟩
    simp only [adopt, record, quiet, nil_append, map_cons, map_nil]
    have stays : ∀ id, (finalizer.resolver.entry id).done = true →
        ((base.setRunner { runner with phase := .publishing }).entry id).done = true := by
      intro id before
      simpa [StateResolver.entry, setRunner, sameBlocks] using before
    refine ⟨⟨?_, ?_, ?_, ?_⟩, stays⟩
    · exact { publishing.grow with }
    · intro id listed
      have earlier : .done id ∈ finalizer.log := by simpa using listed
      exact stays id (ordered.done id earlier)
    · intro id running
      by_cases own : id = runner.id
      · subst own
        refine ⟨{ runner with phase := .publishing }, mem_map.mpr ⟨old, baseMember, ?_⟩, rfl, rfl⟩
        rw [if_pos same.symm]
      · refine kept _ id rfl own ?_
        rw [inProgress_append] at running
        simpa [Finalizer.progress, identified, Ne.symm own] using running
    · refine ordered.log.append fun published publishedSet equal => ?_
      cases equal
      rw [← identified] at known settled idle notDone
      exact ⟨known, notEmpty, fun ancestor path => settled.ancestors path, idle, notDone, signed⟩

end

lemma startUp_sound (settled : ∀ id ∈ disk, Settled candidates log id) :
    Sound crypto params candidates log disk (StateResolver.startUp disk) where
  settled := settled
  finalized := by
    intro id done
    simp only [StateResolver.entry, startUp] at done
    split at done
    · assumption
    · cases done
  waiters := by
    intro id child waiting
    simp only [StateResolver.entry, startUp] at waiting
    split at waiting <;> cases waiting
  running := fun _ member => absurd member not_mem_nil
  distinct := nodup_nil
  certified := fun _ member => absurd member not_mem_nil
  reached := fun _ member => absurd member not_mem_nil
  returned := fun _ member => absurd member not_mem_nil

lemma Ordered.call (ordered : Ordered crypto params candidates finalizer)
    (runner : Runner params.count)
    (member : old ∈ finalizer.resolver.runners)
    (elsewhere : old.phase ≠ .publishing) (same : runner.id = old.id) {parent : CandidateId}
    (link : ParentOf candidates runner.id parent) {isEmpty : Bool}
    (hasBlock : isEmpty = true → (candidates runner.id).isEmpty = true)
    (certified : Certified crypto params candidates finalizer.log runner.id runner.finalCert runner.finalCandidate)
    (present : runner.finalCert.isSome → runner.finalCandidate.isSome)
    (waiting : Sound crypto params candidates finalizer.log finalizer.disk
      (StateResolver.setRunner { finalizer.resolver with published := [] } runner)) :
    Continues crypto params candidates finalizer (finalizer.adopt
      (let resolver := StateResolver.setRunner { finalizer.resolver with published := [] } runner
        if isEmpty then
          resolver.finalizeBlocks false parent runner.finalCert runner.finalCandidate (.child runner.id)
        else resolver.finalizeBlocks false parent none none (.child runner.id))) := by
  have called : ∀ finalCert finalCandidate,
      Certified crypto params candidates finalizer.log parent finalCert finalCandidate →
      Continues crypto params candidates finalizer (finalizer.adopt
        ((StateResolver.setRunner { finalizer.resolver with published := [] } runner).finalizeBlocks
          false parent finalCert finalCandidate (.child runner.id))) := by
    intro finalCert finalCandidate forParent
    have left := finalizeBlocks_leaves (StateResolver.setRunner
      { finalizer.resolver with published := [] } runner) parent finalCert finalCandidate (.child runner.id)
    have quietLog : (StateResolver.setRunner { finalizer.resolver with published := [] } runner).published = [] := rfl
    simp only [adopt, record, left.published, quietLog, map_nil]
    refine ordered.quiet ?_ (by simp) ?_ ?_
    · refine (waiting.finalizeBlocks (fun child equal => ?_) forParent).grow
      cases equal
      exact link
    · intro id done
      rw [left.done]
      simpa [StateResolver.entry, setRunner] using done
    · intro id running
      rw [append_nil] at running
      obtain ⟨other, otherMember, rfl, publishing⟩ := ordered.progress id running
      refine ⟨other, left.runners ?_, rfl, publishing⟩
      refine mem_map.mpr ⟨other, otherMember, if_neg fun equal => elsewhere ?_⟩
      have equalRunner := inj_on_of_nodup_map ordered.sound.distinct otherMember member (equal.trans same)
      rwa [← equalRunner]
  cases isEmpty with
  | false => exact called none none fun _ isNone => by cases isNone
  | true =>
    refine called _ _ fun cert carried => ?_
    obtain ⟨last, carries⟩ := certified cert carried
    refine ⟨last, { carries with path := .step carries.path (hasBlock rfl) link, missing := ?_ }⟩
    intro missing
    have adopted := present (by rw [carried]; rfl)
    rw [missing] at adopted
    cases adopted

def HandledInOrder (crypto : Crypto) (params : SessionParams) (candidates : CandidateId → Candidate params.count)
    (finalizer : Finalizer params.count) (event : Event params.count) : Prop :=
  ∃ next, finalizer.handleEvent crypto params false event = some next ∧
    Continues crypto params candidates finalizer next

section

variable (ordered : Ordered crypto params candidates finalizer)
include ordered

lemma Ordered.cleared : Sound crypto params candidates finalizer.log finalizer.disk
    { finalizer.resolver with published := [] } :=
  { ordered.sound with }

lemma Ordered.finalizationObserved {id : CandidateId} {finalCert : Certificate params.count}
    (enabled : finalizer.Enabled crypto params candidates (.finalizationObserved id finalCert)) :
    HandledInOrder crypto params candidates finalizer (.finalizationObserved id finalCert) := by
  refine ⟨_, rfl, ?_⟩
  have left := finalizeBlocks_leaves { finalizer.resolver with published := [] } id (some finalCert) none .observer
  simp only [adopt, record, left.published, map_nil, append_nil]
  refine ordered.quiet ?_ (by simp) ?_ ?_
  · refine ordered.cleared.grow.finalizeBlocks nofun fun cert same => ?_
    cases same
    exact ⟨id, .refl, enabled, by simp, nofun, fun _ => rfl⟩
  · intro other done
    rw [left.done]
    simpa [StateResolver.entry] using done
  · intro other running
    rw [inProgress_append] at running
    obtain ⟨runner, member, rfl, publishing⟩ := ordered.progress other running
    exact ⟨runner, left.runners member, rfl, publishing⟩

lemma Ordered.candidateResolved (references : References candidates) {candidate : Candidate params.count}
    {notarCert : Certificate params.count}
    (enabled : finalizer.Enabled crypto params candidates (.candidateResolved runner candidate notarCert)) :
    HandledInOrder crypto params candidates finalizer (.candidateResolved runner candidate notarCert) := by
  obtain ⟨member, phase, known, identified, genuine, vote⟩ := enabled
  have elsewhere : runner.phase ≠ .publishing := by rw [phase]; exact nofun
  have certified := ordered.sound.certified runner member
  have adopted := certified.adopt known identified genuine
  have checked := certified.adopts_vote
  have reached : Reached crypto params candidates finalizer.log (runner.adopt candidate)
      (.waiting candidate notarCert) := by
    refine ⟨by rwa [Runner.adopt_id], by rwa [Runner.adopt_id], genuine,
      by rwa [Runner.adopt_id], Runner.adopt_isSome runner candidate⟩
  simp only [HandledInOrder, Finalizer.handleEvent, resumeWithCandidate, if_neg checked]
  cases parentId : candidate.parentId with
  | none =>
    have settled : ParentSettled candidates finalizer.log (runner.adopt candidate).id := by
      intro parent link
      rw [Runner.adopt_id, ParentOf, ← known, parentId] at link
      cases link
    obtain ⟨resolver, result, next⟩ := ordered.proceed references ordered.cleared rfl rfl rfl member
      (Runner.adopt_id runner candidate) elsewhere adopted reached settled
    exact ⟨_, congrArg (Option.map finalizer.adopt) result, next⟩
  | some parent =>
    have link : ParentOf candidates (runner.adopt candidate).id parent := by
      rwa [Runner.adopt_id, ParentOf, ← known]
    exact ⟨_, rfl, ordered.call { runner.adopt candidate with phase := .waiting candidate notarCert } member elsewhere
      (Runner.adopt_id runner candidate) link (fun isEmpty => by rwa [Runner.adopt_id, ← known]) adopted
      (Runner.adopt_isSome runner candidate)
      (ordered.cleared.setRunner member (Runner.adopt_id runner candidate) adopted reached)⟩

lemma Ordered.blockFinalized (enabled : finalizer.Enabled crypto params candidates (.blockFinalized runner)) :
    HandledInOrder crypto params candidates finalizer (.blockFinalized runner) := by
  obtain ⟨member, phase⟩ := enabled
  refine ⟨_, rfl, ?_⟩
  have reached := ordered.sound.reached runner member
  rw [phase] at reached
  obtain ⟨settled, _⟩ := reached
  have saving : Sound crypto params candidates (finalizer.log ++ [.completed runner.id])
      finalizer.disk (StateResolver.setRunner { finalizer.resolver with published := [] }
        { runner with phase := .saving }) := by
    refine ordered.cleared.grow.setRunner member rfl (ordered.sound.certified runner member).grow ?_
    exact settled.grow.settled fun _ => by simp
  have quietLog : (StateResolver.setRunner { finalizer.resolver with published := [] }
    { runner with phase := .saving }).published = [] := rfl
  simp only [adopt, record, quietLog, map_nil, append_nil]
  refine ordered.quiet saving (by simp) ?_ ?_
  · intro id done
    simpa [StateResolver.entry, setRunner] using done
  · intro id running
    rw [inProgress_append] at running
    by_cases own : runner.id = id
    · simp [Finalizer.progress, own] at running
    · simp only [Finalizer.progress, own, if_false] at running
      obtain ⟨other, otherMember, rfl, publishing⟩ := ordered.progress id running
      refine ⟨other, mem_map.mpr ⟨other, otherMember, ?_⟩, rfl, publishing⟩
      rw [if_neg (Ne.symm own)]

lemma Ordered.restart : HandledInOrder crypto params candidates finalizer .restart := by
  refine ⟨_, rfl, ?_⟩
  have fresh : Sound crypto params candidates finalizer.log finalizer.disk
    (StateResolver.startUp finalizer.disk) := startUp_sound ordered.sound.settled
  refine ordered.quiet fresh.grow (by simp) ?_ ?_
  · intro id done
    have onDisk : id ∈ finalizer.disk := by
      simpa using done.imp_left (ordered.sound.finalized id)
    simp [StateResolver.entry, startUp, onDisk]
  · intro id running
    simp [inProgress_append, Finalizer.progress] at running

lemma Ordered.handleEvent (references : References candidates) {event : Event params.count}
    (enabled : finalizer.Enabled crypto params candidates event) :
    HandledInOrder crypto params candidates finalizer event := by
  cases event with
  | finalizationObserved => exact ordered.finalizationObserved enabled
  | candidateResolved => exact ordered.candidateResolved references enabled
  | resolutionFailed runner | saveFailed runner =>
    obtain ⟨member, phase⟩ := enabled
    exact ⟨_, rfl, ordered.abort ordered.cleared rfl rfl rfl member (by rw [phase]; exact nofun)⟩
  | parentReturned runner candidate notarCert isOk =>
    obtain ⟨member, phase, returned⟩ := enabled
    have erased : Sound crypto params candidates finalizer.log finalizer.disk
        { finalizer.resolver with
          published := [], returned := finalizer.resolver.returned.erase (runner.id, isOk) } :=
      { ordered.cleared with returned := fun id listed =>
          ordered.sound.returned id (mem_of_mem_erase listed) }
    have elsewhere : runner.phase ≠ .publishing := by rw [phase]; exact nofun
    cases isOk with
    | false => exact ⟨_, rfl, ordered.abort erased rfl rfl rfl member elsewhere⟩
    | true =>
      have reached := ordered.sound.reached runner member
      rw [phase] at reached
      obtain ⟨resolver, result, next⟩ := ordered.proceed references erased rfl rfl rfl member rfl
        elsewhere (ordered.sound.certified runner member) reached
        (ordered.sound.returned runner.id returned)
      exact ⟨_, congrArg (Option.map finalizer.adopt) result, next⟩
  | blockFinalized => exact ordered.blockFinalized enabled
  | blockFailed runner =>
    obtain ⟨member, _⟩ := enabled
    refine ⟨_, rfl, ordered.finish ordered.cleared rfl rfl rfl member ?_ ?_ ?_ ?_ ?_⟩
    · exact nofun
    · simp
    · simp
    · simp [inProgress_append, Finalizer.progress]
    · intro id different
      simp [inProgress_append, Finalizer.progress, Ne.symm different]
  | commit runner =>
    obtain ⟨member, phase⟩ := enabled
    refine ⟨_, rfl, ?_⟩
    have reached := ordered.sound.reached runner member
    rw [phase] at reached
    refine ⟨{ ordered with sound := { ordered.sound with settled := ?_, finalized := ?_ } }, fun _ before => before⟩
    · intro id onDisk
      rcases mem_cons.mp onDisk with rfl | earlier
      · exact reached
      · exact ordered.sound.settled id earlier
    · exact fun id done => mem_cons_of_mem _ (ordered.sound.finalized id done)
  | saved runner =>
    obtain ⟨member, phase, written⟩ := enabled
    have idle := ordered.not_inProgress member (by rw [phase]; exact nofun)
    refine ⟨_, rfl, ordered.finish ordered.cleared rfl rfl rfl member (fun _ => written) ?_ ?_ ?_ ?_⟩
    · simp
    · simp
    · simpa [inProgress_append, Finalizer.progress] using idle
    · intro id _
      simp [inProgress_append, Finalizer.progress]
  | restart => exact ordered.restart

end

lemma Run.ordered (references : References candidates) (run : Run crypto params false candidates finalizer) :
    Ordered crypto params candidates finalizer := by
  induction run with
  | start =>
    constructor
    · exact startUp_sound (by simp)
    · simp
    · simp [inProgress]
    · intro before candidate signatureSet after same
      simp at same
  | step run enabled result ih =>
    obtain ⟨next, handled, continues⟩ := ih.handleEvent references enabled
    rw [result] at handled
    cases handled
    exact continues.ordered

/-- A block is published only while its candidate is not done, be it by this run of the process or
by an earlier one. -/
lemma Continues.not_done (continues : Continues crypto params candidates finalizer next) {candidate : Candidate params.count}
    {signatureSet : BlockSignatureSet} (published : next.log = finalizer.log ++ [.published candidate signatureSet]) :
    (finalizer.resolver.entry candidate.id).done = false := by
  have running : inProgress candidate.id next.log = true := by
    simp [published, inProgress_append, Finalizer.progress]
  obtain ⟨runner, member, same, _⟩ := continues.ordered.progress _ running
  have notDone := (continues.ordered.sound.running runner member).2
  rw [same] at notDone
  by_contra before
  have after := continues.done candidate.id (by simpa using before)
  rw [notDone] at after
  cases after

/-- Outside of the masterchain, blocks are finalized in the order of the chain, one request at a
time and never again once done, with signatures of the candidate or of an empty descendant on
their own id. No assertion fails, and nothing is published for a candidate that is already done,
also not for one that was done before a restart. -/
theorem blocks_finalized_in_order (references : References candidates) (run : Run crypto params false candidates finalizer) :
    (∀ before candidate signatureSet after, finalizer.log = before ++ .published candidate signatureSet :: after →
      candidate = candidates candidate.id ∧
      candidate.isEmpty = false ∧
      (∀ ancestor, Relation.TransGen (ParentOf candidates) candidate.id ancestor →
        (candidates ancestor).isEmpty = false → .completed ancestor ∈ before) ∧
      inProgress candidate.id before = false ∧
      .done candidate.id ∉ before ∧
      ∃ cert signer,
        cert.toSignatureSet crypto params (candidates signer) = some signatureSet ∧
        signatureSet.toSign crypto candidate.blockId = .ok (TonApi.storeDataToSign params.sessionId cert.vote.store) ∧
        (signatureSet.isFinal = false ∧ signer = candidate.id ∧ cert.vote = .notarize candidate.id ∨
          signatureSet.isFinal = true ∧ cert.vote = .finalize signer ∧
            ThroughEmpties candidates signer candidate.id ∧ .observed signer cert ∈ before)) ∧
    ∀ event, finalizer.Enabled crypto params candidates event →
      ∃ next,
        finalizer.handleEvent crypto params false event = some next ∧
        ∀ candidate signatureSet, next.log = finalizer.log ++ [.published candidate signatureSet] →
          (finalizer.resolver.entry candidate.id).done = false := by
  have ordered := run.ordered references
  constructor
  · intro before candidate signatureSet after same
    have justified := ordered.log before candidate signatureSet after same
    exact ⟨justified.own, justified.notEmpty, justified.ancestors, justified.idle, justified.notDone, justified.signed⟩
  · intro event enabled
    obtain ⟨next, handled, continues⟩ := ordered.handleEvent references enabled
    exact ⟨next, handled, fun _ _ => continues.not_done⟩

def toyBlock : BlockIdExt := ⟨0, 0, 1, 2, 3⟩

def toyIdentified (slot : Nat) (data : CandidateHashData) : Candidate toyParams.count where
  id := data.buildIdWith (SessionParams.candidateHash toyCrypto) slot
  parentId := data.parent
  leader := ⟨0, by decide⟩
  block := data.candidate
  signature := []

def toyFull : Candidate toyParams.count := toyIdentified 0 (.createFull toyBlock 5 none)

def toyEmpty : Candidate toyParams.count := toyIdentified 1 (.createEmpty toyBlock toyFull.id)

def toyCandidates (id : CandidateId) : Candidate toyParams.count :=
  if id = toyEmpty.id then toyEmpty else toyFull

def toyCert (vote : Vote) : Certificate toyParams.count :=
  { vote, signatures := [⟨⟨0, by decide⟩, [7]⟩] }

def toyFinal : Certificate toyParams.count := toyCert (.finalize toyEmpty.id)

def toyEvent : Nat → Event toyParams.count
  | 0 => .finalizationObserved toyEmpty.id toyFinal
  | 1 => .candidateResolved ⟨toyEmpty.id, some toyFinal, none, .resolving⟩ toyEmpty
      (toyCert (.notarize toyEmpty.id))
  | _ => .candidateResolved ⟨toyFull.id, some toyFinal, some toyEmpty, .resolving⟩ toyFull
      (toyCert (.notarize toyFull.id))

def toyState : Nat → Finalizer toyParams.count
  | 0 => { resolver := .startUp [] }
  | count + 1 =>
    (handleEvent toyCrypto toyParams false (toyState count) (toyEvent count)).getD (toyState count)

def toySignatureSet : BlockSignatureSet :=
  (toyFinal.toSignatureSet toyCrypto toyParams toyEmpty).getD (.createOrdinary [] 0 0)

lemma toy_references : References toyCandidates := by
  have step : ∀ id parent, (toyCandidates id).isEmpty = true → ParentOf toyCandidates id parent →
      (toyCandidates id).blockId = (toyCandidates parent).blockId := by
    intro id parent _ _
    have block : ∀ id, (toyCandidates id).blockId = toyBlock := by
      intro id
      rw [toyCandidates]
      split <;> rfl
    rw [block, block]
  intro last id path _
  clear * - path step
  induction path with
  | refl => rfl
  | step _ isEmpty link ih => exact ih.trans (step _ _ isEmpty link)

lemma toy_run : Run toyCrypto toyParams false toyCandidates (toyState 3) := by
  have handled : ∀ count, Run toyCrypto toyParams false toyCandidates (toyState count) →
      Enabled toyCrypto toyParams toyCandidates (toyState count) (toyEvent count) →
      Run toyCrypto toyParams false toyCandidates (toyState (count + 1)) := by
    intro count run enabled
    obtain ⟨next, result, _⟩ := (run.ordered toy_references).handleEvent toy_references enabled
    rw [toyState, result]
    exact .step run enabled result
  refine handled 2 (handled 1 (handled 0 .start rfl) ?_) ?_
  all_goals exact ⟨by decide +kernel, rfl, by decide +kernel, rfl, ⟨by decide, rfl⟩, rfl⟩

theorem toy_blocks_finalized_in_order : (toyState 3).log = [.observed toyEmpty.id toyFinal, .published toyFull toySignatureSet] ∧
      ∃ (cert : Certificate toyParams.count) (signer : CandidateId),
        cert.toSignatureSet toyCrypto toyParams (toyCandidates signer) = some toySignatureSet ∧
        toySignatureSet.toSign toyCrypto toyFull.blockId = .ok (TonApi.storeDataToSign toyParams.sessionId cert.vote.store) := by
  have log : (toyState 3).log =
      [.observed toyEmpty.id toyFinal] ++ .published toyFull toySignatureSet :: [] := by
    decide +kernel
  obtain ⟨_, _, _, _, _, cert, signer, made, signs, _⟩ := (blocks_finalized_in_order toy_references toy_run).1 _ _ _ _ log
  exact ⟨log, cert, signer, made, signs⟩

end Finalizer

end TonNode.Simplex
