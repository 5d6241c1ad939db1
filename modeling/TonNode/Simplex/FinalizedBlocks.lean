import TonNode.Simplex.StateResolver

/-!
# The coroutines that finalize blocks

What is known at each suspension point of the state resolver, and that calls,
returns and failures keep it.
-/

namespace TonNode.Simplex

open Consensus Block List

variable {n : Nat}

section Tree

variable (candidates : CandidateId → Candidate n)

def ParentOf (child parent : CandidateId) : Prop := (candidates child).parentId = some parent

/-- `id` is `last` itself or an ancestor of it with only empty candidates below. -/
inductive ThroughEmpties (last : CandidateId) : CandidateId → Prop where
  | refl : ThroughEmpties last last
  | step {id parent : CandidateId} : ThroughEmpties last id → (candidates id).isEmpty = true →
      ParentOf candidates id parent → ThroughEmpties last parent

end Tree

namespace Finalizer

def progress (id : CandidateId) (inProgress : Bool) : FinalizerEntry n → Bool
  | .published candidate _ => if candidate.id = id then true else inProgress
  | .completed other | .failed other => if other = id then false else inProgress
  | .restarted => false
  | .observed _ _ | .done _ => inProgress

def inProgress (id : CandidateId) (log : List (FinalizerEntry n)) : Bool :=
  log.foldl (progress id) false

lemma inProgress_append (id : CandidateId) (log : List (FinalizerEntry n)) (entry : FinalizerEntry n) :
    inProgress id (log ++ [entry]) = progress id (inProgress id log) entry := by
  simp [inProgress]

variable (candidates : CandidateId → Candidate n) (log : List (FinalizerEntry n))

def Settled (id : CandidateId) : Prop :=
  ∀ ancestor, Relation.ReflTransGen (ParentOf candidates) id ancestor →
    (candidates ancestor).isEmpty = false → .completed ancestor ∈ log

def ParentSettled (id : CandidateId) : Prop :=
  ∀ parent, ParentOf candidates id parent → Settled candidates log parent

variable {candidates log}
variable {id : CandidateId} {more : List (FinalizerEntry n)}

lemma Settled.grow (settled : Settled candidates log id) : Settled candidates (log ++ more) id :=
  fun ancestor path notEmpty => mem_append_left _ (settled ancestor path notEmpty)

lemma ParentSettled.grow (settled : ParentSettled candidates log id) : ParentSettled candidates (log ++ more) id :=
  fun parent link => (settled parent link).grow

lemma ParentSettled.of_settled {child parent : CandidateId}
    (link : ParentOf candidates child parent) (settled : Settled candidates log parent) : ParentSettled candidates log child := by
  intro other otherLink
  have same : parent = other := Option.some.inj (link.symm.trans otherLink)
  exact same ▸ settled

lemma ParentSettled.ancestors {ancestor : CandidateId} (settled : ParentSettled candidates log id)
    (path : Relation.TransGen (ParentOf candidates) id ancestor)
    (notEmpty : (candidates ancestor).isEmpty = false) : .completed ancestor ∈ log := by
  obtain ⟨parent, link, rest⟩ := Relation.TransGen.head'_iff.mp path
  exact settled parent link ancestor rest notEmpty

lemma ParentSettled.settled (settled : ParentSettled candidates log id)
    (own : (candidates id).isEmpty = false → .completed id ∈ log) : Settled candidates log id := by
  intro ancestor path notEmpty
  rcases Relation.ReflTransGen.cases_head path with rfl | ⟨parent, link, rest⟩
  · exact own notEmpty
  · exact settled parent link ancestor rest notEmpty

end Finalizer

namespace StateResolver

open Finalizer

section Sound

variable (crypto : Crypto) (params : SessionParams)
  (candidates : CandidateId → Candidate params.count) (log : List (FinalizerEntry params.count))

/-- The certificate a coroutine carries was observed for its candidate or for an empty
descendant. -/
structure Carries (id last : CandidateId) (finalCert : Certificate params.count)
    (finalCandidate : Option (Candidate params.count)) : Prop where
  path : ThroughEmpties candidates last id
  vote : finalCert.vote = .finalize last
  observed : .observed last finalCert ∈ log
  candidate : ∀ candidate, finalCandidate = some candidate →
    candidate = candidates last ∧ candidate.id = last ∧ params.Genuine crypto candidate
  missing : finalCandidate = none → last = id

def Certified (id : CandidateId) (finalCert : Option (Certificate params.count))
    (finalCandidate : Option (Candidate params.count)) : Prop :=
  ∀ cert, finalCert = some cert → ∃ last, Carries crypto params candidates log id last cert
    finalCandidate

def Reached (runner : Runner params.count) : Phase params.count → Prop
  | .resolving => True
  | .waiting candidate notarCert =>
    candidate = candidates runner.id ∧ candidate.id = runner.id ∧
      params.Genuine crypto candidate ∧ notarCert.vote = .notarize runner.id ∧
      (runner.finalCert.isSome → runner.finalCandidate.isSome)
  | .publishing =>
    ParentSettled candidates log runner.id ∧ (candidates runner.id).isEmpty = false
  | .saving => Settled candidates log runner.id

structure Sound (disk : List CandidateId) (resolver : StateResolver params.count) : Prop where
  settled : ∀ id ∈ disk, Settled candidates log id
  finalized : ∀ id, (resolver.entry id).done = true → id ∈ disk
  waiters : ∀ id child, .child child ∈ (resolver.entry id).waiters → ParentOf candidates child id
  running : ∀ runner ∈ resolver.runners, (resolver.entry runner.id).started = true ∧ (resolver.entry runner.id).done = false
  distinct : (resolver.runners.map (·.id)).Nodup
  certified : ∀ runner ∈ resolver.runners, Certified crypto params candidates log runner.id runner.finalCert runner.finalCandidate
  reached : ∀ runner ∈ resolver.runners, Reached crypto params candidates log runner runner.phase
  returned : ∀ id, (id, true) ∈ resolver.returned → ParentSettled candidates log id

end Sound

variable {crypto : Crypto} {params : SessionParams}
  {candidates : CandidateId → Candidate params.count}
  {log more : List (FinalizerEntry params.count)} {disk : List CandidateId}
  {resolver : StateResolver params.count} {id : CandidateId}

variable {finalCert : Option (Certificate params.count)}
variable {finalCandidate : Option (Candidate params.count)} {runner : Runner params.count}
variable {isOk : Bool} {candidate : Candidate params.count} {notarCert : Certificate params.count}

lemma Certified.grow (certified : Certified crypto params candidates log id finalCert finalCandidate) :
    Certified crypto params candidates (log ++ more) id finalCert finalCandidate := by
  intro cert same
  obtain ⟨last, carries⟩ := certified cert same
  exact ⟨last, { carries with observed := mem_append_left _ carries.observed }⟩

lemma Reached.grow {phase : Phase params.count} (reached : Reached crypto params candidates log runner phase) :
    Reached crypto params candidates (log ++ more) runner phase := by
  cases phase with
  | resolving => trivial
  | waiting candidate notarCert => exact reached
  | publishing => exact ⟨reached.1.grow, reached.2⟩
  | saving => exact Settled.grow reached

lemma Sound.grow (sound : Sound crypto params candidates log disk resolver) :
    Sound crypto params candidates (log ++ more) disk resolver :=
  { sound with
    settled := fun id onDisk => (sound.settled id onDisk).grow
    certified := fun runner member => (sound.certified runner member).grow
    reached := fun runner member => (sound.reached runner member).grow
    returned := fun id listed => (sound.returned id listed).grow }

@[simp] lemma entry_setEntry_self (resolver : StateResolver n) (id : CandidateId)
    (entry : Option FinalizedBlock) : (resolver.setEntry id entry).entry id = entry.getD {} := by
  simp [StateResolver.entry, setEntry]

lemma entry_setEntry_of_ne (resolver : StateResolver n) {id other : CandidateId}
    (entry : Option FinalizedBlock) (different : other ≠ id) :
    (resolver.setEntry id entry).entry other = resolver.entry other := by
  simp [StateResolver.entry, setEntry, Function.update_of_ne different]

lemma forall_mem_setRunner {resolver : StateResolver n} {runner : Runner n} {holds : Runner n → Prop} (here : holds runner)
    (others : ∀ other ∈ resolver.runners, holds other) : ∀ other ∈ (resolver.setRunner runner).runners, holds other := by
  intro other member
  obtain ⟨old, oldMember, rfl⟩ := mem_map.mp member
  split
  · exact here
  · exact others old oldMember

lemma setRunner_ids (resolver : StateResolver n) (runner : Runner n) :
    (resolver.setRunner runner).runners.map (·.id) = resolver.runners.map (·.id) := by
  simp only [setRunner, map_map]
  refine map_congr_left fun other _ => ?_
  simp only [Function.comp_apply]
  split
  next same => exact same.symm
  next => rfl

lemma Sound.setRunner (sound : Sound crypto params candidates log disk resolver)
    {old : Runner params.count} (member : old ∈ resolver.runners) (same : runner.id = old.id)
    (certified : Certified crypto params candidates log runner.id runner.finalCert runner.finalCandidate)
    (reached : Reached crypto params candidates log runner runner.phase) :
    Sound crypto params candidates log disk (resolver.setRunner runner) :=
  { sound with
    running := forall_mem_setRunner (same ▸ sound.running old member) sound.running
    distinct := by rw [setRunner_ids]; exact sound.distinct
    certified := forall_mem_setRunner certified sound.certified
    reached := forall_mem_setRunner reached sound.reached }

lemma mem_finish {resolver : StateResolver n} {id : CandidateId} {runner : Runner n} :
    runner ∈ (resolver.finish id isOk).runners ↔ runner ∈ resolver.runners ∧ runner.id ≠ id := by
  simp [finish, setEntry, returnTo, dropRunner]

lemma mem_returned_finish {resolver : StateResolver n} {id child : CandidateId}
    (member : (child, true) ∈ (resolver.finish id isOk).returned) : (child, true) ∈ resolver.returned ∨
      isOk = true ∧ .child child ∈ (resolver.entry id).waiters := by
  rcases mem_append.mp member with earlier | now
  · exact .inl earlier
  obtain ⟨other, listed, same⟩ := mem_map.mp now
  cases same
  obtain ⟨caller, waiting, named⟩ := mem_filterMap.mp listed
  cases caller with
  | observer => cases named
  | child other =>
    cases named
    exact .inr ⟨rfl, waiting⟩

section

variable (sound : Sound crypto params candidates log disk resolver)
include sound

lemma Sound.finish (written : isOk = true → id ∈ disk) : Sound crypto params candidates log disk (resolver.finish id isOk) where
  settled := sound.settled
  finalized := by
    intro other done
    by_cases same : other = id
    · subst same
      cases isOk with
      | false => simp [StateResolver.finish] at done
      | true => exact written rfl
    · rw [StateResolver.finish, entry_setEntry_of_ne _ _ same] at done
      exact sound.finalized other done
  waiters := by
    intro other child waiting
    by_cases same : other = id
    · subst same
      cases isOk <;> simp [StateResolver.finish] at waiting
    · rw [StateResolver.finish, entry_setEntry_of_ne _ _ same] at waiting
      exact sound.waiters other child waiting
  running := by
    intro runner member
    obtain ⟨kept, different⟩ := mem_finish.mp member
    rw [StateResolver.finish, entry_setEntry_of_ne _ _ different]
    exact sound.running runner kept
  distinct := sound.distinct.sublist (filter_sublist.map _)
  certified := fun runner member => sound.certified runner (mem_finish.mp member).1
  reached := fun runner member => sound.reached runner (mem_finish.mp member).1
  returned := by
    intro child member
    rcases mem_returned_finish member with earlier | ⟨succeeded, waiting⟩
    · exact sound.returned child earlier
    · exact .of_settled (sound.waiters id child waiting) (sound.settled id (written succeeded))

lemma not_mem_runners_of_not_started (notStarted : (resolver.entry id).started = false) : id ∉ resolver.runners.map (·.id) := by
  intro member
  obtain ⟨runner, listed, rfl⟩ := mem_map.mp member
  rw [(sound.running runner listed).1] at notStarted
  cases notStarted

lemma Sound.addRunner (fresh : id ∉ resolver.runners.map (·.id))
    (running : (resolver.entry id).started = true ∧ (resolver.entry id).done = false)
    (certified : Certified crypto params candidates log id finalCert finalCandidate) : Sound crypto params candidates log disk
      { resolver with runners := resolver.runners ++ [{ id, finalCert, finalCandidate }] } := by
  refine { sound with running := ?_, distinct := ?_, certified := ?_, reached := ?_ }
  · exact forall_mem_append.mpr ⟨sound.running, forall_mem_singleton.mpr running⟩
  · simp only [map_append, map_cons, map_nil]
    exact sound.distinct.append (by simp) (by simpa using fresh)
  · exact forall_mem_append.mpr ⟨sound.certified, forall_mem_singleton.mpr certified⟩
  · exact forall_mem_append.mpr ⟨sound.reached, forall_mem_singleton.mpr trivial⟩

lemma Sound.finalizeBlocks {caller : Caller} (link : ∀ child, caller = .child child → ParentOf candidates child id)
    (certified : Certified crypto params candidates log id finalCert finalCandidate) : Sound crypto params candidates log disk
      (resolver.finalizeBlocks false id finalCert finalCandidate caller) := by
  have waiting : ∀ child, .child child ∈ (resolver.entry id).waiters ++ [caller] →
      ParentOf candidates child id := by
    intro child member
    rcases mem_append.mp member with earlier | now
    · exact sound.waiters id child earlier
    · exact link child (mem_singleton.mp now).symm
  have entered : ∀ started, (resolver.entry id).done = false →
      ((resolver.entry id).started = true → started = true) →
      Sound crypto params candidates log disk (resolver.setEntry id (some { resolver.entry id with
        started, waiters := (resolver.entry id).waiters ++ [caller] })) := by
    intro started notDone kept
    refine { sound with finalized := ?_, waiters := ?_, running := ?_ }
    · intro other done
      by_cases same : other = id
      · subst same
        simp [notDone] at done
      · rw [entry_setEntry_of_ne _ _ same] at done
        exact sound.finalized other done
    · intro other child member
      by_cases same : other = id
      · subst same
        exact waiting child (by simpa using member)
      · rw [entry_setEntry_of_ne _ _ same] at member
        exact sound.waiters other child member
    · intro runner member
      by_cases same : runner.id = id
      · have running := sound.running runner member
        rw [same] at running ⊢
        simpa [notDone] using kept running.1
      · rw [entry_setEntry_of_ne _ _ same]
        exact sound.running runner member
  simp only [StateResolver.finalizeBlocks]
  split
  next done =>
    refine { sound with returned := ?_ }
    intro child member
    rcases mem_append.mp member with earlier | now
    · exact sound.returned child earlier
    · cases caller with
      | observer => simp [Caller.child?] at now
      | child other =>
        have same : child = other := by simpa [Caller.child?] using now
        subst same
        exact .of_settled (link _ rfl) (sound.settled id (sound.finalized id done))
  next notDone =>
    have notDone : (resolver.entry id).done = false := by simpa using notDone
    split
    next started =>
      have entry := entered true notDone fun _ => rfl
      rwa [← started] at entry
    next notStarted =>
      have notStarted : (resolver.entry id).started = false := by simpa using notStarted
      have fresh := not_mem_runners_of_not_started sound notStarted
      have entry := entered true notDone fun _ => rfl
      simp only [start, Bool.and_false, Bool.false_eq_true, if_false]
      exact entry.addRunner fresh (by simpa using notDone) certified

end

/-! What a call leaves as it is. -/

structure Leaves (resolver next : StateResolver n) : Prop where
  done : ∀ id, (next.entry id).done = (resolver.entry id).done
  runners : resolver.runners ⊆ next.runners
  published : next.published = resolver.published

lemma finalizeBlocks_leaves (resolver : StateResolver n) (called : CandidateId)
    (finalCert : Option (Certificate n)) (finalCandidate : Option (Candidate n)) (caller : Caller) :
    Leaves resolver (resolver.finalizeBlocks false called finalCert finalCandidate caller) := by
  have entered : ∀ started waiters id, ((resolver.setEntry called (some
      { resolver.entry called with started, waiters })).entry id).done =
        (resolver.entry id).done := by
    intro started waiters id
    by_cases same : id = called
    · subst same
      simp
    · rw [entry_setEntry_of_ne _ _ same]
  simp only [StateResolver.finalizeBlocks]
  split
  · exact ⟨fun _ => rfl, List.Subset.refl _, rfl⟩
  · split
    · exact ⟨entered _ _, List.Subset.refl _, rfl⟩
    · simp only [start, Bool.and_false, Bool.false_eq_true, if_false]
      exact ⟨entered _ _, subset_append_left _ _, rfl⟩

/-! What a coroutine knows of its final certificate once its candidate is resolved. -/

lemma Runner.adopt_id (runner : Runner n) (candidate : Candidate n) : (runner.adopt candidate).id = runner.id := by
  rw [adopt]
  split <;> rfl

lemma Runner.adopt_isSome (runner : Runner n) (candidate : Candidate n) :
    (runner.adopt candidate).finalCert.isSome → (runner.adopt candidate).finalCandidate.isSome := by
  rw [adopt]
  split
  next => exact fun _ => rfl
  next kept =>
    intro carried
    simpa [adopts, carried, Option.isSome_iff_ne_none] using kept

section

variable (certified : Certified crypto params candidates log runner.id runner.finalCert runner.finalCandidate)
include certified

lemma Certified.adopts_vote : ¬ (runner.adopts = true ∧ runner.finalCert.map (·.vote) ≠ some (.finalize runner.id)) := by
  rintro ⟨adopts, different⟩
  simp only [Runner.adopts, Bool.and_eq_true, Option.isNone_iff_eq_none] at adopts
  obtain ⟨finalCert, carried⟩ := Option.isSome_iff_exists.mp adopts.1
  obtain ⟨last, carries⟩ := certified finalCert carried
  refine different ?_
  rw [carried, Option.map_some, carries.vote, carries.missing adopts.2]

lemma Certified.adopt (known : candidate = candidates runner.id) (identified : candidate.id = runner.id)
    (genuine : params.Genuine crypto candidate) : Certified crypto params candidates log (runner.adopt candidate).id
      (runner.adopt candidate).finalCert (runner.adopt candidate).finalCandidate := by
  rw [Runner.adopt]
  split
  next adopts =>
    intro finalCert carried
    obtain ⟨last, carries⟩ := certified finalCert carried
    simp only [Runner.adopts, Bool.and_eq_true, Option.isNone_iff_eq_none] at adopts
    obtain rfl := carries.missing adopts.2
    refine ⟨runner.id, { carries with candidate := ?_, missing := nofun }⟩
    intro other same
    cases same
    exact ⟨known, identified, genuine⟩
  next => exact certified

end

/-- The signatures of a certificate on the block: of the candidate itself, or of a descendant
behind empty candidates. -/
def SignedBy (crypto : Crypto) (params : SessionParams) (candidates : CandidateId → Candidate params.count)
    (log : List (FinalizerEntry params.count)) (candidate : Candidate params.count) (signatureSet : BlockSignatureSet) : Prop :=
  ∃ cert signer, cert.toSignatureSet crypto params (candidates signer) = some signatureSet ∧
    signatureSet.toSign crypto candidate.blockId = .ok (TonApi.storeDataToSign params.sessionId cert.vote.store) ∧
    (signatureSet.isFinal = false ∧ signer = candidate.id ∧ cert.vote = .notarize candidate.id ∨
      signatureSet.isFinal = true ∧ cert.vote = .finalize signer ∧
        ThroughEmpties candidates signer candidate.id ∧ .observed signer cert ∈ log)

/-- Empty candidates refer to the block of their nearest ancestor that is not empty. -/
def References (candidates : CandidateId → Candidate n) : Prop :=
  ∀ last id, ThroughEmpties candidates last id → (candidates id).isEmpty = false →
    (candidates last).blockId = (candidates id).blockId

lemma signedBy_notarization (own : candidate = candidates candidate.id) (genuine : params.Genuine crypto candidate)
    (vote : notarCert.vote = .notarize candidate.id) :
    ∃ signatureSet, notarCert.toSignatureSet crypto params candidate = some signatureSet ∧
      SignedBy crypto params candidates log candidate signatureSet := by
  have names : notarCert.vote.candidateId? = some candidate.id := by rw [vote]; rfl
  obtain ⟨object, signatureSet, built, converted⟩ := Certificate.toSignatureSet_converted names genuine
  refine ⟨signatureSet, built, notarCert, candidate.id, by rwa [← own], converted.toSign_block names, .inl ⟨?_, rfl, vote⟩⟩
  rw [BlockSignatureSet.isFinal, converted.kind, vote]
  rfl

lemma signedBy_finalization (references : References candidates)
    (own : candidate = candidates candidate.id) (notEmpty : candidate.isEmpty = false)
    {last : CandidateId} {finalCert : Certificate params.count} {finalCandidate : Candidate params.count}
    (carries : Carries crypto params candidates log candidate.id last finalCert (some finalCandidate)) :
    ∃ signatureSet, finalCert.toSignatureSet crypto params finalCandidate = some signatureSet ∧
      SignedBy crypto params candidates log candidate signatureSet := by
  obtain ⟨known, identified, genuine⟩ := carries.candidate finalCandidate rfl
  have names : finalCert.vote.candidateId? = some finalCandidate.id := by
    rw [carries.vote, identified]
    rfl
  obtain ⟨object, signatureSet, built, converted⟩ := Certificate.toSignatureSet_converted names genuine
  have sameBlock : finalCandidate.blockId = candidate.blockId := by
    rw [known, references last candidate.id carries.path (own ▸ notEmpty), ← own]
  refine ⟨signatureSet, built, finalCert, last, by rwa [← known], ?_, .inr ⟨?_, carries.vote, carries.path, carries.observed⟩⟩
  · rw [← sameBlock]
    exact converted.toSign_block names
  · rw [BlockSignatureSet.isFinal, converted.kind, carries.vote]
    rfl

lemma proceed_spec (references : References candidates)
    (certified : Certified crypto params candidates log runner.id runner.finalCert runner.finalCandidate)
    (reached : Reached crypto params candidates log runner (.waiting candidate notarCert)) :
    (candidate.isEmpty = true ∧ resolver.proceed crypto params runner candidate notarCert =
        some (resolver.setRunner { runner with phase := .saving })) ∨
      candidate.isEmpty = false ∧ ∃ signatureSet,
        SignedBy crypto params candidates log candidate signatureSet ∧
        resolver.proceed crypto params runner candidate notarCert =
          some { resolver.setRunner { runner with phase := .publishing } with
            published := resolver.published ++ [(candidate, signatureSet)] } := by
  obtain ⟨known, identified, genuine, vote, adopted⟩ := reached
  have own : candidate = candidates candidate.id := by rwa [identified]
  rw [← identified] at vote certified
  by_cases isEmpty : candidate.isEmpty = true
  · exact .inl ⟨isEmpty, by rw [proceed, if_pos isEmpty]⟩
  have notEmpty : candidate.isEmpty = false := by simpa using isEmpty
  refine .inr ⟨notEmpty, ?_⟩
  simp only [proceed, if_neg isEmpty]
  cases carried : runner.finalCert with
  | none =>
    obtain ⟨signatureSet, built, signed⟩ := signedBy_notarization own genuine vote
    exact ⟨signatureSet, signed, by simp only [built, Option.map_some]⟩
  | some finalCert =>
    obtain ⟨last, carries⟩ := certified finalCert carried
    have present : runner.finalCandidate.isSome := adopted (by rw [carried]; rfl)
    obtain ⟨finalCandidate, found⟩ := Option.isSome_iff_exists.mp present
    rw [found] at carries
    obtain ⟨signatureSet, built, signed⟩ := signedBy_finalization references own notEmpty carries
    refine ⟨signatureSet, signed, ?_⟩
    simp only [found, Option.getD_some, built, Option.map_some]

end StateResolver

end TonNode.Simplex
