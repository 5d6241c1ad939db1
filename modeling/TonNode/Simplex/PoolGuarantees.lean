import TonNode.Simplex.PoolChecks

/-!
# What the pool guarantees about the chain

The present slot and the bases, the answers to parent requests, and the
independence of the order in which certificates arrive.
-/

namespace TonNode.Simplex

open Consensus Lib List Nat

variable {n : Nat}

namespace Pool

variable {bus : Bus n} {pool next : Pool n} {log : List (Published n)}

variable {event : Event n} {view : ChainView} {cert : Certificate n} {certs : List (Certificate n)}
variable {vote : Vote}

lemma handleEvent_regular (regular : Regular pool.Holds)
    (fits : ∀ cert, event = .certificateSaved cert → Regular fun vote => vote = cert.vote ∨ pool.Holds vote)
    (result : pool.handleEvent bus event = .ok next) : Regular next.Holds := by
  rcases handleEvent_cases result with same | ⟨_, started⟩ | ⟨cert, middle, saves, same, _, saved⟩ | ⟨candidate, _, waited⟩
  · exact regular.subset fun vote held => (same.holds vote).mp held
  · exact regular.subset fun vote held => (handleStart_holds started vote).mp held
  · refine (fits cert saves).subset fun vote held => ?_
    exact ((handleSavedCertificate_holds saved vote).mp held).imp_right (same.holds vote).mp
  · exact regular.subset fun vote held => ((processWaitForParent_frame waited).holds vote).mp held

lemma handleEvent_announces (follows : pool.Follows pool.view)
    (result : pool.handleEvent bus event = .ok next) (regular : Regular next.Holds) : Announces bus next.view pool next := by
  rcases handleEvent_cases result with same | ⟨_, started⟩ | ⟨cert, middle, _, same, tracked, saved⟩ | ⟨candidate, _, waited⟩
  · exact .inl ⟨same.windows, same.window⟩
  · obtain ⟨other, otherResult, otherFollows, announces⟩ := handleStart_follows bus follows
      (regular.subset fun vote held => (handleStart_holds started vote).mpr held)
    rw [started] at otherResult
    cases otherResult
    rwa [otherFollows.view_eq]
  · have above : pool.view.first ≤ cert.vote.referencedSlot := by
      rw [← follows.matched.dropped]
      exact tracked
    obtain ⟨nextFollows, announces⟩ := handleSavedCertificate_reaches (same.follows follows) above saved regular
    rw [nextFollows.view_eq]
    exact announces.of_same same.windows same.window
  · obtain ⟨_, ⟨_, rfl⟩ | ⟨answer, _, rfl⟩⟩ := processWaitForParent_cases waited
    · exact .inl ⟨rfl, rfl⟩
    · exact .inl ⟨by simp [announcedWindows], rfl⟩

lemma Announces.recorded (announces : Announces bus view pool next) (follows : next.Follows view)
    (silent : announcedWindows pool.published = []) {startSlot : Nat} {base : ParentId}
    (announced : (startSlot, base) ∈ announcedWindows next.published) :
    startSlot = next.now ∧ (next.state.slots startSlot).availableBase = some base := by
  rcases announces with ⟨none, _⟩ | ⟨other, one, present, isBase, _⟩
  · rw [none, silent] at announced
    cases announced
  · rw [one, silent] at announced
    simp only [nil_append, mem_singleton, Prod.mk.injEq] at announced
    obtain ⟨rfl, rfl⟩ := announced
    exact ⟨rfl, (follows.matched.bases _ present.notFinalized present.open_.2 base).mpr isBase⟩

/-- The present slot is the least open one, its base is there when a window is announced, and
every recorded base is the latest possible. -/
theorem present_slot_and_bases (run : Run bus log pool) (clean : ConflictFree pool.Holds)
    (below : ∀ vote, pool.Holds vote → vote.referencedSlot + 1 < 2 ^ 32) :
    (pool.isStarted = true →
      pool.firstNonfinalizedSlot ≤ pool.now ∧
      (pool.state.slots pool.now).isNotarized = false ∧
      (pool.state.slots pool.now).isSkipped = false ∧
      ∀ slot, pool.firstNonfinalizedSlot ≤ slot → slot < pool.now →
        (pool.state.slots slot).isNotarized = true ∨ (pool.state.slots slot).isSkipped = true) ∧
    (∀ event,
      (∀ cert, event = .certificateSaved cert → cert.vote.referencedSlot + 1 < 2 ^ 32 ∧
        ConflictFree fun vote => vote = cert.vote ∨ pool.Holds vote) →
      step bus pool event ≠ .error .availableBasePresent ∧
      ∀ next, step bus pool event = .ok next →
        ∀ startSlot base, (startSlot, base) ∈ announcedWindows next.published →
          startSlot = next.now ∧ (next.state.slots startSlot).availableBase = some base) ∧
    (∀ slot parent, pool.state.firstNonFinalizedSlot ≤ slot →
      (pool.state.slots slot).isSkipped = false →
      (pool.state.slots slot).availableBase = some parent →
      (parent = pool.lastFinalizedBlock ∨ ∃ id, parent = some id ∧ pool.Holds (.notarize id)) ∧
      nextSlotAfterParent parent ≤ slot ∧
      (∀ other, nextSlotAfterParent parent ≤ other → other < slot → (pool.state.slots other).isSkipped = true) ∧
      ∀ id, pool.Holds (.notarize id) → id.slot < slot →
        (∀ other, id.slot < other → other < slot → (pool.state.slots other).isSkipped = true) →
        id.slot < nextSlotAfterParent parent) := by
  have regular : Regular pool.Holds := ⟨clean, below⟩
  have follows := run.follows regular
  have skipped_iff := follows.stores.isSkipped_iff
  have notarized_iff := follows.stores.isNotarized_iff
  refine ⟨?_, ?_, ?_⟩
  · intro started
    have present := follows.matched.present started
    rw [follows.matched.aligned]
    refine ⟨present.notFinalized, ?_, ?_, ?_⟩
    · rw [← Bool.not_eq_true, notarized_iff]
      exact present.open_.1
    · rw [← Bool.not_eq_true, skipped_iff]
      exact present.open_.2
    · intro slot notFinalized before
      rw [notarized_iff, skipped_iff]
      exact present.passed slot notFinalized before
  · intro event fits
    have cleared : Follows pool.view { pool with published := [] } :=
      ⟨follows.matched.withRequests _ _ _, follows.stores.withRequests _ _ _, follows.pending⟩
    have fitsRegular : ∀ cert, event = .certificateSaved cert → Regular fun vote => vote = cert.vote ∨ pool.Holds vote := by
      intro cert saved
      refine ⟨(fits cert saved).2, ?_⟩
      rintro vote (rfl | held)
      · exact (fits cert saved).1
      · exact below vote held
    refine ⟨?_, ?_⟩
    · intro failed
      rcases handleEvent_error cleared regular fitsRegular failed with (same | same | same) | same | same
      all_goals cases same
    · intro next result startSlot base announced
      have clearedRegular : Regular (Holds { pool with published := [] }) := regular
      have nextRegular : Regular next.Holds := handleEvent_regular clearedRegular fitsRegular result
      have nextFollows := handleEvent_follows cleared result nextRegular
      exact (handleEvent_announces cleared result nextRegular).recorded nextFollows rfl announced
  · intro slot parent tracked notSkipped found
    rw [follows.matched.dropped] at tracked
    rw [← Bool.not_eq_true, skipped_iff] at notSkipped
    obtain ⟨source, before, between⟩ := (follows.matched.bases slot tracked notSkipped parent).mp found
    refine ⟨?_, before, ?_, ?_⟩
    · rcases source with rfl | ⟨id, rfl, held, _⟩
      · exact .inl rfl
      · exact .inr ⟨id, rfl, held⟩
    · intro other after below
      exact (skipped_iff other).mpr (between other after below).1
    · intro id held below _
      by_contra notBelow
      exact (between id.slot (by omega) below).2 ⟨id, rfl, held⟩

theorem solo_present_slot_and_bases : (soloPool soloVotes).isStarted = true ∧ (soloPool soloVotes).now = 2 ∧
      ((soloPool soloVotes).state.slots 2).availableBase = some (some ⟨0, 7⟩) ∧ ((soloPool soloVotes).state.slots (soloPool soloVotes).now).isNotarized = false ∧
      ∀ id, (soloPool soloVotes).Holds (.notarize id) → id.slot < 2 → (∀ other, id.slot < other → other < 2 →
          ((soloPool soloVotes).state.slots other).isSkipped = true) → id.slot < 1 := by
  obtain ⟨_, run, _⟩ := solo_run soloVotes solo_starts
  obtain ⟨present, _, bases⟩ := present_slot_and_bases run solo_clean solo_below
  exact ⟨rfl, by decide +kernel, by decide +kernel, (present rfl).2.1,
    (bases 2 (some ⟨0, 7⟩) (by decide +kernel) (by decide +kernel) (by decide +kernel)).2.2.2⟩

/-- The request that an event hands to the pool. -/
def newRequests (pool : Pool n) : Event n → List (Request n)
  | .waitForParent candidate => [.ofCandidate pool.nextPromise candidate]
  | _ => []

/-- The slot behind the last one is slot `0`: a candidate notarized in the last slot becomes the
base of slot `0`, passes over skipped slots and is announced for a window before its own. -/
theorem solo_base_of_last_slot :
    let pool := soloPool [.notarize ⟨2 ^ 32 - 1, 9⟩, .skip 0, .skip 1, .skip 2, .skip 3]
    (∃ log, Run soloBus log pool) ∧
      ConflictFree pool.Holds ∧
      (4, some ⟨2 ^ 32 - 1, 9⟩) ∈ announcedWindows pool.published ∧
      (pool.state.slots 4).isSkipped = false ∧
      (pool.state.slots 4).availableBase = some (some ⟨2 ^ 32 - 1, 9⟩) := by
  intro pool
  obtain ⟨log, run, only⟩ :=
    solo_run [.notarize ⟨2 ^ 32 - 1, 9⟩, .skip 0, .skip 1, .skip 2, .skip 3] (by decide +kernel)
  exact ⟨⟨log, run⟩, .of_list _ only (by decide) (by decide), by decide +kernel, by decide +kernel, by decide +kernel⟩

/-- How an event treats requests: those that `maybe_resolve_request` can answer are answered and
removed, all others stay. -/
structure Answers (pool : Pool n) (added : List (Request n)) (next : Pool n) : Prop where
  evolves : ∃ resolved, answers next.published = answers pool.published ++ resolved ∧
    (resolved.map (·.1) ++ next.requests).Perm (pool.requests ++ added) ∧
    ∀ entry ∈ resolved, next.maybeResolveRequest entry.1 = .ok (some entry.2)
  nextPromise : next.nextPromise = pool.nextPromise + added.length

lemma Answers.of_same (requests : next.requests = pool.requests) (nextPromise : next.nextPromise = pool.nextPromise)
    (answered : answers next.published = answers pool.published) : Answers pool [] next :=
  ⟨⟨[], by simp [answered], by simp [requests], by simp⟩, nextPromise⟩

lemma handleSavedCertificate_answers (result : pool.handleSavedCertificate bus cert = .ok next) : Answers pool [] next := by
  obtain ⟨stored, handled, stores, update, _, resolves⟩ := handleSavedCertificate_cases result
  have broadcast := broadcastCertificate_sameChain stored cert
  obtain ⟨_, resolved, same, answered, perm⟩ := resolves
  have requests : handled.requests = pool.requests := by
    rw [update.requests, broadcast.requests, stores.rest]
  have nextPromise : handled.nextPromise = pool.nextPromise := by
    rw [update.nextPromise, broadcast.nextPromise, stores.rest]
  have published : answers handled.published = answers pool.published := by
    rw [update.answers, broadcast.answers, stores.rest]
  refine ⟨⟨resolved, ?_, by simpa [requests] using perm, ?_⟩, ?_⟩
  · rw [same]
    have all : answers (resolved.map fun entry => Published.parentResolved entry.1 entry.2) =
        resolved := by
      simp [Simplex.answers, Published.answer?, filterMap_map, Function.comp_def]
    simp [published, all]
  · -- Requests and publications are not read by `maybe_resolve_request`.
    rw [same]
    exact answered
  · rw [same]
    exact nextPromise

lemma processWaitForParent_answers {candidate : Candidate n} (result : pool.processWaitForParent candidate = .ok next) :
    Answers pool [.ofCandidate pool.nextPromise candidate] next := by
  obtain ⟨_, ⟨_, rfl⟩ | ⟨answer, answered, rfl⟩⟩ := processWaitForParent_cases result
  · exact ⟨⟨[], by simp, by simp, by simp⟩, rfl⟩
  · refine ⟨⟨[(.ofCandidate pool.nextPromise candidate, answer)], by simp [Simplex.answers, Published.answer?],
      by simpa using (perm_append_singleton _ _).symm, ?_⟩, rfl⟩
    rw [forall_mem_singleton]
    exact answered

lemma handleEvent_answers (result : pool.handleEvent bus event = .ok next) : Answers pool (pool.newRequests event) next := by
  cases event with
  | waitForParent candidate => exact processWaitForParent_answers result
  | _ =>
    rcases handleEvent_cases result with same | ⟨_, started⟩ | ⟨cert, middle, _, same, _, saved⟩ | ⟨candidate, isWait, _⟩
    · exact .of_same same.requests same.nextPromise same.answers
    · have update := advancePresent_update started
      exact .of_same update.requests update.nextPromise update.answers
    · obtain ⟨evolves, nextPromise⟩ := handleSavedCertificate_answers saved
      rw [same.answers, same.requests] at evolves
      exact ⟨evolves, nextPromise.trans (by rw [same.nextPromise]; rfl)⟩
    · cases isWait

def promises (log : List (Published n)) (pool : Pool n) : List Nat :=
  (answers log).map (·.1.promise) ++ pool.requests.map (·.promise)

lemma loadCertificates_promises (result : pool.loadCertificates bus certs = .ok next) (none : pool.requests = []) :
    answers next.published = answers pool.published ∧ next.requests = [] := by
  refine loadCertificates_handled (fun loaded => answers loaded.published =
    answers pool.published ∧ loaded.requests = []) ?_ ⟨rfl, none⟩ result
  rintro cert middle loaded _ handled ⟨same, waiting⟩
  obtain ⟨⟨resolved, published, perm, _⟩, _⟩ := handleSavedCertificate_answers handled
  rw [waiting, append_nil, perm_nil, append_eq_nil_iff, map_eq_nil_iff] at perm
  exact ⟨by rw [published, perm.1, append_nil, same], perm.2⟩

/-- No promise is used twice: neither fulfilled twice nor fulfilled and kept. -/
lemma Run.promises_nodup (run : Run bus log pool) :
    (promises log pool).Nodup ∧ ∀ promise ∈ promises log pool, promise < pool.nextPromise := by
  induction run with
  | @startUp params bootstrap pool _ result =>
    obtain ⟨loaded, loadedResult, same, _⟩ := startUp_cases result
    obtain ⟨published, requests⟩ := loadCertificates_promises loadedResult rfl
    have empty : promises pool.published pool = [] := by
      rw [promises, same.answers, same.requests, published, requests]
      rfl
    simp [empty]
  | @step log pool next event run enabled result ih =>
    obtain ⟨distinct, bounded⟩ := ih
    obtain ⟨⟨resolved, published, perm, _⟩, nextPromise⟩ := handleEvent_answers result
    have same : (promises (log ++ next.published) next).Perm
        (promises log pool ++ (pool.newRequests event).map (·.promise)) := by
      have mapped := perm.map (·.promise)
      simp only [map_append, map_map] at mapped
      have step := published
      simp only [Simplex.answers, filterMap_nil, nil_append] at step
      simp only [promises, answers_append, map_append, append_assoc]
      refine List.Perm.append_left _ ?_
      rw [show answers next.published = resolved from step]
      exact mapped
    rw [same.nodup_iff]
    have nextPromise : next.nextPromise = pool.nextPromise + (pool.newRequests event).length := nextPromise
    have fresh : ∀ promise ∈ (pool.newRequests event).map (·.promise), promise = pool.nextPromise ∧
        next.nextPromise = pool.nextPromise + 1 := by
      unfold newRequests
      split
      · simpa [newRequests, Request.ofCandidate] using nextPromise
      · simp
    have notOld : ∀ promise ∈ promises log pool, promise ∉ (pool.newRequests event).map (·.promise) := by
      intro promise old new
      exact absurd (fresh promise new).1 (Nat.ne_of_lt (bounded promise old))
    refine ⟨nodup_append.mpr ⟨distinct, ?_, fun promise old other new same => notOld promise old (same ▸ new)⟩, ?_⟩
    · unfold newRequests
      split <;> simp
    intro promise member
    rcases mem_append.mp (same.subset member) with old | new
    · exact Nat.lt_of_lt_of_le (bounded promise old) (by rw [nextPromise]; exact Nat.le_add_right _ _)
    · have taken := fresh promise new
      omega

/-- A notarized parent below the watermark is cut off by the finalized slot,
which is not skipped. -/
lemma Matches.source_of_notarized (matched : pool.Matches view) (clean : ConflictFree view.certified) {id parent : CandidateId}
    (held : view.certified (.notarize parent)) (notFinalized : view.first ≤ id.slot)
    (skipped : ∀ slot, parent.slot < slot → slot < id.slot → view.Skipped slot) : view.Source (some parent) := by
  by_cases above : view.first ≤ parent.slot
  · exact .inr ⟨parent, rfl, held, above⟩
  cases last : view.lastFinalized with
  | none => simp [ChainView.first, last] at above
  | some final =>
    have firstSlot : view.first = final.slot + 1 := by simp [ChainView.first, last]
    have finalized := matched.lastCertified final last
    by_cases same : parent.slot = final.slot
    · rw [clean.oneCandidate _ _ parent final held finalized rfl rfl same]
      exact .inl last.symm
    · exact (clean.finalNotSkipped final finalized (skipped final.slot (by omega) (by omega))).elim

lemma Matches.extends_iff (matched : pool.Matches view) (clean : ConflictFree view.certified)
    {id : CandidateId} {parent : ParentId} : view.Extends id parent ↔ view.first ≤ id.slot ∧
      (∀ other, view.certified (.notarize other) ∨ view.certified (.finalize other) → other.slot = id.slot → other = id) ∧
      (parent = view.lastFinalized ∧ nextSlotAfterParent parent = view.first ∨
        ∃ parentId, parent = some parentId ∧ view.certified (.notarize parentId)) ∧
      ∀ slot, nextSlotAfterParent parent ≤ slot → slot < id.slot → view.Skipped slot := by
  constructor
  · rintro ⟨notFinalized, unopposed, source, skipped⟩
    refine ⟨notFinalized, ?_, ?_, skipped⟩
    · rintro other (held | final) located
      · exact unopposed other held located
      · have below := matched.finals other final
        omega
    · rcases source with rfl | ⟨parentId, rfl, held, _⟩
      · exact .inl ⟨rfl, rfl⟩
      · exact .inr ⟨parentId, rfl, held⟩
  · rintro ⟨notFinalized, unopposed, ⟨rfl, _⟩ | ⟨parentId, rfl, held⟩, skipped⟩
    · exact ⟨notFinalized, fun other held => unopposed other (.inl held), .inl rfl, skipped⟩
    · exact ⟨notFinalized, fun other held => unopposed other (.inl held),
        matched.source_of_notarized clean held notFinalized skipped, skipped⟩

/-- A request is answered without misbehavior exactly when its candidate extends the certified
chain. Every request is kept or answered as `maybe_resolve_request` says, nothing that can be
answered stays pending, and no promise is fulfilled twice. -/
theorem parent_requests_exact (run : Run bus log pool) (clean : ConflictFree pool.Holds)
    (below : ∀ vote, pool.Holds vote → vote.referencedSlot + 1 < 2 ^ 32) :
    (∀ request : Request n, nextSlotAfterParent request.parent ≤ request.id.slot →
      (∀ failure, pool.maybeResolveRequest request ≠ .error failure) ∧
      (pool.maybeResolveRequest request = .ok (some .noMisbehavior) ↔
        pool.firstNonfinalizedSlot ≤ request.id.slot ∧
        (∀ other, pool.Holds (.notarize other) ∨ pool.Holds (.finalize other) →
          other.slot = request.id.slot → other = request.id) ∧
        (request.parent = pool.lastFinalizedBlock ∧
            nextSlotAfterParent request.parent = pool.firstNonfinalizedSlot ∨
          ∃ parentId, request.parent = some parentId ∧ pool.Holds (.notarize parentId)) ∧
        ∀ slot, nextSlotAfterParent request.parent ≤ slot → slot < request.id.slot → pool.Holds (.skip slot))) ∧
    (∀ event next, step bus pool event = .ok next →
      ((answers next.published).map (·.1) ++ next.requests).Perm (pool.requests ++ pool.newRequests event) ∧
      ∀ request answer, (request, answer) ∈ answers next.published →
        next.maybeResolveRequest request = .ok (some answer)) ∧
    (∀ request ∈ pool.requests, pool.maybeResolveRequest request = .ok none) ∧
    ((answers log).map (·.1.promise) ++ pool.requests.map (·.promise)).Nodup := by
  have follows := run.follows ⟨clean, below⟩
  refine ⟨?_, ?_, ?_, run.promises_nodup.1⟩
  · intro request before
    rw [follows.matched.aligned]
    refine ⟨?_, Iff.trans ?_ (follows.matched.extends_iff clean)⟩
    · obtain ⟨answer, answered⟩ := maybeResolveRequest_total follows.matched follows.stores clean before
      simp [answered]
    rcases maybeResolveRequest_spec follows.matched follows.stores clean before with
      ⟨finalized, answer⟩ | ⟨contradicts, answer⟩ | ⟨extends_, answer⟩ | ⟨_, _, nor, answer⟩
    · have notExtends : ¬ pool.view.Extends request.id request.parent := by
        intro extends_
        have above := extends_.notFinalized
        omega
      simp [answer, notExtends]
    · have notExtends : ¬ pool.view.Extends request.id request.parent := fun extends_ =>
        extends_.not_contradicts clean contradicts
      simp [answer, notExtends]
    · simp [answer, extends_]
    · simp [answer, nor]
  · intro event next result
    obtain ⟨⟨resolved, published, perm, answered⟩, _⟩ := handleEvent_answers result
    have all : answers next.published = resolved := published
    rw [all]
    exact ⟨perm, fun request answer member => answered (request, answer) member⟩
  · intro request member
    obtain ⟨before, undecided⟩ := follows.pending request member
    exact (maybeResolveRequest_eq_none follows.matched follows.stores clean before).mpr undecided

theorem solo_parent_requests_exact : (soloPool soloVotes).maybeResolveRequest
        { promise := 0, id := ⟨2, 9⟩, parent := some ⟨0, 7⟩, candidateForProof :=
          ⟨⟨2, 9⟩, some ⟨0, 7⟩, 0, .full ⟨0, 0, 0, 0, 0⟩ 0, []⟩ } = .ok (some .noMisbehavior) ∧
      (soloPool soloVotes).Holds (.skip 1) := by
  obtain ⟨_, run, _⟩ := solo_run soloVotes solo_starts
  obtain ⟨exact_, _, _⟩ := parent_requests_exact run solo_clean solo_below
  have answered : (soloPool soloVotes).maybeResolveRequest
      { promise := 0, id := ⟨2, 9⟩, parent := some ⟨0, 7⟩, candidateForProof :=
        ⟨⟨2, 9⟩, some ⟨0, 7⟩, 0, .full ⟨0, 0, 0, 0, 0⟩ 0, []⟩ } = .ok (some .noMisbehavior) := by
    decide +kernel
  exact ⟨answered, (((exact_ _ (by decide)).2.mp answered).2.2.2) 1 (by decide) (by decide)⟩

/-- Finalizing the last slot resets `first_nonfinalized_slot_` to `0`, and a request without parent
then fails the assertion that the two go together. -/
theorem solo_request_after_last_slot :
    let pool := soloPool [.finalize ⟨2 ^ 32 - 1, 9⟩]
    (∃ log, Run soloBus log pool) ∧
      ConflictFree pool.Holds ∧
      pool.maybeResolveRequest { promise := 0, id := ⟨1, 3⟩, parent := none, candidateForProof :=
        ⟨⟨1, 3⟩, none, 0, .full ⟨0, 0, 0, 0, 0⟩ 0, []⟩ } = .error .firstNonfinalizedSlotPositive := by
  intro pool
  obtain ⟨log, run, only⟩ := solo_run [.finalize ⟨2 ^ 32 - 1, 9⟩] (by decide +kernel)
  exact ⟨⟨log, run⟩, .of_list _ only (by decide) (by decide), by decide +kernel⟩

/-- What loading certificates into a following pool leads to, as far as it can
be told without knowing their order. -/
structure Loaded (pool : Pool n) (certs : List (Certificate n)) (next : Pool n) : Prop where
  follows : next.Follows next.view
  certified : ∀ vote, next.view.first ≤ vote.referencedSlot →
    (next.Holds vote ↔ pool.Holds vote ∨ ∃ cert ∈ certs, cert.vote = vote)
  notEarlier : pool.view.first ≤ next.view.first
  finals : ∀ id, (∃ cert ∈ certs, cert.vote = .finalize id) → id.slot < next.view.first
  last : next.lastFinalizedBlock = pool.lastFinalizedBlock ∨
    ∃ id, next.lastFinalizedBlock = some id ∧ ∃ cert ∈ certs, cert.vote = .finalize id

def Offered (pool : Pool n) (certs : List (Certificate n)) (vote : Vote) : Prop :=
  pool.Holds vote ∨ ∃ cert ∈ certs, cert.vote = vote

lemma Offered.rest (offered : pool.Offered certs vote) : pool.Offered (cert :: certs) vote :=
  offered.imp_right fun ⟨other, member, same⟩ => ⟨other, mem_cons_of_mem _ member, same⟩

lemma Offered.certify (certified : (pool.view.certify cert.vote).certified vote) : pool.Offered (cert :: certs) vote := by
  rcases certified with rfl | held
  · exact .inr ⟨cert, mem_cons_self, rfl⟩
  · exact .inl held

lemma Offered.of_handled (handled : pool.handleSavedCertificate bus cert = .ok next)
    (offered : next.Offered certs vote) : pool.Offered (cert :: certs) vote := by
  rcases offered with held | remaining
  · rcases (handleSavedCertificate_holds handled vote).mp held with rfl | held
    · exact .inr ⟨cert, mem_cons_self, rfl⟩
    · exact .inl held
  · exact Offered.rest (.inr remaining)

lemma Follows.first_le_certify (view : ChainView) (above : view.first ≤ vote.referencedSlot) :
    view.first ≤ (view.certify vote).first := by
  cases vote with
  | notarize id => exact le_refl _
  | skip slot => exact le_refl _
  | finalize id => exact le_succ_of_le above

lemma loadCertificates_loaded (follows : pool.Follows pool.view) (regular : Regular (pool.Offered certs))
    (result : pool.loadCertificates bus certs = .ok next) : Loaded pool certs next := by
  induction certs generalizing pool with
  | nil =>
    cases result
    exact ⟨follows, by simp, le_refl _, by simp, .inl rfl⟩
  | cons cert rest ih =>
    simp only [loadCertificates] at result
    split at result
    next untracked =>
      have below : cert.vote.referencedSlot < pool.view.first := by
        rw [← follows.matched.dropped]
        exact ConsensusState.slotAt_eq_none.mp untracked
      have loaded := ih follows (regular.subset fun vote => Offered.rest) result
      have notEarlier := loaded.notEarlier
      refine ⟨loaded.follows, ?_, notEarlier, ?_, ?_⟩
      · intro vote above
        have different : cert.vote ≠ vote := by
          rintro rfl
          omega
        simp [loaded.certified vote above, different]
      · rintro id ⟨other, member, same⟩
        rcases mem_cons.mp member with rfl | later
        · rw [same, Vote.referencedSlot_finalize] at below
          omega
        · exact loaded.finals id ⟨other, later, same⟩
      · refine loaded.last.imp_right ?_
        rintro ⟨id, last, other, member, same⟩
        exact ⟨id, last, other, mem_cons_of_mem _ member, same⟩
    next state tracked =>
      obtain ⟨middle, handled, result⟩ := bind_eq_ok.mp result
      have above := follows.above tracked
      have middleRegular : Regular (middle.Offered rest) := regular.subset fun vote => Offered.of_handled handled
      have reached := (handleSavedCertificate_reaches follows above handled (middleRegular.subset fun vote => .inl)).1
      have holds := handleSavedCertificate_holds handled
      have viewEq := reached.view_eq
      have loaded := ih (by rwa [viewEq]) middleRegular result
      have first := Follows.first_le_certify pool.view above
      have notEarlier := loaded.notEarlier
      rw [viewEq] at notEarlier
      refine ⟨loaded.follows, ?_, by omega, ?_, ?_⟩
      · intro vote voteAbove
        rw [loaded.certified vote voteAbove, holds]
        simp only [mem_cons, exists_eq_or_imp, eq_comm (a := vote)]
        tauto
      · rintro id ⟨other, member, same⟩
        rcases mem_cons.mp member with rfl | later
        · rw [same, ChainView.first_certify_finalize] at notEarlier
          omega
        · exact loaded.finals id ⟨other, later, same⟩
      · have lastMiddle : middle.lastFinalizedBlock =
            (pool.view.certify cert.vote).lastFinalized := congrArg (·.lastFinalized) viewEq
        rcases loaded.last with same | ⟨id, last, other, member, same⟩
        · cases vote : cert.vote with
          | finalize id =>
            refine .inr ⟨id, ?_, cert, mem_cons_self, vote⟩
            rw [same, lastMiddle, vote]
            rfl
          | notarize id | skip slot =>
            refine .inl ?_
            rw [same, lastMiddle, vote]
            rfl
        · exact .inr ⟨id, last, other, mem_cons_of_mem _ member, same⟩

lemma Loaded.agree {others : List (Certificate n)} {left right : Pool n}
    (follows : pool.Follows pool.view) (clean : ConflictFree (pool.Offered certs))
    (same : ∀ vote, (∃ cert ∈ certs, cert.vote = vote) ↔ ∃ cert ∈ others, cert.vote = vote)
    (leftLoaded : Loaded pool certs left) (rightLoaded : Loaded pool others right) : left.view.Agree right.view := by
  have cleanOthers : ConflictFree (pool.Offered others) := clean.subset fun vote offered => offered.imp_right (same vote).mpr
  have notLater : ∀ {certs others : List (Certificate n)} {left right : Pool n},
      (∀ vote, (∃ cert ∈ certs, cert.vote = vote) ↔ ∃ cert ∈ others, cert.vote = vote) →
      Loaded pool certs left → Loaded pool others right → left.view.first ≤ right.view.first := by
    intro certs others left right same leftLoaded rightLoaded
    rcases leftLoaded.last with unchanged | ⟨id, last, final⟩
    · have first : left.view.first = pool.view.first := congrArg nextSlotAfterParent unchanged
      exact first ▸ rightLoaded.notEarlier
    · have first : left.view.first = id.slot + 1 := congrArg nextSlotAfterParent last
      have below := rightLoaded.finals id ((same _).mp final)
      omega
  have firstSame : left.view.first = right.view.first := le_antisymm (notLater same leftLoaded rightLoaded)
      (notLater (fun vote => (same vote).symm) rightLoaded leftLoaded)
  -- The last finalized block of either pool is certified among the offered ones.
  have offered : ∀ {certs : List (Certificate n)} {next : Pool n} {id : CandidateId},
      Loaded pool certs next → next.lastFinalizedBlock = some id →
      pool.Offered certs (.finalize id) := by
    intro certs next id loaded found
    rcases loaded.last with unchanged | ⟨other, last, final⟩
    · exact .inl (follows.matched.lastCertified id (unchanged.symm.trans found))
    · rw [last] at found
      cases found
      exact .inr final
  have lastSame : left.lastFinalizedBlock = right.lastFinalizedBlock := by
    have aligned : nextSlotAfterParent left.lastFinalizedBlock = nextSlotAfterParent right.lastFinalizedBlock := firstSame
    cases leftLast : left.lastFinalizedBlock with
    | none =>
      cases rightLast : right.lastFinalizedBlock with
      | none => rfl
      | some rightId => simp [leftLast, rightLast] at aligned
    | some leftId =>
      cases rightLast : right.lastFinalizedBlock with
      | none => simp [leftLast, rightLast] at aligned
      | some rightId =>
        simp only [leftLast, rightLast, nextSlotAfterParent_some, add_right_cancel_iff] at aligned
        have leftOffered := offered leftLoaded leftLast
        have rightOffered := (offered rightLoaded rightLast).imp_right (same _).mpr
        rw [clean.oneCandidate _ _ leftId rightId leftOffered rightOffered rfl rfl aligned]
  refine ⟨lastSame, fun vote above => ?_⟩
  exact (leftLoaded.certified vote above).trans ((or_congr_right (same vote)).trans
    (rightLoaded.certified vote (firstSame ▸ above)).symm)

lemma loadCertificates_isStarted (result : pool.loadCertificates bus certs = .ok next) : next.isStarted = pool.isStarted := by
  refine loadCertificates_handled (·.isStarted = pool.isStarted) (fun _ handled same => ?_) rfl result
  obtain ⟨stored, _, stores, update, _, resolves⟩ := handleSavedCertificate_cases handled
  rw [resolves.frame.isStarted, update.isStarted, (broadcastCertificate_sameChain stored _).isStarted, stores.rest, same]

def SameEntry (left right : Certificate n) : Prop :=
  left.vote.referencedSlot = right.vote.referencedSlot ∧ left.vote.kind = right.vote.kind

lemma loadCertificates_total (bus : Bus n) (follows : pool.Follows pool.view) (regular : Regular (pool.Offered certs))
    (distinct : certs.Pairwise fun left right => ¬ SameEntry left right)
    (absent : ∀ cert ∈ certs, pool.certAt cert.vote.referencedSlot cert.vote.kind = none) :
    ∃ next, pool.loadCertificates bus certs = .ok next := by
  induction certs generalizing pool with
  | nil => exact ⟨pool, rfl⟩
  | cons cert rest ih =>
    rw [pairwise_cons] at distinct
    simp only [loadCertificates]
    split
    · exact ih follows (regular.subset fun vote => Offered.rest) distinct.2 (forall_mem_cons.mp absent).2
    next state tracked =>
      obtain ⟨middle, handled, middleFollows, _⟩ := handleSavedCertificate_follows bus follows (follows.above tracked)
        (absent cert mem_cons_self) (regular.subset fun vote => Offered.certify)
      have viewEq := middleFollows.view_eq
      obtain ⟨next, result⟩ := ih (by rwa [viewEq])
        (regular.subset fun vote => Offered.of_handled handled) distinct.2
        (fun other member => by
          obtain ⟨stored, _, stores, update, _, resolves⟩ := handleSavedCertificate_cases handled
          rw [resolves.frame.certAt, update.certAt, (broadcastCertificate_sameChain stored _).certAt, stores.certAt, if_neg]
          · exact absent other (mem_cons_of_mem _ member)
          · rintro ⟨slotSame, kindSame⟩
            exact distinct.1 other member ⟨slotSame.symm, kindSame.symm⟩)
      exact ⟨next, bind_eq_ok.mpr ⟨middle, handled, result⟩⟩

/-- Certificates that do not conflict lead to the same chain bookkeeping in
whatever order they are handed to the pool. -/
theorem certificates_order_independent (run : Run bus log pool) {left right : List (Certificate n)} (perm : left.Perm right)
    (clean : ConflictFree fun vote => pool.Holds vote ∨ ∃ cert ∈ left, cert.vote = vote)
    (below : ∀ vote, (pool.Holds vote ∨ ∃ cert ∈ left, cert.vote = vote) → vote.referencedSlot + 1 < 2 ^ 32) :
    (∀ leftPool rightPool, pool.loadCertificates bus left = .ok leftPool → pool.loadCertificates bus right = .ok rightPool →
      leftPool.now = rightPool.now ∧
      leftPool.firstNonfinalizedSlot = rightPool.firstNonfinalizedSlot ∧
      leftPool.lastFinalizedBlock = rightPool.lastFinalizedBlock ∧
      leftPool.skipIntervals = rightPool.skipIntervals ∧
      ∀ slot, leftPool.state.firstNonFinalizedSlot ≤ slot → (leftPool.state.slots slot).isSkipped = false →
        (leftPool.state.slots slot).availableBase = (rightPool.state.slots slot).availableBase) ∧
    ((left.Pairwise fun first second => ¬ SameEntry first second) →
      (∀ cert ∈ left, pool.certAt cert.vote.referencedSlot cert.vote.kind = none) →
      (∃ leftPool, pool.loadCertificates bus left = .ok leftPool) ∧
        ∃ rightPool, pool.loadCertificates bus right = .ok rightPool) := by
  have leftRegular : Regular (pool.Offered left) := ⟨clean, below⟩
  have follows := run.follows (leftRegular.subset fun vote held => .inl held)
  have same : ∀ vote, (∃ cert ∈ left, cert.vote = vote) ↔ ∃ cert ∈ right, cert.vote = vote :=
    fun vote => by simp only [perm.mem_iff]
  have rightRegular : Regular (pool.Offered right) := leftRegular.subset fun vote offered => offered.imp_right (same vote).mpr
  refine ⟨?_, ?_⟩
  · intro leftPool rightPool leftResult rightResult
    have leftLoaded := loadCertificates_loaded follows leftRegular leftResult
    have rightLoaded := loadCertificates_loaded follows rightRegular rightResult
    have agree := leftLoaded.agree follows clean same rightLoaded
    have leftMatched := leftLoaded.follows.matched
    have rightMatched := rightLoaded.follows.matched
    refine ⟨?_, ?_, agree.lastFinalized, ?_, ?_⟩
    · have leftStarted := loadCertificates_isStarted leftResult
      have rightStarted := loadCertificates_isStarted rightResult
      cases started : pool.isStarted with
      | true =>
        rw [started] at leftStarted rightStarted
        exact agree.isPresent_unique (leftMatched.present leftStarted) (rightMatched.present rightStarted)
      | false =>
        rw [started] at leftStarted rightStarted
        rw [leftMatched.waiting leftStarted, rightMatched.waiting rightStarted, agree.first]
    · rw [leftMatched.aligned, rightMatched.aligned, agree.first]
    · have rightEnds := rightMatched.ends
      rw [← agree.first] at rightEnds
      exact leftMatched.ends.unique rightEnds fun slot above => agree.skipped above
    · intro slot tracked notSkipped
      rw [leftMatched.dropped] at tracked
      rw [← Bool.not_eq_true, leftLoaded.follows.stores.isSkipped_iff] at notSkipped
      have rightTracked : rightPool.view.first ≤ slot := agree.first ▸ tracked
      have rightNotSkipped : ¬ rightPool.view.Skipped slot := fun skipped =>
        notSkipped ((agree.skipped tracked).mpr skipped)
      refine Option.ext fun parent => ?_
      rw [leftMatched.bases slot tracked notSkipped parent, agree.isBase,
        rightMatched.bases slot rightTracked rightNotSkipped parent]
  · intro distinct absent
    refine ⟨loadCertificates_total bus follows leftRegular distinct absent, loadCertificates_total bus follows rightRegular ?_ ?_⟩
    · exact distinct.perm perm fun {first second} different sameEntry =>
        different ⟨sameEntry.1.symm, sameEntry.2.symm⟩
    · exact fun cert member => absent cert (perm.mem_iff.mpr member)

theorem solo_certificates_order_independent : ∃ leftPool rightPool,
      (soloPool soloVotes).loadCertificates soloBus [soloCert (.notarize ⟨2, 9⟩), soloCert (.skip 3)] = .ok leftPool ∧
      (soloPool soloVotes).loadCertificates soloBus [soloCert (.skip 3), soloCert (.notarize ⟨2, 9⟩)] = .ok rightPool ∧
      leftPool.now = rightPool.now ∧ leftPool.skipIntervals = rightPool.skipIntervals := by
  obtain ⟨_, run, only⟩ := solo_run soloVotes solo_starts
  have clean : ConflictFree fun vote => (soloPool soloVotes).Holds vote ∨
      ∃ cert ∈ [soloCert (.notarize ⟨2, 9⟩), soloCert (.skip 3)], cert.vote = vote := by
    refine .of_list [.skip 1, .notarize ⟨0, 7⟩, .notarize ⟨2, 9⟩, .skip 3] ?_ (by decide) (by decide)
    rintro vote (held | ⟨cert, member, rfl⟩)
    · exact mem_append_left [.notarize ⟨2, 9⟩, .skip 3] (only vote held)
    · simp only [mem_cons, not_mem_nil, or_false] at member
      rcases member with rfl | rfl <;> simp [soloCert]
  have below : ∀ vote, ((soloPool soloVotes).Holds vote ∨
      ∃ cert ∈ [soloCert (.notarize ⟨2, 9⟩), soloCert (.skip 3)], cert.vote = vote) → vote.referencedSlot + 1 < 2 ^ 32 := by
    rintro vote (held | ⟨cert, member, rfl⟩)
    · exact solo_below vote held
    · simp only [mem_cons, not_mem_nil, or_false] at member
      rcases member with rfl | rfl <;> simp [soloCert]
  obtain ⟨agree, complete⟩ := certificates_order_independent run (List.Perm.swap _ _ []) clean below
  obtain ⟨⟨leftPool, left⟩, rightPool, right⟩ := complete (by simp [SameEntry, soloCert, Vote.kind]) (by decide +kernel)
  have same := agree leftPool rightPool left right
  exact ⟨leftPool, rightPool, left, right, same.1, same.2.2.2.1⟩

/-- With a notarization of the last slot the order matters: handled behind a finalization of slot
`0`, it looks up a slot that is gone. -/
theorem solo_order_with_last_slot :
    (∃ log, Run soloBus log (soloPool [])) ∧
      ConflictFree (fun vote => (soloPool []).Holds vote ∨
        ∃ cert ∈ [soloCert (.finalize ⟨0, 7⟩), soloCert (.notarize ⟨2 ^ 32 - 1, 9⟩)], cert.vote = vote) ∧
      (soloPool []).loadCertificates soloBus [soloCert (.finalize ⟨0, 7⟩), soloCert (.notarize ⟨2 ^ 32 - 1, 9⟩)] =
        .error .slotTracked ∧
      ∃ pool, (soloPool []).loadCertificates soloBus
        [soloCert (.notarize ⟨2 ^ 32 - 1, 9⟩), soloCert (.finalize ⟨0, 7⟩)] = .ok pool := by
  obtain ⟨log, run, only⟩ := solo_run [] (by decide +kernel)
  refine ⟨⟨log, run⟩, .of_list [.finalize ⟨0, 7⟩, .notarize ⟨2 ^ 32 - 1, 9⟩] ?_ (by decide) (by decide), rfl, _, rfl⟩
  rintro vote (held | ⟨cert, member, rfl⟩)
  · cases only vote held
  · simp only [mem_cons, not_mem_nil, or_false] at member
    rcases member with rfl | rfl <;> simp [soloCert]

/-- The skip intervals end the maximal runs of skipped slots, and lead from every tracked slot
to the next one that is not skipped. -/
theorem skip_intervals_exact (run : Run bus log pool) (clean : ConflictFree pool.Holds)
    (below : ∀ vote, pool.Holds vote → vote.referencedSlot + 1 < 2 ^ 32) :
    (∀ stop, stop ∈ pool.skipIntervals ↔
      ∃ last, stop = last + 1 ∧
        pool.state.firstNonFinalizedSlot ≤ last ∧
        (pool.state.slots last).isSkipped = true ∧
        ¬ (pool.state.slots (last + 1)).isSkipped = true) ∧
    ∀ slot, pool.state.firstNonFinalizedSlot ≤ slot → slot + 1 < 2 ^ 32 →
      ∃ stop, pool.nextNonskippedSlotAfter slot = .ok stop ∧
        IsNext (fun other => (pool.state.slots other).isSkipped = true) slot stop := by
  have follows := run.follows ⟨clean, below⟩
  have agree := follows.stores.isSkipped_iff
  have ends := follows.matched.ends.congr agree
  rw [← follows.matched.dropped] at ends
  have bounded : ∀ number, pool.state.trackedEnd ≤ number → ¬ (pool.state.slots number).isSkipped = true := by
    intro number beyond skipped
    exact (follows.stores.open_of_untouched beyond).2 ((agree number).mp skipped)
  exact ⟨ends, fun slot tracked slotBelow =>
    nextNonskippedSlotAfter_spec ends slotBelow (by omega) (by omega) Iff.rfl bounded⟩

theorem solo_skip_intervals_exact : 2 ∈ (soloPool soloVotes).skipIntervals ∧ ∃ stop, (soloPool soloVotes).nextNonskippedSlotAfter 0 = .ok stop ∧
    IsNext (fun other => ((soloPool soloVotes).state.slots other).isSkipped = true) 0 stop := by
  obtain ⟨_, run, _⟩ := solo_run soloVotes solo_starts
  obtain ⟨ends, found⟩ := skip_intervals_exact run solo_clean solo_below
  exact ⟨(ends 2).mpr ⟨1, by decide +kernel⟩, found 0 (by decide +kernel) (by decide)⟩

/-- Finalizing the last slot empties `skip_intervals_`, although no slot is dropped. -/
theorem solo_intervals_after_last_slot :
    let pool := soloPool [.skip 3, .finalize ⟨2 ^ 32 - 1, 9⟩]
    (∃ log, Run soloBus log pool) ∧
      ConflictFree pool.Holds ∧
      4 ∉ pool.skipIntervals ∧
      pool.state.firstNonFinalizedSlot ≤ 3 ∧
      (pool.state.slots 3).isSkipped = true ∧
      ¬ (pool.state.slots 4).isSkipped = true ∧
      pool.nextNonskippedSlotAfter 2 = .error .skipIntervalPresent := by
  intro pool
  obtain ⟨log, run, only⟩ := solo_run [.skip 3, .finalize ⟨2 ^ 32 - 1, 9⟩] (by decide +kernel)
  exact ⟨⟨log, run⟩, .of_list _ only (by decide) (by decide), by decide +kernel⟩

end Pool

end TonNode.Simplex
