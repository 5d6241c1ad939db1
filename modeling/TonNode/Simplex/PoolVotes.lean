import TonNode.Simplex.PoolChain

/-!
# Votes and new certificates leave the chain alone

Collecting votes and starting to save a certificate change nothing the chain
bookkeeping reads. Only a saved certificate does.
-/

namespace TonNode.Simplex

open Consensus Lib ConsensusState
open List hiding lookup

variable {n : Nat}

namespace Pool

variable {pool next : Pool n} {view : ChainView} {request : Request n} {fuel index : Nat} {candidate : Candidate n}

section

variable (matched : pool.Matches view) (stores : pool.Stores view.certified)
include matched stores

lemma parentStatus_spec {parent : ParentId}
    (above : view.first ≤ nextSlotAfterParent parent) : (view.Source parent ∧ pool.parentStatus parent = .ok .suitable) ∨
    ((∃ other, view.Source other ∧ nextSlotAfterParent other = nextSlotAfterParent parent ∧
        other ≠ parent) ∧ pool.parentStatus parent = .ok .conflicting) ∨
    ((∀ other, view.Source other → nextSlotAfterParent other ≠ nextSlotAfterParent parent) ∧
      pool.parentStatus parent = .ok .unknown) := by
  have lastNext : nextSlotAfterParent view.lastFinalized = view.first := rfl
  by_cases adjacent : nextSlotAfterParent parent = view.first
  · by_cases same : view.lastFinalized = parent
    · refine .inl ⟨.inl same.symm, ?_⟩
      simp [parentStatus, matched.aligned, matched.last, adjacent, same]
    · refine .inr (.inl ⟨⟨view.lastFinalized, .inl rfl, lastNext.trans adjacent.symm, same⟩, ?_⟩)
      have positive : view.first ≠ 0 := by
        intro zero
        rw [zero] at adjacent lastNext
        cases parent with
        | some id => simp at adjacent
        | none =>
          cases last : view.lastFinalized with
          | some id => simp [last] at lastNext
          | none => exact same last
      simp [parentStatus, matched.aligned, matched.last, adjacent, same, positive]
  · cases parent with
    | none =>
      simp only [nextSlotAfterParent_none] at above adjacent
      omega
    | some id =>
      simp only [nextSlotAfterParent_some] at above adjacent ⊢
      have tracked : pool.state.firstNonFinalizedSlot ≤ id.slot := by
        rw [matched.dropped]
        omega
      by_cases notarized : (pool.state.slots id.slot).isNotarized = true
      · obtain ⟨other, located, held⟩ := (stores.isNotarized_iff id.slot).mp notarized
        have block := stores.notarizedBlock_of_notarized held
        rw [located] at block
        by_cases same : other = id
        · subst same
          refine .inl ⟨.inr ⟨other, rfl, held, by omega⟩, ?_⟩
          simp [parentStatus, matched.aligned, adjacent, slotRef_of_le tracked, notarized, block]
        · refine .inr (.inl ⟨⟨some other, .inr ⟨other, rfl, held, by omega⟩, by simp [located], by simpa using same⟩, ?_⟩)
          simp [parentStatus, matched.aligned, adjacent, slotRef_of_le tracked, notarized, block, same]
      · refine .inr (.inr ⟨?_, ?_⟩)
        · rintro other (rfl | ⟨otherId, rfl, held, _⟩) aligned
          · omega
          · simp only [nextSlotAfterParent_some, Nat.add_right_cancel_iff] at aligned
            exact notarized ((stores.isNotarized_iff id.slot).mpr ⟨otherId, aligned, held⟩)
        · simp [parentStatus, matched.aligned, adjacent, slotRef_of_le tracked, notarized]

/-- The interval lookup decides whether all slots up to `slot` are skipped. -/
lemma skippedUntil_spec {start slot : Nat} (above : view.first ≤ start) (before : start ≤ slot) :
    ∃ reached, pool.skippedUntil start slot = .ok reached ∧
      (reached = true ↔ ∀ other, start ≤ other → other < slot → view.Skipped other) := by
  by_cases adjacent : start = slot
  · exact ⟨true, by simp [skippedUntil, adjacent], by simp; omega⟩
  have tracked : pool.state.firstNonFinalizedSlot ≤ start := by
    rw [matched.dropped]
    exact above
  have skipped_iff : (pool.state.slots start).isSkipped = true ↔ view.Skipped start := stores.isSkipped_iff start
  by_cases skipped : (pool.state.slots start).isSkipped = true
  · obtain ⟨stop, found, isNext⟩ := matched.ends.lowerBound_of_marked above
      (skipped_iff.mp skipped) fun number beyond => (stores.open_of_untouched beyond).2
    refine ⟨decide (stop ≥ slot), ?_, ?_⟩
    · simp [skippedUntil, adjacent, slotRef_of_le tracked, skipped, found]
    · rw [decide_eq_true_iff]
      constructor
      · intro reaches other after below
        rcases Nat.eq_or_lt_of_le after with rfl | later
        · exact skipped_iff.mp skipped
        · exact isNext.between other later (by omega)
      · intro all
        by_contra short
        exact isNext.unmarked (all stop (Nat.le_of_lt isNext.after) (by omega))
  · refine ⟨false, ?_, ?_⟩
    · simp [skippedUntil, adjacent, slotRef_of_le tracked, skipped]
    · rw [skipped_iff] at skipped
      simp only [Bool.false_eq_true, false_iff]
      intro all
      exact skipped (all start (Nat.le_refl _) (by omega))

lemma maybeResolveRequest_spec
    (clean : ConflictFree view.certified)
    (before : nextSlotAfterParent request.parent ≤ request.id.slot) :
    (request.id.slot < view.first ∧ pool.maybeResolveRequest request =
      .ok (some (.error "Candidate's slot is already finalized"))) ∨
    (view.Contradicts request.id request.parent ∧ pool.maybeResolveRequest request =
      .ok (some (.misbehavior .conflictingCandidateAndCertificate))) ∨
    (view.Extends request.id request.parent ∧ pool.maybeResolveRequest request = .ok (some .noMisbehavior)) ∨
    (view.first ≤ request.id.slot ∧ ¬ view.Contradicts request.id request.parent ∧
      ¬ view.Extends request.id request.parent ∧ pool.maybeResolveRequest request = .ok none) := by
  by_cases finalized : request.id.slot < view.first
  · refine .inl ⟨finalized, ?_⟩
    simp [maybeResolveRequest, matched.aligned, finalized]
  have notFinalized : view.first ≤ request.id.slot := by omega
  by_cases old : nextSlotAfterParent request.parent < view.first
  · refine .inr (.inl ⟨⟨notFinalized, .inl old⟩, ?_⟩)
    simp [maybeResolveRequest, matched.aligned, finalized, old]
  have above : view.first ≤ nextSlotAfterParent request.parent := by omega
  have tracked : pool.state.firstNonFinalizedSlot ≤ request.id.slot := by
    rw [matched.dropped]
    exact notFinalized
  have opposed_iff : ((pool.state.slots request.id.slot).notarizedBlock.isSome ∧
      (pool.state.slots request.id.slot).notarizedBlock ≠ some request.id) ↔
      ∃ other, view.certified (.notarize other) ∧ other.slot = request.id.slot ∧
        other ≠ request.id := by
    constructor
    · rintro ⟨present, different⟩
      obtain ⟨other, found⟩ := Option.isSome_iff_exists.mp present
      obtain ⟨located, held⟩ := stores.notarizedBlock_eq_some found
      rw [found] at different
      refine ⟨other, held.resolve_right fun final => ?_, located, by simpa using different⟩
      have below := matched.finals other final
      omega
    · rintro ⟨other, held, located, different⟩
      have block := stores.notarizedBlock_of_notarized held
      rw [located] at block
      simp [block, different]
  by_cases opposed : (pool.state.slots request.id.slot).notarizedBlock.isSome ∧
      (pool.state.slots request.id.slot).notarizedBlock ≠ some request.id
  · refine .inr (.inl ⟨⟨notFinalized, .inr (.inl (opposed_iff.mp opposed))⟩, ?_⟩)
    simp only [maybeResolveRequest, matched.aligned, finalized, old, if_false, slotRef_of_le tracked, ok_bind]
    rw [if_pos opposed]
  have reduced : pool.maybeResolveRequest request = pool.resolveByParent request := by
    simp only [maybeResolveRequest, matched.aligned, finalized, old, if_false, slotRef_of_le tracked, ok_bind]
    rw [if_neg opposed]
  have unopposed : ∀ other, view.certified (.notarize other) → other.slot = request.id.slot →
      other = request.id := by
    intro other held located
    by_contra different
    exact opposed (opposed_iff.mpr ⟨other, held, located, different⟩)
  rw [reduced, resolveByParent]
  rcases parentStatus_spec matched stores above with
    ⟨source, status⟩ | ⟨conflict, status⟩ | ⟨absent, status⟩
  · obtain ⟨reached, lookup, reached_iff⟩ := skippedUntil_spec matched stores above before
    cases reached with
    | true =>
      exact .inr (.inr (.inl ⟨⟨notFinalized, unopposed, source, reached_iff.mp rfl⟩, by simp [status, lookup]⟩))
    | false =>
      refine .inr (.inr (.inr ⟨notFinalized, ?_, fun extends_ => ?_, by simp [status, lookup]⟩))
      · rintro ⟨_, below | ⟨other, held, located, different⟩ | ⟨other, otherSource, aligned, different⟩⟩
        · omega
        · exact different (unopposed other held located)
        · exact different (otherSource.eq_of_next_eq clean source aligned)
      · exact absurd (reached_iff.mpr extends_.skipped) (by simp)
  · exact .inr (.inl ⟨⟨notFinalized, .inr (.inr conflict)⟩, by simp [status]⟩)
  · refine .inr (.inr (.inr ⟨notFinalized, ?_, fun extends_ => absent _ extends_.source rfl, by simp [status]⟩))
    rintro ⟨_, below | ⟨other, held, located, different⟩ | ⟨other, otherSource, aligned, _⟩⟩
    · omega
    · exact different (unopposed other held located)
    · exact absent other otherSource aligned

end

/-- Every request is either kept, because it cannot be answered yet, or removed
and answered. -/
structure Resolves (pool next : Pool n) : Prop where
  kept : ∀ request ∈ next.requests, pool.maybeResolveRequest request = .ok none
  answered : ∃ resolved : List (Request n × ParentAnswer n),
    next = { pool with
      requests := next.requests
      published := pool.published ++ resolved.map fun entry => .parentResolved entry.1 entry.2 } ∧
    (∀ entry ∈ resolved, pool.maybeResolveRequest entry.1 = .ok (some entry.2)) ∧
    (resolved.map (·.1) ++ next.requests).Perm pool.requests

lemma Resolves.frame (resolves : Resolves pool next) : Frame pool next := by
  obtain ⟨_, resolved, same, _, _⟩ := resolves
  rw [same]
  refine .of_state_eq rfl rfl rfl rfl rfl rfl ?_
  intro event member
  obtain ⟨entry, _, rfl⟩ := mem_map.mp member
  rfl

lemma Resolves.bookkeeping (resolves : Resolves pool next) :
    announcedWindows next.published = announcedWindows pool.published ∧ next.now = pool.now ∧
      next.firstNonannouncedWindow = pool.firstNonannouncedWindow := by
  obtain ⟨_, resolved, same, _, _⟩ := resolves
  rw [same]
  refine ⟨?_, rfl, rfl⟩
  simp [announcedWindows]

lemma Resolves.refl_of_checked (checked : ∀ request ∈ pool.requests, pool.maybeResolveRequest request = .ok none) :
    Resolves pool pool :=
  ⟨checked, [], by simp, by simp, by simp⟩

lemma Resolves.answer {index : Nat} {answer : ParentAnswer n}
    (found : pool.requests[index]? = some request)
    (resolvedAs : pool.maybeResolveRequest request = .ok (some answer))
    (rest : Resolves (({ pool with requests := swapRemove pool.requests index } : Pool n).publish
      (.parentResolved request answer)) next) : Resolves pool next := by
  obtain ⟨kept, resolved, same, answered, perm⟩ := rest
  refine ⟨kept, (request, answer) :: resolved, ?_, ?_, ?_⟩
  · rw [same]
    simp [publish]
  · intro entry member
    rcases mem_cons.mp member with rfl | later
    · exact resolvedAs
    · exact answered entry later
  · exact (perm.cons request).trans (perm_swapRemove found)

lemma resolveFrom_resolves (checked : ∀ request ∈ pool.requests.take index, pool.maybeResolveRequest request = .ok none)
    (enough : pool.requests.length ≤ index + fuel) (result : pool.resolveFrom fuel index = .ok next) : Resolves pool next := by
  induction fuel generalizing pool index with
  | zero =>
    cases result
    rw [take_of_length_le (by omega)] at checked
    exact .refl_of_checked checked
  | succ fuel ih =>
    simp only [resolveFrom] at result
    split at result
    next absent =>
      cases result
      rw [take_of_length_le (getElem?_eq_none_iff.mp absent)] at checked
      exact .refl_of_checked checked
    next request found =>
      obtain ⟨answer, resolvedAs, result⟩ := bind_eq_ok.mp result
      cases answer with
      | none =>
        refine ih ?_ (by omega) result
        intro other member
        rw [take_add_one, found, Option.toList_some, mem_append, mem_singleton] at member
        rcases member with before | rfl
        · exact checked other before
        · exact resolvedAs
      | some answer =>
        refine Resolves.answer found resolvedAs (ih ?_ ?_ result)
        · intro other member
          exact checked other (mem_take_swapRemove member)
        · have shorter := length_swapRemove pool.requests index
          simp only [publish, shorter]
          omega

lemma maybeResolveRequests_resolves (result : pool.maybeResolveRequests = .ok next) : Resolves pool next :=
  resolveFrom_resolves (by simp) (by simp) result

lemma processWaitForParent_cases
    (result : pool.processWaitForParent candidate = .ok next) :
    nextSlotAfterParent candidate.parentId ≤ candidate.id.slot ∧
    ((pool.maybeResolveRequest (.ofCandidate pool.nextPromise candidate) = .ok none ∧
        next = { pool with
          requests := pool.requests ++ [.ofCandidate pool.nextPromise candidate]
          nextPromise := pool.nextPromise + 1 }) ∨
      ∃ answer,
        pool.maybeResolveRequest (.ofCandidate pool.nextPromise candidate) = .ok (some answer) ∧
        next = { pool with
          nextPromise := pool.nextPromise + 1
          published := pool.published ++
            [.parentResolved (.ofCandidate pool.nextPromise candidate) answer] }) := by
  simp only [processWaitForParent] at result
  split at result
  next before =>
    obtain ⟨answer, resolvedAs, result⟩ := bind_eq_ok.mp result
    refine ⟨(all_slot_lt_iff _ _).mp before, ?_⟩
    cases answer with
    | none =>
      cases result
      exact .inl ⟨resolvedAs, rfl⟩
    | some answer =>
      cases result
      exact .inr ⟨answer, resolvedAs, by simp [publish]⟩
  next => cases result

lemma processWaitForParent_frame (result : pool.processWaitForParent candidate = .ok next) : Frame pool next := by
  obtain ⟨_, ⟨_, rfl⟩ | ⟨answer, _, rfl⟩⟩ := processWaitForParent_cases result
  · exact .of_state_eq rfl rfl rfl rfl rfl (append_nil _).symm (by simp)
  · exact .of_state_eq rfl rfl rfl rfl rfl rfl (by simp [Published.isBookkeeping])

lemma resolveFrom_total (total : ∀ request ∈ pool.requests, ∃ answer, pool.maybeResolveRequest request = .ok answer) :
    ∃ next, pool.resolveFrom fuel index = .ok next := by
  induction fuel generalizing pool index with
  | zero => exact ⟨pool, rfl⟩
  | succ fuel ih =>
    simp only [resolveFrom]
    cases found : pool.requests[index]? with
    | none => exact ⟨pool, rfl⟩
    | some request =>
      obtain ⟨answer, resolvedAs⟩ := total request (mem_of_getElem? found)
      simp only [resolvedAs, ok_bind]
      cases answer with
      | none => exact ih total
      | some answer =>
        refine ih fun other member => total other ?_
        exact (perm_swapRemove found).subset (mem_cons_of_mem _ member)

end Pool

variable {event : Published n}

/-- Events that neither accuse a validator nor save a certificate. -/
def Published.isQuiet : Published n → Bool
  | .saveCertificate _ => false
  | .misbehaviorReport _ _ => false
  | _ => true

lemma Published.isQuiet_of_isBookkeeping (bookkeeping : event.isBookkeeping = true) : event.isQuiet = true := by
  cases event <;> simp_all [isBookkeeping, isQuiet]

namespace Pool

/-- `next` has the certificates and the bookkeeping of `pool`. -/
structure SameChain (pool next : Pool n) : Prop where
  certAt : ∀ slot kind, next.certAt slot kind = pool.certAt slot kind
  base : ∀ slot, (next.state.slots slot).availableBase = (pool.state.slots slot).availableBase
  dropped : next.state.firstNonFinalizedSlot = pool.state.firstNonFinalizedSlot
  trackedEnd : pool.state.trackedEnd ≤ next.state.trackedEnd
  aligned : next.firstNonfinalizedSlot = pool.firstNonfinalizedSlot
  last : next.lastFinalizedBlock = pool.lastFinalizedBlock
  isStarted : next.isStarted = pool.isStarted
  now : next.now = pool.now
  skipIntervals : next.skipIntervals = pool.skipIntervals
  window : next.firstNonannouncedWindow = pool.firstNonannouncedWindow
  requests : next.requests = pool.requests
  nextPromise : next.nextPromise = pool.nextPromise
  answers : answers next.published = answers pool.published
  windows : announcedWindows next.published = announcedWindows pool.published

namespace SameChain

variable {pool middle next : Pool n} {view : ChainView} {certified : Vote → Prop}

lemma trans (first : SameChain pool middle) (second : SameChain middle next) : SameChain pool next where
  certAt slot kind := (second.certAt slot kind).trans (first.certAt slot kind)
  base slot := (second.base slot).trans (first.base slot)
  dropped := second.dropped.trans first.dropped
  trackedEnd := Nat.le_trans first.trackedEnd second.trackedEnd
  aligned := second.aligned.trans first.aligned
  last := second.last.trans first.last
  isStarted := second.isStarted.trans first.isStarted
  now := second.now.trans first.now
  skipIntervals := second.skipIntervals.trans first.skipIntervals
  window := second.window.trans first.window
  requests := second.requests.trans first.requests
  nextPromise := second.nextPromise.trans first.nextPromise
  answers := second.answers.trans first.answers
  windows := second.windows.trans first.windows

lemma modifySlot (pool : Pool n) (slot : Nat) {update : SlotState n → SlotState n}
    (certs : ∀ state kind, ((update state).certs.entry kind).cert = (state.certs.entry kind).cert)
    (base : ∀ state, (update state).availableBase = state.availableBase) : SameChain pool (pool.modifySlot slot update) where
  certAt other kind := modifySlot_kept (fun state => (state.certs.entry kind).cert) (certs _ kind) other
  base := modifySlot_kept SlotState.availableBase (base _)
  dropped := rfl
  trackedEnd := Nat.le_max_left _ _
  aligned := rfl
  last := rfl
  isStarted := rfl
  now := rfl
  skipIntervals := rfl
  window := rfl
  requests := rfl
  nextPromise := rfl
  answers := rfl
  windows := rfl

lemma of_eq (state : next.state = pool.state) (aligned : next.firstNonfinalizedSlot =
      pool.firstNonfinalizedSlot) (last : next.lastFinalizedBlock = pool.lastFinalizedBlock)
    (isStarted : next.isStarted = pool.isStarted) (now : next.now = pool.now)
    (skipIntervals : next.skipIntervals = pool.skipIntervals)
    (window : next.firstNonannouncedWindow = pool.firstNonannouncedWindow)
    (requests : next.requests = pool.requests) (nextPromise : next.nextPromise = pool.nextPromise)
    (answers : Simplex.answers next.published = Simplex.answers pool.published)
    (windows : announcedWindows next.published = announcedWindows pool.published) : SameChain pool next where
  certAt slot kind := by rw [Pool.certAt, state, Pool.certAt]
  base slot := by rw [state]
  dropped := by rw [state]
  trackedEnd := by rw [state]
  aligned := aligned
  last := last
  isStarted := isStarted
  now := now
  skipIntervals := skipIntervals
  window := window
  requests := requests
  nextPromise := nextPromise
  answers := answers
  windows := windows

lemma refl (pool : Pool n) : SameChain pool pool :=
  .of_eq rfl rfl rfl rfl rfl rfl rfl rfl rfl rfl rfl

lemma publish (pool : Pool n) (noAnswer : event.answer? = none)
    (noWindow : announcedWindows [event] = []) : SameChain pool (pool.publish event) :=
  .of_eq rfl rfl rfl rfl rfl rfl rfl rfl rfl (by simp [Pool.publish, Simplex.answers, noAnswer])
    (by simp [Pool.publish, noWindow])

lemma keeps (same : SameChain pool next) (keeps : pool.Keeps certified) : next.Keeps certified where
  typed slot kind cert found := keeps.typed slot kind cert (by rwa [← same.certAt])
  held vote := by
    rw [← keeps.held]
    simp only [Holds, same.certAt]

lemma stores (same : SameChain pool next) (stores : pool.Stores certified) : next.Stores certified where
  toKeeps := same.keeps stores.toKeeps
  untouched slot kind beyond := by
    rw [same.certAt]
    exact stores.untouched slot kind (Nat.le_trans same.trackedEnd beyond)

lemma settled (same : SameChain pool next) (settled : pool.Settled view) : next.Settled view where
  dropped := same.dropped.trans settled.dropped
  aligned := same.aligned.trans settled.aligned
  last := same.last.trans settled.last
  finals := settled.finals
  lastCertified := settled.lastCertified
  ends := by
    rw [same.skipIntervals]
    exact settled.ends
  bases slot notFinalized notSkipped := by
    rw [same.base]
    exact settled.bases slot notFinalized notSkipped

lemma matched (same : SameChain pool next) (matched : pool.Matches view) : next.Matches view where
  toSettled := same.settled matched.toSettled
  present started := by
    rw [same.now]
    exact matched.present (same.isStarted.symm.trans started)
  waiting notStarted := by
    rw [same.now]
    exact matched.waiting (same.isStarted.symm.trans notStarted)

end SameChain

/-- Neither the chain nor the coroutines at the keyring change. -/
structure Collects (pool next : Pool n) : Prop extends SameChain pool next where
  ourVotes : next.ourVotes = pool.ourVotes

namespace Collects

variable {pool middle next : Pool n}

lemma refl (pool : Pool n) : Collects pool pool := ⟨.refl _, rfl⟩

lemma trans (first : Collects pool middle) (second : Collects middle next) : Collects pool next :=
  ⟨first.toSameChain.trans second.toSameChain, second.ourVotes.trans first.ourVotes⟩

end Collects

/-- Votes, weights, certificates and the coroutines saving them stay the same. -/
structure Quiet (pool next : Pool n) : Prop where
  votes : ∀ slot, (next.state.slots slot).votes = (pool.state.slots slot).votes
  certs : ∀ slot, (next.state.slots slot).certs = (pool.state.slots slot).certs
  weights : ∀ slot vote, (next.state.slots slot).weightOf vote = (pool.state.slots slot).weightOf vote
  saving : next.saving = pool.saving
  notEarlier : pool.state.firstNonFinalizedSlot ≤ next.state.firstNonFinalizedSlot
  published : ∃ events, next.published = pool.published ++ events ∧ ∀ event ∈ events, event.isQuiet = true

variable {bus : Bus n} {signs : Fin n → Vote → BufferSlice → Prop} {pool middle next : Pool n}

namespace Quiet

lemma of_eq (state : next.state = pool.state) (saving : next.saving = pool.saving)
    {events : List (Published n)} (published : next.published = pool.published ++ events)
    (quiet : ∀ event ∈ events, event.isQuiet = true) : Quiet pool next where
  votes _ := by rw [state]
  certs _ := by rw [state]
  weights _ _ := by rw [state]
  saving := saving
  notEarlier := by rw [state]
  published := ⟨events, published, quiet⟩

lemma silent (state : next.state = pool.state) (saving : next.saving = pool.saving)
    (published : next.published = pool.published) : Quiet pool next :=
  .of_eq state saving (published.trans (append_nil _).symm) (by simp)

lemma refl (pool : Pool n) : Quiet pool pool := .silent rfl rfl rfl

lemma publish (pool : Pool n) (quiet : event.isQuiet = true) : Quiet pool (pool.publish event) :=
  .of_eq rfl rfl rfl (by simpa using quiet)

lemma trans (first : Quiet pool middle) (second : Quiet middle next) : Quiet pool next where
  votes slot := (second.votes slot).trans (first.votes slot)
  certs slot := (second.certs slot).trans (first.certs slot)
  weights slot vote := (second.weights slot vote).trans (first.weights slot vote)
  saving := second.saving.trans first.saving
  notEarlier := Nat.le_trans first.notEarlier second.notEarlier
  published := by
    obtain ⟨early, earlyPublished, earlyQuiet⟩ := first.published
    obtain ⟨late, latePublished, lateQuiet⟩ := second.published
    exact ⟨early ++ late, by rw [latePublished, earlyPublished, append_assoc],
      forall_mem_append.mpr ⟨earlyQuiet, lateQuiet⟩⟩

lemma setVotes (pool : Pool n) (slot : Nat) (validator : Fin n) : Quiet pool (pool.modifySlot slot
      (·.setVotes validator ((pool.state.slots slot).votes validator))) where
  votes := modifySlot_kept SlotState.votes (by simp [SlotState.setVotes])
  certs := modifySlot_kept SlotState.certs rfl
  weights other vote := modifySlot_kept (SlotState.weightOf · vote) (by cases vote <;> rfl) other
  saving := rfl
  notEarlier := Nat.le_refl _
  published := ⟨[], by simp [modifySlot], by simp⟩

end Quiet

/-- The effect of `handle_certificate` on a wanted certificate. -/
def beginSaving (pool : Pool n) (cert : Certificate n) : Pool n :=
  { pool with
    state := pool.state.modifySlot cert.vote.referencedSlot fun state =>
      { state with certs := state.certs.markSaving cert.vote.kind }
    saving := pool.saving ++ [cert]
    published := pool.published ++ [.saveCertificate cert] }

variable {vote : Vote} {source : Fin n} {time : Nat}

lemma wantsCertificate_iff : pool.wantsCertificate vote = true ↔ pool.state.firstNonFinalizedSlot ≤ vote.referencedSlot ∧
      (pool.state.slots vote.referencedSlot).certs.needs vote = true := by
  unfold wantsCertificate
  cases found : pool.state.slotAt vote.referencedSlot with
  | none =>
    have untracked := slotAt_eq_none.mp found
    simp
    omega
  | some state =>
    obtain ⟨tracked, rfl⟩ := slotAt_eq_some.mp found
    simp [tracked]

/-- `handle_certificate` never fails: it tests what `remember_prospective` asserts. -/
lemma handleCertificate_eq (pool : Pool n) (cert : Certificate n) : pool.handleCertificate cert =
      .ok (if pool.wantsCertificate cert.vote then pool.beginSaving cert else pool) := by
  by_cases wanted : pool.wantsCertificate cert.vote = true
  · obtain ⟨_, needed⟩ := wantsCertificate_iff.mp wanted
    have remembered : (pool.state.slots cert.vote.referencedSlot).certs.rememberProspective cert.vote =
          .ok ((pool.state.slots cert.vote.referencedSlot).certs.markSaving cert.vote.kind) := if_pos needed
    simp [handleCertificate, wanted, remembered, beginSaving, modifySlot, ConsensusState.modifySlot, publish]
  · simp [handleCertificate, wanted]

lemma beginSaving_sameChain (pool : Pool n) (cert : Certificate n) : SameChain pool (pool.beginSaving cert) := by
  have marked : SameChain pool (pool.modifySlot cert.vote.referencedSlot fun state =>
      { state with certs := state.certs.markSaving cert.vote.kind }) := by
    refine .modifySlot _ _ (fun state kind => ?_) fun state => rfl
    simp only [CertificateBundle.entry_markSaving]
  exact marked.trans (.of_eq rfl rfl rfl rfl rfl rfl rfl rfl rfl
    (by simp [beginSaving, modifySlot, Simplex.answers, Published.answer?]) (by simp [beginSaving, modifySlot, announcedWindows]))

/-- The effect of an applied vote before a certificate is considered. -/
def countVote (bus : Bus n) (pool : Pool n) (validator : Fin n) (vote : Signed n) : Pool n :=
  let slot := vote.vote.referencedSlot
  let votes := ((pool.state.slots slot).votes validator).withStored vote.vote.kind
    (some (.ofSigned vote))
  (pool.modifySlot slot (·.setVotes validator votes)).modifySlot slot (·.addWeightTo vote.vote (bus.weight validator))

/-- The signatures an event brings along count as signed if they pass the check. -/
def Vouched (bus : Bus n) (signs : Fin n → Vote → BufferSlice → Prop) : Event n → Prop
  | .incomingProtocolMessage source (.vote vote signature) _ =>
    bus.Verifies source vote signature → signs source vote signature
  | .incomingProtocolMessage _ (.certificate certificate) _ =>
    certificate.Vouched bus.toSession signs
  | .keyringSigned frame signature => signs bus.localId frame.vote signature
  | _ => True

lemma Enabled.vouched {event : Event n} (enabled : pool.Enabled bus event) : Vouched bus bus.Verifies event := by
  cases event with
  | incomingProtocolMessage source message time =>
    cases message with
    | vote vote signature => exact fun verified => verified
    | certificate certificate => exact fun _ _ _ verified => verified
    | other => trivial
  | keyringSigned frame signature => exact enabled.2
  | _ => trivial

/-- Certificates handed to `handle_certificate`: parsed or built from votes. -/
def Justified (bus : Bus n) (signs : Fin n → Vote → BufferSlice → Prop) (pool : Pool n) (cert : Certificate n) : Prop :=
  (∃ received : TlCertificate, received.Vouched bus.toSession signs ∧ Certificate.fromTl bus.toSession received = .ok cert) ∨
  ((pool.state.slots cert.vote.referencedSlot).createCert cert.vote = .ok cert ∧
    bus.weightThreshold ≤ (pool.state.slots cert.vote.referencedSlot).weightOf cert.vote)

structure Admissible (signs : Fin n → Vote → BufferSlice → Prop) (pool : Pool n)
    (vote : Signed n) : Prop where
  tracked : pool.state.firstNonFinalizedSlot ≤ vote.vote.referencedSlot
  signed : signs vote.validator vote.vote vote.signature

inductive Change (bus : Bus n) (signs : Fin n → Vote → BufferSlice → Prop) (pool : Pool n) :
    Pool n → Prop where
  | quiet {next : Pool n} : Quiet pool next → Change bus signs pool next
  | reported {vote : Signed n} {misbehavior : Misbehavior n} :
      pool.Admissible signs vote →
      (((pool.state.slots vote.vote.referencedSlot).votes vote.validator).addVote
        (.ofSigned vote)).1 = .ofMisbehavior misbehavior →
      Change bus signs pool (pool.publish (.misbehaviorReport vote.validator misbehavior))
  | counted {vote : Signed n} :
      pool.Admissible signs vote →
      ((pool.state.slots vote.vote.referencedSlot).votes vote.validator).addVote (.ofSigned vote) = (.ofBool true,
          ((pool.state.slots vote.vote.referencedSlot).votes vote.validator).withStored vote.vote.kind (some (.ofSigned vote))) →
      Change bus signs pool (pool.countVote bus vote.validator vote)
  | saving {cert : Certificate n} :
      pool.wantsCertificate cert.vote = true → pool.Justified bus signs cert →
      Change bus signs pool (pool.beginSaving cert)

abbrev Changes (bus : Bus n) (signs : Fin n → Vote → BufferSlice → Prop) : Pool n → Pool n → Prop :=
  Relation.ReflTransGen (Change bus signs)

lemma Quiet.changes (quiet : Quiet pool next) : Changes bus signs pool next :=
    .single (.quiet quiet)

lemma Changes.preserve {Inv : Pool n → Prop} (preserved : ∀ {pool next}, Change bus signs pool next → Inv pool → Inv next)
    (changes : Changes bus signs pool next) (start : Inv pool) : Inv next := by
  induction changes with
  | refl => exact start
  | tail _ change ih => exact preserved change ih

structure Steps (bus : Bus n) (signs : Fin n → Vote → BufferSlice → Prop) (pool next : Pool n) :
    Prop extends Collects pool next where
  changes : Changes bus signs pool next

lemma Steps.refl (pool : Pool n) : Steps bus signs pool pool := ⟨.refl _, .refl⟩

lemma Steps.trans (first : Steps bus signs pool middle) (second : Steps bus signs middle next) : Steps bus signs pool next :=
  ⟨first.toCollects.trans second.toCollects, first.changes.trans second.changes⟩

variable {cert : Certificate n} {signature : BufferSlice} {message : ProtocolMessage}

lemma SlotState.createCert_vote {state : SlotState n} {vote : Vote} {cert : Certificate n}
    (result : state.createCert vote = .ok cert) : cert.vote = vote := by
  obtain ⟨signatures, _, result⟩ := bind_eq_ok.mp result
  cases result
  rfl

lemma handleCertificate_steps (justified : pool.Justified bus signs cert)
    (result : pool.handleCertificate cert = .ok next) : Steps bus signs pool next := by
  rw [handleCertificate_eq] at result
  cases result
  split
  next wanted =>
    exact ⟨⟨beginSaving_sameChain pool cert, rfl⟩, .single (.saving wanted justified)⟩
  next => exact .refl _

lemma setVotes_collects (pool : Pool n) (slot : Nat) (validator : Fin n) (votes : Tsentrizbirkom n) :
    Collects pool (pool.modifySlot slot (·.setVotes validator votes)) :=
  ⟨.modifySlot _ _ (fun _ _ => rfl) fun _ => rfl, rfl⟩

lemma addWeightTo_collects (pool : Pool n) (slot : Nat) (vote : Vote) (weight : Nat) :
    Collects pool (pool.modifySlot slot (·.addWeightTo vote weight)) := by
  refine ⟨.modifySlot _ _ (fun state kind => ?_) fun state => ?_, rfl⟩
  · cases vote <;> rfl
  · cases vote <;> rfl

lemma handleTypedVote_steps {validator : Fin n} (result : pool.handleTypedVote bus validator vote = .ok next) :
    Steps bus signs (pool.modifySlot vote.referencedSlot (·.addWeightTo vote (bus.weight validator))) next := by
  simp only [handleTypedVote] at result
  split at result
  next enough =>
    obtain ⟨cert, created, result⟩ := bind_eq_ok.mp result
    have same := SlotState.createCert_vote created
    refine handleCertificate_steps (.inr ?_) result
    rw [same]
    exact ⟨created, enough.2⟩
  next =>
    cases result
    exact .refl _

lemma handleVote_steps {vote : Signed n} {tolerate applied : Bool} (signed : signs vote.validator vote.vote vote.signature)
    (result : pool.handleVote bus vote.validator vote tolerate = .ok (applied, next)) : Steps bus signs pool next := by
  simp only [handleVote] at result
  split at result
  · cases result
    exact .refl _
  next state found =>
    obtain ⟨tracked, rfl⟩ := slotAt_eq_some.mp found
    have unchanged := Quiet.setVotes pool vote.vote.referencedSlot vote.validator
    have stored := setVotes_collects pool vote.vote.referencedSlot vote.validator
    have admissible : Admissible signs (pool.modifySlot vote.vote.referencedSlot (·.setVotes vote.validator
          ((pool.state.slots vote.vote.referencedSlot).votes vote.validator))) vote := ⟨tracked, signed⟩
    rcases ((pool.state.slots vote.vote.referencedSlot).votes vote.validator).addVote_outcome
        (.ofSigned vote) with ⟨misbehavior, outcome⟩ | outcome | ⟨_, outcome⟩
    · simp only [outcome, AddVoteResult.ofMisbehavior] at result
      split at result
      · cases result
      · cases result
        refine ⟨(stored _).trans ⟨.publish _ rfl rfl, rfl⟩, unchanged.changes.tail (.reported admissible ?_)⟩
        rw [unchanged.votes, outcome]
    · simp only [outcome, AddVoteResult.ofBool, Bool.false_eq_true, if_false] at result
      cases result
      exact ⟨stored _, unchanged.changes⟩
    · simp only [outcome, AddVoteResult.ofBool, if_true] at result
      obtain ⟨typed, typedResult, result⟩ := bind_eq_ok.mp result
      cases result
      have steps : Steps bus signs _ next := handleTypedVote_steps typedResult
      have counted : Collects pool (pool.countVote bus vote.validator vote) := (stored _).trans (addWeightTo_collects _ _ _ _)
      exact ⟨counted.trans steps.toCollects, .head (.counted ⟨tracked, signed⟩ outcome) steps.changes⟩

lemma resumeOurVote_steps {frame : OurVote} (signed : signs bus.localId frame.vote signature)
    (result : pool.resumeOurVote bus frame signature = .ok next) :
    Steps bus signs { pool with ourVotes := pool.ourVotes.erase frame } next := by
  obtain ⟨⟨applied, handled⟩, handledResult, result⟩ := bind_eq_ok.mp result
  have steps := handleVote_steps signed handledResult
  dsimp only at result
  split at result
  · cases result
    exact steps.trans ⟨⟨.publish _ rfl rfl, rfl⟩, (Quiet.publish _ rfl).changes⟩
  · cases result
    exact steps

lemma addCertificateVotes_collects (pool : Pool n) (cert : Certificate n)
    (validators : List (Fin n)) : Collects pool (pool.addCertificateVotes cert validators) := by
  induction validators generalizing pool with
  | nil => exact .refl _
  | cons validator rest ih =>
    simp only [addCertificateVotes]
    split
    · exact (setVotes_collects _ _ _ _).trans (.trans ⟨.publish _ rfl rfl, rfl⟩ (ih _))
    · exact (setVotes_collects _ _ _ _).trans (ih _)

lemma setBans_steps (pool : Pool n) (bans : Fin n → Option Nat) : Steps bus signs pool { pool with badSignatureBans := bans } :=
  ⟨⟨.of_eq rfl rfl rfl rfl rfl rfl rfl rfl rfl rfl rfl, rfl⟩, Quiet.changes (.silent rfl rfl rfl)⟩

lemma handleVoteMessage_steps (vouched : bus.Verifies source vote signature → signs source vote signature)
    (result : pool.handleVoteMessage bus source vote signature time = .ok next) : Steps bus signs pool next := by
  simp only [handleVoteMessage] at result
  split at result
  · cases result
    exact .refl _
  split at result
  · cases result
    exact .refl _
  obtain ⟨state, _, result⟩ := bind_eq_ok.mp result
  split at result
  · cases result
    exact .refl _
  split at result
  · cases result
    exact setBans_steps _ _
  next valid =>
    obtain ⟨⟨applied, handled⟩, handledResult, result⟩ := bind_eq_ok.mp result
    cases result
    have signed : signs source vote signature := vouched (by simpa [Session.Verifies] using valid)
    exact handleVote_steps signed handledResult

lemma handleCertificateMessage_steps {certificate : TlCertificate} (vouched : certificate.Vouched bus.toSession signs)
    (result : pool.handleCertificateMessage bus source certificate time = .ok next) : Steps bus signs pool next := by
  simp only [handleCertificateMessage] at result
  split at result
  · cases result
    exact .refl _
  split at result
  · cases result
    exact setBans_steps _ _
  next cert accepted =>
    split at result
    · obtain ⟨state, _, result⟩ := bind_eq_ok.mp result
      split at result
      · cases result
        exact .refl _
      · exact handleCertificate_steps (.inl ⟨_, vouched, accepted⟩) result
    · exact handleCertificate_steps (.inl ⟨_, vouched, accepted⟩) result

lemma isBanned_steps (pool : Pool n) (peer : Fin n) (time : Nat) : Steps bus signs pool (pool.isBanned peer time).2 := by
  unfold isBanned
  split
  · exact .refl _
  · split
    · exact setBans_steps _ _
    · exact .refl _

lemma handleIncomingProtocolMessage_steps (vouched : Vouched bus signs (.incomingProtocolMessage source message time))
    (result : pool.handleIncomingProtocolMessage bus source message time = .ok next) : Steps bus signs pool next := by
  have checked : Steps bus signs pool _ := isBanned_steps pool source time
  simp only [handleIncomingProtocolMessage] at result
  split at result
  · cases result
    exact checked
  split at result
  · exact checked.trans (handleVoteMessage_steps vouched result)
  · exact checked.trans (handleCertificateMessage_steps vouched result)
  · cases result
    exact checked

lemma handleIncomingProtocolMessage_collects
    (result : pool.handleIncomingProtocolMessage bus source message time = .ok next) : Collects pool next := by
  have vouched : Vouched bus (fun _ _ _ => True)
      (.incomingProtocolMessage source message time) := by
    cases message with
    | vote vote signature => exact fun _ => trivial
    | certificate certificate => exact fun _ _ _ _ => trivial
    | other => trivial
  exact (handleIncomingProtocolMessage_steps vouched result).toCollects

end Pool

end TonNode.Simplex
