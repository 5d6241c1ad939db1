import TonNode.Simplex.ChainView
import TonNode.Simplex.Pool

/-!
# The pool follows the chain view

The certificates of a pool form a `ChainView`, and the derived structures of the
pool (`now_`, `skip_intervals_`, the available bases) are exactly what the view
prescribes. Handling a certificate certifies one more vote in the view.
-/

namespace TonNode.Simplex

open Consensus Lib Nat List ChainView

variable {n : Nat}

def Published.isBookkeeping : Published n → Bool
  | .notarizationObserved _ _ => true
  | .finalizationObserved _ _ => true
  | .leaderWindowObserved _ _ => true
  | .parentResolved _ _ => true
  | .broadcastPrechecked _ => true
  | .saveCertificate _ => false
  | .misbehaviorReport _ _ => false
  | .outgoingProtocolMessage _ => false
  | .obtainedCertificate _ => false

def Published.answer? : Published n → Option (Request n × ParentAnswer n)
  | .parentResolved request answer => some (request, answer)
  | _ => none

def answers (events : List (Published n)) : List (Request n × ParentAnswer n) :=
  events.filterMap Published.answer?

@[simp] lemma answers_append (left right : List (Published n)) : answers (left ++ right) = answers left ++ answers right := by
  simp [answers]

namespace SlotState

@[simp] lemma votes_addAvailableBase (slot : SlotState n) (parent : ParentId) :
    (slot.addAvailableBase parent).votes = slot.votes := by
  unfold addAvailableBase
  split
  · rfl
  · split <;> rfl

@[simp] lemma certs_addAvailableBase (slot : SlotState n) (parent : ParentId) :
    (slot.addAvailableBase parent).certs = slot.certs := by
  unfold addAvailableBase
  split
  · rfl
  · split <;> rfl

@[simp] lemma weightOf_addAvailableBase (slot : SlotState n) (parent : ParentId) (vote : Vote) :
    (slot.addAvailableBase parent).weightOf vote = slot.weightOf vote := by
  unfold addAvailableBase
  split
  · cases vote <;> rfl
  · split
    · cases vote <;> rfl
    · rfl

end SlotState

namespace Pool

lemma modifySlot_kept {α : Type} (view : SlotState n → α) {pool : Pool n} {slot : Nat} {update : SlotState n → SlotState n}
    (kept : view (update (pool.state.slots slot)) = view (pool.state.slots slot)) (other : Nat) :
    view ((pool.modifySlot slot update).state.slots other) = view (pool.state.slots other) := by
  rw [modifySlot, ConsensusState.modifySlot_slots]
  split
  next same => rw [same, kept]
  next => rfl

/-- `next` differs from `pool` in bookkeeping and requests only. -/
structure Frame (pool next : Pool n) : Prop where
  votes : ∀ slot, (next.state.slots slot).votes = (pool.state.slots slot).votes
  certs : ∀ slot, (next.state.slots slot).certs = (pool.state.slots slot).certs
  weights : ∀ slot vote, (next.state.slots slot).weightOf vote = (pool.state.slots slot).weightOf vote
  saving : next.saving = pool.saving
  ourVotes : next.ourVotes = pool.ourVotes
  suppressed : next.suppressCertificateBroadcast = pool.suppressCertificateBroadcast
  isStarted : next.isStarted = pool.isStarted
  notEarlier : pool.state.firstNonFinalizedSlot ≤ next.state.firstNonFinalizedSlot
  trackedEnd : pool.state.trackedEnd ≤ next.state.trackedEnd
  published : ∃ events, next.published = pool.published ++ events ∧ ∀ event ∈ events, event.isBookkeeping = true

/-- `next` differs from `pool` in bookkeeping only. -/
structure Update (pool next : Pool n) : Prop extends Frame pool next where
  requests : next.requests = pool.requests
  nextPromise : next.nextPromise = pool.nextPromise
  answers : answers next.published = answers pool.published

variable {pool middle next : Pool n}

lemma Frame.trans (first : Frame pool middle) (second : Frame middle next) : Frame pool next where
  votes slot := (second.votes slot).trans (first.votes slot)
  certs slot := (second.certs slot).trans (first.certs slot)
  weights slot vote := (second.weights slot vote).trans (first.weights slot vote)
  saving := second.saving.trans first.saving
  ourVotes := second.ourVotes.trans first.ourVotes
  suppressed := second.suppressed.trans first.suppressed
  isStarted := second.isStarted.trans first.isStarted
  notEarlier := Nat.le_trans first.notEarlier second.notEarlier
  trackedEnd := Nat.le_trans first.trackedEnd second.trackedEnd
  published := by
    obtain ⟨early, earlyPublished, earlyKind⟩ := first.published
    obtain ⟨late, latePublished, lateKind⟩ := second.published
    exact ⟨early ++ late, by rw [latePublished, earlyPublished, append_assoc],
      forall_mem_append.mpr ⟨earlyKind, lateKind⟩⟩

lemma Frame.of_state_eq (state : next.state = pool.state) (saving : next.saving = pool.saving)
    (ourVotes : next.ourVotes = pool.ourVotes)
    (suppressed : next.suppressCertificateBroadcast = pool.suppressCertificateBroadcast)
    (isStarted : next.isStarted = pool.isStarted)
    {events : List (Published n)} (published : next.published = pool.published ++ events)
    (bookkeeping : ∀ event ∈ events, event.isBookkeeping = true) : Frame pool next where
  votes _ := by rw [state]
  certs _ := by rw [state]
  weights _ _ := by rw [state]
  saving := saving
  ourVotes := ourVotes
  suppressed := suppressed
  isStarted := isStarted
  notEarlier := by rw [state]
  trackedEnd := by rw [state]
  published := ⟨events, published, bookkeeping⟩

namespace Update

lemma trans (first : Update pool middle) (second : Update middle next) : Update pool next where
  toFrame := first.toFrame.trans second.toFrame
  requests := second.requests.trans first.requests
  nextPromise := second.nextPromise.trans first.nextPromise
  answers := second.answers.trans first.answers

lemma silent (state : next.state = pool.state) (saving : next.saving = pool.saving) (ourVotes : next.ourVotes = pool.ourVotes)
    (suppressed : next.suppressCertificateBroadcast = pool.suppressCertificateBroadcast)
    (isStarted : next.isStarted = pool.isStarted)
    (requests : next.requests = pool.requests) (nextPromise : next.nextPromise = pool.nextPromise)
    (published : next.published = pool.published) : Update pool next where
  toFrame := .of_state_eq state saving ourVotes suppressed isStarted (published.trans (append_nil _).symm) (by simp)
  requests := requests
  nextPromise := nextPromise
  answers := by rw [published]

lemma refl (pool : Pool n) : Update pool pool :=
  .silent rfl rfl rfl rfl rfl rfl rfl rfl

lemma publish (pool : Pool n) {event : Published n} (bookkeeping : event.isBookkeeping = true)
    (noAnswer : event.answer? = none) : Update pool (pool.publish event) where
  toFrame := .of_state_eq rfl rfl rfl rfl rfl rfl (by simpa using bookkeeping)
  requests := rfl
  nextPromise := rfl
  answers := by simp [Pool.publish, Simplex.answers, noAnswer]

lemma addAvailableBase (pool : Pool n) (slot : Nat) (parent : ParentId) :
    Update pool (pool.modifySlot slot (·.addAvailableBase parent)) where
  votes := modifySlot_kept SlotState.votes (by simp)
  certs := modifySlot_kept SlotState.certs (by simp)
  weights other vote := modifySlot_kept (SlotState.weightOf · vote) (by simp) other
  saving := rfl
  ourVotes := rfl
  suppressed := rfl
  isStarted := rfl
  notEarlier := Nat.le_refl _
  trackedEnd := Nat.le_max_left _ _
  published := ⟨[], by simp [modifySlot], by simp⟩
  requests := rfl
  nextPromise := rfl
  answers := rfl

end Update

variable {bus : Bus n}

lemma announceWindow_update (result : pool.announceWindow bus = .ok next) : Update pool next := by
  simp only [announceWindow] at result
  split at result
  · cases result
    exact .refl _
  · obtain ⟨base, _, result⟩ := bind_eq_ok.mp result
    cases result
    have window : Update pool { pool with
        firstNonannouncedWindow := (pool.now / bus.slotsPerLeaderWindow + 1) % 2 ^ 32 } :=
      .silent rfl rfl rfl rfl rfl rfl rfl rfl
    exact window.trans (.publish _ rfl rfl)

lemma advancePresent_update (result : pool.advancePresent bus = .ok next) : Update pool next := by
  unfold advancePresent at result
  split at result
  · cases result
    exact .refl _
  · obtain ⟨now, _, result⟩ := bind_eq_ok.mp result
    have moved : Update pool { pool with now } := .silent rfl rfl rfl rfl rfl rfl rfl rfl
    exact moved.trans (announceWindow_update result)

variable {id : CandidateId} {cert : Certificate n} {slot : Nat}

lemma extendSkipInterval_update (pool : Pool n) (slot nextSlot : Nat) : Update pool (pool.extendSkipInterval slot nextSlot) :=
  .silent rfl rfl rfl rfl rfl rfl rfl rfl

lemma inheritBase_update (pool : Pool n) (slot nextSlot : Nat) : Update pool (pool.inheritBase slot nextSlot) := by
  cases found : (pool.state.slots slot).availableBase with
  | none => simpa [inheritBase, found] using Update.refl pool
  | some base =>
    simpa [inheritBase, found, modifySlot] using Update.addAvailableBase pool nextSlot base

lemma addFinalizedBase_update (result : pool.addFinalizedBase id = .ok next) : Update pool next := by
  unfold addFinalizedBase at result
  split at result
  · obtain ⟨nextSlot, _, result⟩ := bind_eq_ok.mp result
    cases result
    exact .addAvailableBase _ _ _
  · cases result
    exact .refl _

lemma recordFinalized_update (pool : Pool n) (id : CandidateId) (cert : Certificate n) :
    Update pool (pool.recordFinalized id cert) := by
  have recorded : Update pool { pool with
      lastFinalizedBlock := some id
      lastFinalCert := some cert
      firstNonfinalizedSlot := nextSlot id.slot } := .silent rfl rfl rfl rfl rfl rfl rfl rfl
  exact recorded.trans (.publish _ rfl rfl)

lemma advancePast_update (result : pool.advancePast bus slot = .ok next) : Update pool next := by
  unfold advancePast at result
  split at result
  · have moved : Update pool { pool with now := nextSlot slot } := .silent rfl rfl rfl rfl rfl rfl rfl rfl
    exact moved.trans (advancePresent_update result)
  · cases result
    exact .refl _

lemma handleSavedFinalCertificate_update
    (result : pool.handleSavedFinalCertificate bus id cert = .ok next) : Update pool next := by
  simp only [handleSavedFinalCertificate] at result
  split at result
  · cases result
  split at result
  · cases result
  obtain ⟨based, basedResult, result⟩ := bind_eq_ok.mp result
  obtain ⟨advanced, advancedResult, result⟩ := bind_eq_ok.mp result
  cases result
  have dropped : Update advanced (advanced.dropFinalized id.slot) :=
    { Update.refl advanced with notEarlier := Nat.le_max_left _ _ }
  exact (addFinalizedBase_update basedResult).trans
    ((recordFinalized_update _ _ _).trans ((advancePast_update advancedResult).trans dropped))

lemma handleTypedSavedCertificate_update
    (result : pool.handleTypedSavedCertificate bus cert = .ok next) : Update pool next := by
  unfold handleTypedSavedCertificate at result
  split at result
  · obtain ⟨slot, _, result⟩ := bind_eq_ok.mp result
    exact (Update.publish pool rfl rfl).trans ((Update.addAvailableBase _ slot _).trans (advancePresent_update result))
  · obtain ⟨nextSlot, _, result⟩ := bind_eq_ok.mp result
    exact (extendSkipInterval_update _ _ _).trans ((inheritBase_update _ _ _).trans (advancePresent_update result))
  · exact handleSavedFinalCertificate_update result

end Pool

variable {cert : Certificate n} {id : CandidateId}

namespace Pool

/-- The certificate stored for a slot under a vote type. Slots below the
watermark keep what they held when they were finalized. -/
def certAt (pool : Pool n) (slot : Nat) (kind : VoteKind) : Option (Certificate n) :=
  ((pool.state.slots slot).certs.entry kind).cert

def Holds (pool : Pool n) (vote : Vote) : Prop :=
  ∃ cert, pool.certAt vote.referencedSlot vote.kind = some cert ∧ cert.vote = vote

def view (pool : Pool n) : ChainView where
  lastFinalized := pool.lastFinalizedBlock
  certified := pool.Holds

/-- The stored certificates certify exactly the votes in `certified`. -/
structure Keeps (certified : Vote → Prop) (pool : Pool n) : Prop where
  typed : ∀ slot kind cert, pool.certAt slot kind = some cert → cert.vote.kind = kind ∧ cert.vote.referencedSlot = slot
  held : ∀ vote, pool.Holds vote ↔ certified vote

structure Stores (certified : Vote → Prop) (pool : Pool n) : Prop extends Keeps certified pool where
  untouched : ∀ slot kind, pool.state.trackedEnd ≤ slot → pool.certAt slot kind = none

/-- Watermark, skip intervals and bases are the ones `view` prescribes. -/
structure Settled (view : ChainView) (pool : Pool n) : Prop where
  dropped : pool.state.firstNonFinalizedSlot = view.first
  aligned : pool.firstNonfinalizedSlot = view.first
  last : pool.lastFinalizedBlock = view.lastFinalized
  finals : ∀ id, view.certified (.finalize id) → id.slot < view.first
  lastCertified : ∀ id, view.lastFinalized = some id → view.certified (.finalize id)
  ends : RunEnds view.first view.Skipped pool.skipIntervals
  bases : ∀ slot, view.first ≤ slot → ¬ view.Skipped slot → view.Tracks slot (pool.state.slots slot).availableBase

/-- The bookkeeping is the one `view` prescribes: `now_` is the present slot once the pool is
started. -/
structure Matches (view : ChainView) (pool : Pool n) : Prop extends Settled view pool where
  present : pool.isStarted = true → view.IsPresent pool.now
  waiting : pool.isStarted = false → pool.now = view.first

variable {pool next : Pool n} {view : ChainView} {certified : Vote → Prop}

lemma Frame.certAt (update : Frame pool next) (slot : Nat) (kind : VoteKind) :
    next.certAt slot kind = pool.certAt slot kind := by
  simp only [Pool.certAt, update.certs slot]

lemma Frame.holds (update : Frame pool next) (vote : Vote) : next.Holds vote ↔ pool.Holds vote := by
  simp only [Holds, update.certAt]

lemma Stores.frame (stores : pool.Stores certified) (update : Frame pool next) : next.Stores certified where
  typed slot kind cert found := stores.typed slot kind cert (by rwa [← update.certAt])
  untouched slot kind beyond := by
    rw [update.certAt]
    exact stores.untouched slot kind (le_trans update.trackedEnd beyond)
  held vote := (update.holds vote).trans (stores.held vote)

section

variable (stores : pool.Keeps certified)
include stores

lemma Keeps.isSkipped_iff (slot : Nat) : (pool.state.slots slot).isSkipped = true ↔ certified (.skip slot) := by
  rw [← stores.held, SlotState.isSkipped, Option.isSome_iff_exists]
  constructor
  · rintro ⟨cert, found⟩
    obtain ⟨kind, located⟩ := stores.typed slot .skip cert found
    refine ⟨cert, found, ?_⟩
    cases same : cert.vote <;> simp_all [Vote.kind, Vote.referencedSlot]
  · rintro ⟨cert, found, _⟩
    exact ⟨cert, found⟩

lemma Keeps.notarCert_iff (id : CandidateId) :
    (∃ cert, pool.certAt id.slot .notarize = some cert ∧ cert.vote.candidateId? = some id) ↔ certified (.notarize id) := by
  rw [← stores.held]
  constructor
  · rintro ⟨cert, found, named⟩
    refine ⟨cert, found, ?_⟩
    have kind := (stores.typed _ _ cert found).1
    cases same : cert.vote <;> simp_all [Vote.kind, Vote.candidateId?]
  · rintro ⟨cert, found, same⟩
    exact ⟨cert, found, by simp [same, Vote.candidateId?]⟩

lemma Keeps.isNotarized_iff (slot : Nat) : (pool.state.slots slot).isNotarized = true ↔
      ∃ id, id.slot = slot ∧ certified (.notarize id) := by
  rw [SlotState.isNotarized, Option.isSome_iff_exists]
  constructor
  · rintro ⟨cert, found⟩
    obtain ⟨kind, located⟩ := stores.typed slot .notarize cert found
    cases same : cert.vote with
    | notarize id =>
      rw [same] at located
      cases located
      exact ⟨id, rfl, (stores.notarCert_iff id).mp ⟨cert, found, by simp [same, Vote.candidateId?]⟩⟩
    | finalize id | skip slot => simp [same, Vote.kind] at kind
  · rintro ⟨id, rfl, held⟩
    obtain ⟨cert, found, _⟩ := (stores.notarCert_iff id).mpr held
    exact ⟨cert, found⟩

lemma Keeps.notarizedBlock_of_notarized (held : certified (.notarize id)) :
    (pool.state.slots id.slot).notarizedBlock = some id := by
  obtain ⟨cert, found, named⟩ := (stores.notarCert_iff id).mpr held
  have stored : (pool.state.slots id.slot).certs.notar.cert = some cert := found
  simp [SlotState.notarizedBlock, stored, named]

lemma Keeps.notarizedBlock_eq_some {slot : Nat} (found : (pool.state.slots slot).notarizedBlock = some id) :
    id.slot = slot ∧ (certified (.notarize id) ∨ certified (.finalize id)) := by
  have named : ∀ kind cert, pool.certAt slot kind = some cert → cert.vote.candidateId? = some id →
      id.slot = slot ∧ (certified (.notarize id) ∨ certified (.finalize id)) := by
    intro kind cert certFound idFound
    obtain ⟨kindSame, located⟩ := stores.typed slot kind cert certFound
    have held : certified cert.vote := (stores.held _).mp ⟨cert, by rw [kindSame, located]; exact certFound, rfl⟩
    cases same : cert.vote with
    | notarize other =>
      rw [same] at located held idFound
      cases idFound
      exact ⟨located, .inl held⟩
    | finalize other =>
      rw [same] at located held idFound
      cases idFound
      exact ⟨located, .inr held⟩
    | skip other => simp [same, Vote.candidateId?] at idFound
  unfold SlotState.notarizedBlock at found
  split at found
  next cert stored => exact named .notarize cert stored found
  next =>
    split at found
    next cert stored => exact named .finalize cert stored found
    next => cases found

/-- A final certificate passes the assertions of its handler while the certificates agree. -/
lemma Keeps.final_not_skipped (clean : ConflictFree certified) (final : certified (.finalize id)) :
    ¬ (pool.state.slots id.slot).isSkipped = true := by
  rw [stores.isSkipped_iff]
  exact clean.finalNotSkipped id final

lemma Keeps.final_not_opposed (clean : ConflictFree certified) (final : certified (.finalize id)) :
    (pool.state.slots id.slot).notarizedBlock.getD id = id := by
  cases found : (pool.state.slots id.slot).notarizedBlock with
  | none => rfl
  | some other =>
    obtain ⟨located, held⟩ := stores.notarizedBlock_eq_some found
    rcases held with held | held <;> exact clean.oneCandidate _ _ other id held final rfl rfl located

end

lemma slotRef_of_le {slot : Nat} (tracked : pool.state.firstNonFinalizedSlot ≤ slot) :
    pool.slotRef slot = .ok (pool.state.slots slot) := by
  simp [slotRef, ConsensusState.slotAt_of_le tracked]

lemma Stores.passed_iff (stores : pool.Stores view.certified) (slot : Nat) :
    ((pool.state.slots slot).isNotarized || (pool.state.slots slot).isSkipped) = true ↔
      view.NotarizedAt slot ∨ view.Skipped slot := by
  rw [Bool.or_eq_true, stores.isNotarized_iff, stores.isSkipped_iff]
  rfl

lemma Stores.open_of_untouched (stores : pool.Stores view.certified) {slot : Nat} (beyond : pool.state.trackedEnd ≤ slot) :
    ¬ view.NotarizedAt slot ∧ ¬ view.Skipped slot := by
  have absent := fun kind => stores.untouched slot kind beyond
  rw [← not_or, ← stores.passed_iff]
  have notNotarized : (pool.state.slots slot).certs.notar.cert = none := absent .notarize
  have notSkipped : (pool.state.slots slot).certs.skip.cert = none := absent .skip
  simp [SlotState.isNotarized, SlotState.isSkipped, notNotarized, notSkipped]

lemma advanceNow_spec (stores : pool.Stores view.certified) (regular : Regular view.certified) {fuel now : Nat}
    (tracked : pool.state.firstNonFinalizedSlot ≤ now) (enough : pool.state.trackedEnd ≤ fuel + now) : ∃ stop, pool.advanceNow fuel now = .ok stop ∧ now ≤ stop ∧
      (∀ slot, now ≤ slot → slot < stop → view.NotarizedAt slot ∨ view.Skipped slot) ∧
      ¬ view.NotarizedAt stop ∧ ¬ view.Skipped stop := by
  induction fuel generalizing now with
  | zero =>
    exact ⟨now, rfl, le_refl _, by omega, stores.open_of_untouched (by omega)⟩
  | succ fuel ih =>
    simp only [advanceNow, slotRef_of_le tracked, ok_bind]
    split
    next passes =>
      have here := (stores.passed_iff now).mp passes
      have nextTracked : pool.state.firstNonFinalizedSlot ≤ now + 1 := by omega
      obtain ⟨stop, result, later, passed, isOpen⟩ := ih nextTracked (by omega)
      rw [nextSlot_of_lt (below_of_passed regular here)]
      refine ⟨stop, result, by omega, ?_, isOpen⟩
      intro slot notBelow below
      rcases eq_or_lt_of_le notBelow with rfl | after
      · exact here
      · exact passed slot after below
    next stops =>
      rw [stores.passed_iff, not_or] at stops
      exact ⟨now, rfl, le_refl _, by omega, stops⟩

structure Recorded (view : ChainView) (pool : Pool n) : Prop where
  tracked : pool.state.firstNonFinalizedSlot ≤ view.first
  bases : ∀ slot, view.first ≤ slot → ¬ view.Skipped slot → view.Tracks slot (pool.state.slots slot).availableBase

lemma Settled.recorded (settled : pool.Settled view) : pool.Recorded view :=
  ⟨le_of_eq settled.dropped, settled.bases⟩

lemma Matches.first_le_now (matched : pool.Matches view) : view.first ≤ pool.now := by
  by_cases started : pool.isStarted = true
  · exact (matched.present started).notFinalized
  · exact le_of_eq (matched.waiting (by simpa using started)).symm

end Pool

def announcedWindows (events : List (Published n)) : List (Nat × ParentId) :=
  events.filterMap fun
    | .leaderWindowObserved startSlot base => some (startSlot, base)
    | _ => none

@[simp] lemma announcedWindows_append (left right : List (Published n)) :
    announcedWindows (left ++ right) = announcedWindows left ++ announcedWindows right := by
  simp [announcedWindows]

namespace Pool

/-- At most one window is announced, at the present slot and with its base, and
never a window that was announced before. -/
def Announces (bus : Bus n) (view : ChainView) (pool next : Pool n) : Prop :=
  (announcedWindows next.published = announcedWindows pool.published ∧
    next.firstNonannouncedWindow = pool.firstNonannouncedWindow) ∨
  ∃ base, announcedWindows next.published = announcedWindows pool.published ++ [(next.now, base)] ∧
    view.IsPresent next.now ∧ view.IsBase next.now base ∧ pool.firstNonannouncedWindow ≤ next.now / bus.slotsPerLeaderWindow ∧
    next.firstNonannouncedWindow = (next.now / bus.slotsPerLeaderWindow + 1) % 2 ^ 32

variable {pool next : Pool n} {bus : Bus n} {view : ChainView}

lemma presentBase_spec (recorded : pool.Recorded view) (present : view.IsPresent pool.now) :
    ∃ base, pool.presentBase = .ok base ∧ view.IsBase pool.now base := by
  obtain ⟨base, isBase⟩ := present.exists_isBase
  refine ⟨base, ?_, isBase⟩
  have notFinalized := present.notFinalized
  by_cases zero : pool.now = 0
  · have atGenesis : base = none := by
      have before := isBase.before
      cases base with
      | none => rfl
      | some parent => simp [zero] at before
    simp [presentBase, zero, atGenesis]
  · have found := (recorded.bases pool.now notFinalized present.open_.2 base).mpr isBase
    have tracked := le_trans recorded.tracked notFinalized
    simp [presentBase, zero, slotRef_of_le tracked, found]

lemma announceWindow_spec (bus : Bus n) (recorded : pool.Recorded view)
    (present : view.IsPresent pool.now) :
    ∃ window events, pool.announceWindow bus = .ok { pool with
        firstNonannouncedWindow := window
        published := pool.published ++ events } ∧
      Announces bus view pool { pool with
        firstNonannouncedWindow := window
        published := pool.published ++ events } := by
  by_cases announced : pool.firstNonannouncedWindow > pool.now / bus.slotsPerLeaderWindow
  · refine ⟨pool.firstNonannouncedWindow, [], ?_, .inl ⟨by simp, rfl⟩⟩
    simp [announceWindow, announced]
  · obtain ⟨base, found, isBase⟩ := presentBase_spec recorded present
    refine ⟨(pool.now / bus.slotsPerLeaderWindow + 1) % 2 ^ 32, [.leaderWindowObserved pool.now base], ?_,
      .inr ⟨base, by simp [announcedWindows], present, isBase, by simpa using announced, rfl⟩⟩
    simp [announceWindow, announced, found, publish]

lemma advancePresent_spec (bus : Bus n) (stores : pool.Stores view.certified) (regular : Regular view.certified)
    (recorded : pool.Recorded view) (reached : view.first ≤ pool.now)
    (passed : pool.isStarted = true → ∀ slot, view.first ≤ slot → slot < pool.now → view.NotarizedAt slot ∨ view.Skipped slot) :
    ∃ now window events, pool.advancePresent bus = .ok { pool with
        now
        firstNonannouncedWindow := window
        published := pool.published ++ events } ∧
      (pool.isStarted = true → view.IsPresent now) ∧
      (pool.isStarted = false → now = pool.now) ∧
      Announces bus view pool { pool with
        now
        firstNonannouncedWindow := window
        published := pool.published ++ events } := by
  by_cases started : pool.isStarted = true
  · obtain ⟨now, moved, later, through, isOpen⟩ := advanceNow_spec stores regular (le_trans recorded.tracked reached)
      (show pool.state.trackedEnd ≤ pool.state.trackedEnd + 1 - pool.now + pool.state.trackedEnd + pool.now by omega)
    have present : view.IsPresent now := by
      refine ⟨by omega, ?_, isOpen⟩
      intro slot notFinalized before
      by_cases old : slot < pool.now
      · exact passed started slot notFinalized old
      · exact through slot (by omega) before
    have movedRecorded : Recorded view { pool with now } := ⟨recorded.tracked, recorded.bases⟩
    obtain ⟨window, events, result, announces⟩ := announceWindow_spec bus movedRecorded present
    refine ⟨now, window, events, ?_, fun _ => present, by simp [started], announces⟩
    rw [advancePresent, if_neg (by simp [started]), moved]
    exact result
  · refine ⟨pool.now, pool.firstNonannouncedWindow, [], ?_, by simp [started], fun _ => rfl, .inl ⟨by simp, rfl⟩⟩
    rw [advancePresent, if_pos (by simp [started]), append_nil]

lemma nextNonskippedSlotAfter_spec {low slot limit : Nat} {marked : Nat → Prop}
    (summary : RunEnds low marked pool.skipIntervals) (below : slot + 1 < 2 ^ 32) (above : low ≤ slot + 1)
    (tracked : pool.state.firstNonFinalizedSlot ≤ slot + 1)
    (agree : (pool.state.slots (slot + 1)).isSkipped = true ↔ marked (slot + 1))
    (bounded : ∀ number, limit ≤ number → ¬ marked number) :
    ∃ stop, pool.nextNonskippedSlotAfter slot = .ok stop ∧ IsNext marked slot stop := by
  by_cases skipped : (pool.state.slots (slot + 1)).isSkipped = true
  · obtain ⟨stop, found, isNext⟩ := summary.lowerBound_of_marked above (agree.mp skipped) bounded
    have after := isNext.after
    refine ⟨stop, ?_, by omega, isNext.unmarked, ?_⟩
    · have stopTracked : pool.state.firstNonFinalizedSlot ≤ stop := by omega
      simp [nextNonskippedSlotAfter, nextSlot_of_lt below, slotRef_of_le tracked, skipped, found, slotRef_of_le stopTracked]
    · intro number later before
      rcases eq_or_lt_of_le (succ_le_of_lt later) with rfl | behind
      · exact agree.mp skipped
      · exact isNext.between number behind before
  · refine ⟨slot + 1, ?_, by omega, by rwa [← agree], by omega⟩
    simp [nextNonskippedSlotAfter, nextSlot_of_lt below, slotRef_of_le tracked, skipped]

/-- The certificate of `vote` has been stored, its handler has not run yet. -/
structure Pending (view : ChainView) (vote : Vote) (pool : Pool n) : Prop where
  matched : pool.Matches view
  stores : pool.Stores (view.certify vote).certified
  above : view.first ≤ vote.referencedSlot
  fresh : ∀ other, view.certified other → other.kind = vote.kind → other.referencedSlot ≠ vote.referencedSlot
  regular : Regular (view.certify vote).certified

namespace Pending

variable {vote : Vote}

lemma bounded (pending : pool.Pending view vote) : ∀ number, pool.state.trackedEnd ≤ number → ¬ view.Skipped number := by
  intro number beyond skipped
  exact (pending.stores.open_of_untouched beyond).2 (.inr skipped)

lemma below (pending : pool.Pending view vote) : vote.referencedSlot + 1 < 2 ^ 32 :=
  pending.regular.below vote (.inl rfl)

lemma nextNonskipped (pending : pool.Pending view vote) : ∃ stop, pool.nextNonskippedSlotAfter vote.referencedSlot = .ok stop ∧
      IsNext view.Skipped vote.referencedSlot stop := by
  have above := pending.above
  refine nextNonskippedSlotAfter_spec pending.matched.ends pending.below (by omega) (by rw [pending.matched.dropped]; omega) ?_ pending.bounded
  rw [pending.stores.isSkipped_iff]
  have different : (Vote.skip (vote.referencedSlot + 1)) ≠ vote := by
    intro same
    have located := congrArg Vote.referencedSlot same
    simp [Vote.referencedSlot] at located
  simp [ChainView.Skipped, different]

end Pending

lemma availableBase_modifySlot (pool : Pool n) (slot other : Nat) (parent : ParentId) :
    ((pool.modifySlot slot (·.addAvailableBase parent)).state.slots other).availableBase =
      if other = slot then addBase (pool.state.slots slot).availableBase parent
      else (pool.state.slots other).availableBase := by
  simp only [modifySlot, ConsensusState.modifySlot_slots]
  split
  · unfold SlotState.addAvailableBase addBase
    cases found : (pool.state.slots slot).availableBase with
    | none => rfl
    | some base =>
      simp only
      split
      · rfl
      · exact found
  · rfl

lemma availableBase_inheritBase (pool : Pool n) (slot stop other : Nat) :
    ((pool.inheritBase slot stop).state.slots other).availableBase = if other = stop then
        inheritedBase (pool.state.slots slot).availableBase (pool.state.slots stop).availableBase
      else (pool.state.slots other).availableBase := by
  cases found : (pool.state.slots slot).availableBase with
  | none =>
    simp only [inheritBase, found, inheritedBase]
    split
    next same => rw [same]
    next => rfl
  | some base =>
    simp only [inheritBase, found, inheritedBase]
    exact availableBase_modifySlot pool stop other base

lemma Pending.notarize_bases (matched : pool.Matches view) (above : view.first ≤ id.slot) (fresh : ¬ view.NotarizedAt id.slot)
    (clean : ConflictFree (view.certify (.notarize id)).certified) {stop : Nat}
    (isNext : IsNext view.Skipped id.slot stop) {slot : Nat} (notFinalized : view.first ≤ slot)
    (notSkipped : ¬ view.Skipped slot) : (view.certify (.notarize id)).Tracks slot
      ((pool.modifySlot stop (·.addAvailableBase (some id))).state.slots slot).availableBase := by
  rw [availableBase_modifySlot]
  split
  next same =>
    subst same
    exact certify_notarize_tracks clean above fresh isNext (matched.bases _ notFinalized notSkipped)
  next different =>
    have notNext : ¬ IsNext view.Skipped id.slot slot := fun other =>
      different (other.unique isNext)
    intro parent
    rw [certify_notarize_isBase_iff notSkipped notNext]
    exact matched.bases slot notFinalized notSkipped parent

/-- Handlers end by advancing the present slot over settled bookkeeping. -/
lemma Settled.advancePresent (bus : Bus n) (settled : pool.Settled view) (regular : Regular view.certified)
    (stores : pool.Stores view.certified) (reached : view.first ≤ pool.now)
    (passed : pool.isStarted = true → ∀ slot, view.first ≤ slot → slot < pool.now → view.NotarizedAt slot ∨ view.Skipped slot)
    (waiting : pool.isStarted = false → pool.now = view.first) : ∃ next, pool.advancePresent bus = .ok next ∧ next.Matches view ∧
      Announces bus view pool next := by
  obtain ⟨now, window, events, result, present, unmoved, announces⟩ :=
    advancePresent_spec bus stores regular settled.recorded reached passed
  refine ⟨_, result, ?_, announces⟩
  exact { settled with
    present
    waiting := fun notStarted => (unmoved notStarted).trans (waiting notStarted) }

lemma Announces.of_same (announces : Announces bus view pool next) {earlier : Pool n}
    (published : announcedWindows pool.published = announcedWindows earlier.published)
    (window : pool.firstNonannouncedWindow = earlier.firstNonannouncedWindow) : Announces bus view earlier next := by
  unfold Announces at announces ⊢
  rwa [published, window] at announces

lemma handleSavedNotarCertificate_spec (bus : Bus n)
    (pending : pool.Pending view (.notarize id)) : ∃ next, pool.handleSavedNotarCertificate bus id cert = .ok next ∧
      next.Matches (view.certify (.notarize id)) ∧ Announces bus (view.certify (.notarize id)) pool next := by
  obtain ⟨stop, found, isNext⟩ := pending.nextNonskipped
  obtain ⟨matched, stores, above, fresh, regular⟩ := pending
  have notNotarized : ¬ view.NotarizedAt id.slot := by
    rintro ⟨other, located, held⟩
    exact fresh _ held rfl located
  have update : Update pool ((pool.publish (.notarizationObserved id cert)).modifySlot stop (·.addAvailableBase (some id))) :=
    (Update.publish pool rfl rfl).trans (.addAvailableBase _ _ _)
  have settled : Settled (view.certify (.notarize id))
      ((pool.publish (.notarizationObserved id cert)).modifySlot stop (·.addAvailableBase (some id))) := {
    dropped := matched.dropped
    aligned := matched.aligned
    last := matched.last
    finals := fun other held => matched.finals other (by simpa using held)
    lastCertified := fun other last => .inr (matched.lastCertified other last)
    ends := matched.ends.congr (skipped_certify_notarize id)
    bases := fun slot notFinalized notSkipped =>
      Pending.notarize_bases matched above notNotarized regular.toConflictFree isNext notFinalized (by simpa using notSkipped) }
  obtain ⟨next, result, nextMatched, announces⟩ := settled.advancePresent bus regular
    (stores.frame update.toFrame) matched.first_le_now
    (fun started slot notFinalized before => by
      simp only [notarizedAt_certify_notarize, skipped_certify_notarize]
      exact ((matched.present started).passed slot notFinalized before).imp_left .inr)
    matched.waiting
  refine ⟨next, ?_, nextMatched, announces.of_same (by simp [publish, modifySlot, announcedWindows]) rfl⟩
  exact bind_eq_ok.mpr ⟨stop, found, result⟩

lemma Pending.skip_bases {skipSlot stop : Nat} (matched : pool.Matches view)
    (above : view.first ≤ skipSlot) (fresh : ¬ view.Skipped skipSlot)
    (clean : ConflictFree (view.certify (.skip skipSlot)).certified)
    (isNext : IsNext view.Skipped skipSlot stop) {slot : Nat} (notFinalized : view.first ≤ slot)
    (notSkipped : ¬ view.Skipped slot) : (view.certify (.skip skipSlot)).Tracks slot
      ((pool.inheritBase skipSlot stop).state.slots slot).availableBase := by
  have skipTracks := matched.bases skipSlot above fresh
  have tracks := matched.bases slot notFinalized notSkipped
  rw [availableBase_inheritBase]
  split
  next same =>
    subst same
    exact certify_skip_tracks clean above fresh isNext skipTracks tracks
  next other =>
    have notNext : ¬ IsNext view.Skipped skipSlot slot := fun next => other (next.unique isNext)
    intro parent
    rw [certify_skip_isBase_iff notSkipped notNext]
    exact tracks parent

lemma handleSavedSkipCertificate_spec (bus : Bus n) {skipSlot : Nat} (pending : pool.Pending view (.skip skipSlot)) :
    ∃ next, pool.handleSavedSkipCertificate bus skipSlot = .ok next ∧ next.Matches (view.certify (.skip skipSlot)) ∧
      Announces bus (view.certify (.skip skipSlot)) pool next := by
  obtain ⟨stop, found, isNext⟩ := pending.nextNonskipped
  obtain ⟨matched, stores, above, fresh, regular⟩ := pending
  have below : skipSlot + 1 < 2 ^ 32 := regular.below _ (.inl rfl)
  have notSkipped : ¬ view.Skipped skipSlot := fun held => fresh _ held rfl rfl
  have update : Update pool ((pool.extendSkipInterval skipSlot stop).inheritBase skipSlot stop) :=
    (extendSkipInterval_update _ _ _).trans (inheritBase_update _ _ _)
  have settled : Settled (view.certify (.skip skipSlot))
      ((pool.extendSkipInterval skipSlot stop).inheritBase skipSlot stop) := {
    dropped := by
      rw [first_certify_skip, ← matched.dropped]
      unfold inheritBase
      dsimp only
      split <;> rfl
    aligned := matched.aligned
    last := matched.last
    finals := fun other held => matched.finals other (by simpa using held)
    lastCertified := fun other last => .inr (matched.lastCertified other last)
    ends := by
      simp only [extendSkipInterval, nextSlot_of_lt below]
      exact matched.ends.mark above notSkipped (skipped_certify_skip skipSlot) isNext
    bases := fun slot notFinalized notSkippedNow => by
      rw [skipped_certify_skip, not_or] at notSkippedNow
      exact Pending.skip_bases matched above notSkipped regular.toConflictFree isNext notFinalized notSkippedNow.2 }
  obtain ⟨next, result, nextMatched, announces⟩ := settled.advancePresent bus regular
    (stores.frame update.toFrame) matched.first_le_now
    (fun started slot notFinalized before => by
      simp only [notarizedAt_certify_skip, skipped_certify_skip]
      exact ((matched.present started).passed slot notFinalized before).imp_right .inr)
    matched.waiting
  exact ⟨next, bind_eq_ok.mpr ⟨stop, found, result⟩, nextMatched, announces.of_same rfl rfl⟩

lemma addFinalizedBase_spec (pending : pool.Pending view (.finalize id)) :
    ∃ state, pool.addFinalizedBase id = .ok { pool with state } ∧ state.firstNonFinalizedSlot = pool.state.firstNonFinalizedSlot ∧
      ∀ slot, id.slot < slot → ¬ view.Skipped slot →
        (view.certify (.finalize id)).Tracks slot (state.slots slot).availableBase := by
  obtain ⟨stop, found, isNext⟩ := pending.nextNonskipped
  obtain ⟨matched, stores, above, fresh, regular⟩ := pending
  have notSkipped : ¬ view.Skipped id.slot := fun skipped =>
    regular.finalNotSkipped id (.inl rfl) (.inr skipped)
  have notarizedId : ∀ other, view.certified (.notarize other) → other.slot = id.slot →
      other = id := fun other held located =>
    regular.oneCandidate _ _ other id (.inr held) (.inl rfl) rfl rfl located
  have notarized_iff : (pool.state.slots id.slot).isNotarized = true ↔
      view.NotarizedAt id.slot := by
    rw [stores.isNotarized_iff]
    simp [ChainView.NotarizedAt]
  have notFinalized : ∀ slot, id.slot < slot → view.first ≤ slot := fun slot after =>
    le_trans above (le_of_lt after)
  by_cases notarized : (pool.state.slots id.slot).isNotarized = true
  · refine ⟨pool.state, by simp [addFinalizedBase, notarized], rfl, ?_⟩
    obtain ⟨other, located, held⟩ := notarized_iff.mp notarized
    rw [notarizedId other held located] at held
    have cleanBefore : ConflictFree view.certified := regular.toConflictFree.subset fun vote held => .inr held
    intro slot after slotNotSkipped parent
    rw [certify_finalize_isBase_iff cleanBefore above held notSkipped after]
    exact matched.bases slot (notFinalized slot after) slotNotSkipped parent
  · have cleanNotarized := clean_certify_notarize regular.toConflictFree
    refine ⟨(pool.modifySlot stop (·.addAvailableBase (some id))).state, ?_, rfl, ?_⟩
    · rw [addFinalizedBase, if_pos (by simp [notarized])]
      exact bind_eq_ok.mpr ⟨stop, found, rfl⟩
    intro slot after slotNotSkipped parent
    have tracks := Pending.notarize_bases matched above (by rwa [← notarized_iff])
      cleanNotarized isNext (notFinalized slot after) slotNotSkipped parent
    rw [← (agree_certify_finalize id).isBase, certify_finalize_isBase_iff cleanNotarized above (.inl rfl)
        (by simpa using notSkipped) after]
    exact tracks

lemma advancePast_spec (bus : Bus n) (stores : pool.Stores view.certified) (regular : Regular view.certified)
    (recorded : pool.Recorded view) {slot : Nat} (first : view.first = nextSlot slot)
    (passed : slot < pool.now → pool.isStarted = true ∧ view.IsPresent pool.now) :
    ∃ now window events, pool.advancePast bus slot = .ok { pool with
        now
        firstNonannouncedWindow := window
        published := pool.published ++ events } ∧
      (pool.isStarted = true → view.IsPresent now) ∧
      (pool.isStarted = false → now = view.first) ∧
      Announces bus view pool { pool with
        now
        firstNonannouncedWindow := window
        published := pool.published ++ events } := by
  by_cases behind : pool.now ≤ slot
  · have jumped : Recorded view { pool with now := nextSlot slot } := ⟨recorded.tracked, recorded.bases⟩
    have jumpedStores : Stores view.certified { pool with now := nextSlot slot } :=
      ⟨⟨stores.typed, stores.held⟩, stores.untouched⟩
    obtain ⟨now, window, events, result, present, unmoved, announces⟩ :=
      advancePresent_spec bus jumpedStores regular jumped (le_of_eq first)
        (fun _ other notFinalized before => by simp only at before; omega)
    refine ⟨now, window, events, ?_, present, ?_, announces.of_same rfl rfl⟩
    · rw [advancePast, if_pos behind]
      exact result
    · exact fun notStarted => (unmoved notStarted).trans first.symm
  · obtain ⟨started, present⟩ := passed (by omega)
    refine ⟨pool.now, pool.firstNonannouncedWindow, [], ?_, fun _ => present, by simp [started], .inl ⟨by simp, rfl⟩⟩
    rw [advancePast, if_neg behind, append_nil]

lemma IsPresent_certify_finalize {now : Nat} (present : view.IsPresent now)
    (above : view.first ≤ id.slot) (behind : id.slot < now) : (view.certify (.finalize id)).IsPresent now where
  notFinalized := behind
  passed slot notFinalized before := by
    simp only [first_certify_finalize] at notFinalized
    simpa using present.passed slot (by omega) before
  open_ := by simpa using present.open_

lemma handleSavedFinalCertificate_spec (bus : Bus n)
    (pending : pool.Pending view (.finalize id)) : ∃ next, pool.handleSavedFinalCertificate bus id cert = .ok next ∧
      next.Matches (view.certify (.finalize id)) ∧ Announces bus (view.certify (.finalize id)) pool next := by
  obtain ⟨state, based, sameFirst, bases⟩ := addFinalizedBase_spec pending
  obtain ⟨matched, stores, above, fresh, regular⟩ := pending
  rw [Vote.referencedSlot_finalize] at above
  have next : nextSlot id.slot = id.slot + 1 := nextSlot_of_lt (regular.below _ (.inl rfl))
  have notSkipped : ¬ view.Skipped id.slot := fun skipped =>
    regular.finalNotSkipped id (.inl rfl) (.inr skipped)
  have checkSkipped := stores.final_not_skipped regular.toConflictFree (.inl rfl : (view.certify (.finalize id)).certified _)
  have checkNotarized := stores.final_not_opposed regular.toConflictFree (.inl rfl : (view.certify (.finalize id)).certified _)
  have update : Update pool (({ pool with state } : Pool n).recordFinalized id cert) :=
    (addFinalizedBase_update based).trans (recordFinalized_update _ _ _)
  have recorded : Recorded (view.certify (.finalize id))
      (({ pool with state } : Pool n).recordFinalized id cert) := by
    refine ⟨?_, fun slot after slotNotSkipped => bases slot after (by simpa using slotNotSkipped)⟩
    have first := matched.dropped
    simp only [recordFinalized, publish, sameFirst, first_certify_finalize]
    omega
  -- `advance_present` runs before the finalized slots are dropped.
  obtain ⟨now, window, events, advanced, present, waiting, announces⟩ :=
    advancePast_spec bus (stores.frame update.toFrame) regular recorded
      ((first_certify_finalize id).trans next.symm) (by
      intro behind
      by_cases started : pool.isStarted = true
      · exact ⟨started, IsPresent_certify_finalize (matched.present started) above behind⟩
      · have waiting := matched.waiting (by simpa using started)
        simp only [recordFinalized, publish] at behind
        omega)
  have reduced : pool.handleSavedFinalCertificate bus id cert =
      .ok (dropFinalized { ({ pool with state } : Pool n).recordFinalized id cert with
        now
        firstNonannouncedWindow := window
        published := (({ pool with state } : Pool n).recordFinalized id cert).published ++ events }
        id.slot) := by
    simp only [handleSavedFinalCertificate]
    rw [if_neg checkSkipped, if_neg (not_not.mpr checkNotarized)]
    exact bind_eq_ok.mpr ⟨_, based, bind_eq_ok.mpr ⟨_, advanced, rfl⟩⟩
  refine ⟨_, reduced, ?_, ?_⟩
  · exact {
      dropped := by
        have dropped := matched.dropped
        change max state.firstNonFinalizedSlot (nextSlot id.slot) = id.slot + 1
        omega
      aligned := next
      last := rfl
      finals := by
        rintro other (same | held)
        · cases same
          exact lt_succ_self _
        · exact lt_succ_of_lt (lt_of_lt_of_le (matched.finals other held) above)
      lastCertified := by
        rintro other last
        cases last
        exact .inl rfl
      ends := (matched.ends.raise above notSkipped).congr (skipped_certify_finalize id)
      bases := fun slot after slotNotSkipped => bases slot after (by simpa using slotNotSkipped)
      present := present
      waiting := waiting }
  · exact announces.of_same (by simp [recordFinalized, publish, announcedWindows]) rfl

lemma handleTypedSavedCertificate_spec (bus : Bus n) (pending : pool.Pending view cert.vote) :
    ∃ next, pool.handleTypedSavedCertificate bus cert = .ok next ∧ next.Matches (view.certify cert.vote) ∧
      next.Stores (view.certify cert.vote).certified ∧ Announces bus (view.certify cert.vote) pool next := by
  obtain ⟨next, result, matched, announces⟩ :
      ∃ next, pool.handleTypedSavedCertificate bus cert = .ok next ∧
        next.Matches (view.certify cert.vote) ∧
        Announces bus (view.certify cert.vote) pool next := by
    unfold handleTypedSavedCertificate
    cases same : cert.vote with
    | notarize id => exact handleSavedNotarCertificate_spec bus (same ▸ pending)
    | skip slot => exact handleSavedSkipCertificate_spec bus (same ▸ pending)
    | finalize id => exact handleSavedFinalCertificate_spec bus (same ▸ pending)
  exact ⟨next, result, matched, pending.stores.frame (handleTypedSavedCertificate_update result).toFrame, announces⟩

end Pool

end TonNode.Simplex
