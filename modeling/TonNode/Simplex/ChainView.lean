import TonNode.Lib.RunEnds
import TonNode.Simplex.Votes

/-!
# What a set of certificates says about the chain

The last finalized block together with the certified votes determines which
parents a new block may extend. `IsBase` singles out the best one for a slot.
-/

namespace TonNode.Simplex

open Consensus Lib Nat

/-- One chain of candidates: a slot has one candidate and is not both finalized
and skipped. -/
structure ConflictFree (certified : Vote → Prop) : Prop where
  oneCandidate : ∀ left right leftId rightId, certified left → certified right →
    left.candidateId? = some leftId → right.candidateId? = some rightId → leftId.slot = rightId.slot → leftId = rightId
  finalNotSkipped : ∀ id, certified (.finalize id) → ¬ certified (.skip id.slot)

lemma ConflictFree.subset {certified larger : Vote → Prop} (clean : ConflictFree larger)
    (included : ∀ vote, certified vote → larger vote) : ConflictFree certified where
  oneCandidate left right leftId rightId leftHeld rightHeld :=
    clean.oneCandidate left right leftId rightId (included _ leftHeld) (included _ rightHeld)
  finalNotSkipped id held skipped := clean.finalNotSkipped id (included _ held) (included _ skipped)

/-- No conflict, and no vote for the last slot, whose successor wraps around. -/
structure Regular (certified : Vote → Prop) : Prop extends ConflictFree certified where
  below : ∀ vote, certified vote → vote.referencedSlot + 1 < 2 ^ 32

lemma Regular.subset {certified larger : Vote → Prop} (regular : Regular larger)
    (included : ∀ vote, certified vote → larger vote) : Regular certified where
  toConflictFree := regular.toConflictFree.subset included
  below vote held := regular.below vote (included vote held)

/-- The same for a finite set of votes, as a check that can be evaluated. -/
lemma ConflictFree.of_list {certified : Vote → Prop} (votes : List Vote) (listed : ∀ vote, certified vote → vote ∈ votes)
    (oneCandidate : ∀ left ∈ votes, ∀ right ∈ votes, ∀ leftId ∈ left.candidateId?,
      ∀ rightId ∈ right.candidateId?, leftId.slot = rightId.slot → leftId = rightId)
    (finalNotSkipped : ∀ vote ∈ votes, ∀ id ∈ vote.candidateId?, vote.kind = .finalize →
      .skip id.slot ∉ votes) : ConflictFree certified where
  oneCandidate left right leftId rightId leftHeld rightHeld leftFound rightFound :=
    oneCandidate left (listed left leftHeld) right (listed right rightHeld) leftId leftFound rightId rightFound
  finalNotSkipped id held skipped := finalNotSkipped (.finalize id) (listed _ held) id rfl rfl (listed _ skipped)

structure ChainView where
  lastFinalized : ParentId
  certified : Vote → Prop

namespace ChainView

def first (view : ChainView) : Nat := nextSlotAfterParent view.lastFinalized

def Skipped (view : ChainView) (slot : Nat) : Prop := view.certified (.skip slot)

def NotarizedAt (view : ChainView) (slot : Nat) : Prop :=
  ∃ id, id.slot = slot ∧ view.certified (.notarize id)

lemma below_of_passed {view : ChainView} {slot : Nat} (regular : Regular view.certified)
    (passed : view.NotarizedAt slot ∨ view.Skipped slot) : slot + 1 < 2 ^ 32 := by
  rcases passed with ⟨id, rfl, held⟩ | held
  · exact regular.below _ held
  · exact regular.below _ held

def Source (view : ChainView) (parent : ParentId) : Prop :=
  parent = view.lastFinalized ∨ ∃ id, parent = some id ∧ view.certified (.notarize id) ∧ view.first ≤ id.slot

/-- `parent` is the latest source that a block of `slot` can extend. -/
structure IsBase (view : ChainView) (slot : Nat) (parent : ParentId) : Prop where
  source : view.Source parent
  before : nextSlotAfterParent parent ≤ slot
  between : ∀ other, nextSlotAfterParent parent ≤ other → other < slot → view.Skipped other ∧ ¬ view.NotarizedAt other

/-- A candidate with this identifier and parent continues the certified chain. -/
structure Extends (view : ChainView) (id : CandidateId) (parent : ParentId) : Prop where
  notFinalized : view.first ≤ id.slot
  unopposed : ∀ other, view.certified (.notarize other) → other.slot = id.slot → other = id
  source : view.Source parent
  skipped : ∀ slot, nextSlotAfterParent parent ≤ slot → slot < id.slot → view.Skipped slot

/-- The certificates rule the candidate out for good. -/
def Contradicts (view : ChainView) (id : CandidateId) (parent : ParentId) : Prop :=
  view.first ≤ id.slot ∧ (nextSlotAfterParent parent < view.first ∨
      (∃ other, view.certified (.notarize other) ∧ other.slot = id.slot ∧ other ≠ id) ∨
      ∃ other, view.Source other ∧ nextSlotAfterParent other = nextSlotAfterParent parent ∧ other ≠ parent)

def Tracks (view : ChainView) (slot : Nat) (base : Option ParentId) : Prop :=
  ∀ parent, base = some parent ↔ view.IsBase slot parent

structure IsPresent (view : ChainView) (now : Nat) : Prop where
  notFinalized : view.first ≤ now
  passed : ∀ slot, view.first ≤ slot → slot < now → view.NotarizedAt slot ∨ view.Skipped slot
  open_ : ¬ view.NotarizedAt now ∧ ¬ view.Skipped now

def certify (view : ChainView) (vote : Vote) : ChainView where
  lastFinalized :=
    match vote with
    | .finalize id => some id
    | _ => view.lastFinalized
  certified other := other = vote ∨ view.certified other

variable {view : ChainView}

@[simp] lemma certify_certified (vote other : Vote) :
    (view.certify vote).certified other ↔ other = vote ∨ view.certified other := Iff.rfl

@[simp] lemma first_certify_notarize (id : CandidateId) :
    (view.certify (.notarize id)).first = view.first := rfl

@[simp] lemma first_certify_skip (slot : Nat) :
    (view.certify (.skip slot)).first = view.first := rfl

@[simp] lemma first_certify_finalize (id : CandidateId) :
    (view.certify (.finalize id)).first = id.slot + 1 := rfl

@[simp] lemma skipped_certify_notarize (id : CandidateId) (slot : Nat) :
    (view.certify (.notarize id)).Skipped slot ↔ view.Skipped slot := by
  simp [Skipped]

@[simp] lemma skipped_certify_finalize (id : CandidateId) (slot : Nat) :
    (view.certify (.finalize id)).Skipped slot ↔ view.Skipped slot := by
  simp [Skipped]

@[simp] lemma skipped_certify_skip (slot other : Nat) :
    (view.certify (.skip slot)).Skipped other ↔ other = slot ∨ view.Skipped other := by
  simp [Skipped]

@[simp] lemma notarizedAt_certify_notarize (id : CandidateId) (slot : Nat) :
    (view.certify (.notarize id)).NotarizedAt slot ↔ slot = id.slot ∨ view.NotarizedAt slot := by
  constructor
  · rintro ⟨other, located, same | held⟩
    · cases same
      exact .inl located.symm
    · exact .inr ⟨other, located, held⟩
  · rintro (rfl | ⟨other, located, held⟩)
    · exact ⟨id, rfl, .inl rfl⟩
    · exact ⟨other, located, .inr held⟩

@[simp] lemma notarizedAt_certify_finalize (id : CandidateId) (slot : Nat) :
    (view.certify (.finalize id)).NotarizedAt slot ↔ view.NotarizedAt slot := by
  simp [NotarizedAt]

@[simp] lemma notarizedAt_certify_skip (slot other : Nat) :
    (view.certify (.skip slot)).NotarizedAt other ↔ view.NotarizedAt other := by
  simp [NotarizedAt]

variable {parent : ParentId} {id : CandidateId} {slot skipSlot : Nat} {left right : ParentId} {previous : ParentId}

lemma Source.first_le (source : view.Source parent) : view.first ≤ nextSlotAfterParent parent := by
  rcases source with rfl | ⟨id, rfl, _, notBelow⟩
  · exact le_refl _
  · rw [nextSlotAfterParent_some]
    omega

lemma Source.eq_of_next_eq (clean : ConflictFree view.certified)
    (leftSource : view.Source left) (rightSource : view.Source right)
    (aligned : nextSlotAfterParent left = nextSlotAfterParent right) : left = right := by
  have notBoth : ∀ {id : CandidateId}, view.first ≤ id.slot →
      nextSlotAfterParent view.lastFinalized ≠ nextSlotAfterParent (some id) := by
    intro id notBelow same
    simp only [first, nextSlotAfterParent_some] at notBelow same
    omega
  rcases leftSource with rfl | ⟨leftId, rfl, leftHeld, leftAbove⟩ <;>
    rcases rightSource with rfl | ⟨rightId, rfl, rightHeld, rightAbove⟩
  · rfl
  · exact (notBoth rightAbove aligned).elim
  · exact (notBoth leftAbove aligned.symm).elim
  · simp only [nextSlotAfterParent_some, add_right_cancel_iff] at aligned
    rw [clean.oneCandidate _ _ leftId rightId leftHeld rightHeld rfl rfl aligned]

lemma Extends.not_contradicts (clean : ConflictFree view.certified)
    (extends_ : view.Extends id parent) : ¬ view.Contradicts id parent := by
  rintro ⟨_, below | ⟨other, held, located, different⟩ | ⟨other, otherSource, aligned, different⟩⟩
  · have above := extends_.source.first_le
    omega
  · exact different (extends_.unopposed other held located)
  · exact different (otherSource.eq_of_next_eq clean extends_.source aligned)

lemma IsBase.unique (clean : ConflictFree view.certified)
    (leftBase : view.IsBase slot left) (rightBase : view.IsBase slot right) : left = right := by
  -- A notarized source that starts later would sit inside the quiet stretch of the other.
  have notLater : ∀ {early late : ParentId}, view.IsBase slot early → view.IsBase slot late →
      ¬ nextSlotAfterParent early < nextSlotAfterParent late := by
    intro early late earlyBase lateBase below
    have firstLe := earlyBase.source.first_le
    rcases lateBase.source with rfl | ⟨id, rfl, held, _⟩
    · exact absurd below (by simpa [first] using firstLe)
    · have before := lateBase.before
      simp only [nextSlotAfterParent_some] at below before
      exact (earlyBase.between id.slot (by omega) (by omega)).2 ⟨id, rfl, held⟩
  have notBelow := notLater leftBase rightBase
  have notAbove := notLater rightBase leftBase
  exact leftBase.source.eq_of_next_eq clean rightBase.source (by omega)

lemma exists_isBase {source : ParentId} (isSource : view.Source source) (before : nextSlotAfterParent source ≤ slot)
    (passed : ∀ other, nextSlotAfterParent source ≤ other → other < slot → view.NotarizedAt other ∨ view.Skipped other) :
    ∃ parent, view.IsBase slot parent ∧ nextSlotAfterParent source ≤ nextSlotAfterParent parent := by
  induction slot, before using le_induction with
  | base => exact ⟨source, ⟨isSource, le_refl _, by omega⟩, le_refl _⟩
  | succ slot before ih =>
    obtain ⟨parent, isBase, later⟩ := ih fun other after below =>
      passed other after (by omega)
    by_cases notarized : view.NotarizedAt slot
    · obtain ⟨id, located, held⟩ := notarized
      have notBelow := isSource.first_le
      refine ⟨some id, ⟨.inr ⟨id, rfl, held, by omega⟩, ?_, ?_⟩, ?_⟩ <;> simp only [nextSlotAfterParent_some] <;> omega
    · have skipped := (passed slot before (by omega)).resolve_left notarized
      have extended := isBase.before
      refine ⟨parent, ⟨isBase.source, by omega, ?_⟩, later⟩
      intro other after below
      rcases Nat.lt_succ_iff_lt_or_eq.mp below with earlier | rfl
      · exact isBase.between other after earlier
      · exact ⟨skipped, notarized⟩

lemma IsPresent.exists_isBase {now : Nat} (present : view.IsPresent now) : ∃ parent, view.IsBase now parent := by
  have source : view.Source view.lastFinalized := .inl rfl
  obtain ⟨parent, isBase, _⟩ := ChainView.exists_isBase source present.notFinalized present.passed
  exact ⟨parent, isBase⟩

structure Agree (view other : ChainView) : Prop where
  lastFinalized : view.lastFinalized = other.lastFinalized
  certified : ∀ vote, view.first ≤ vote.referencedSlot → (view.certified vote ↔ other.certified vote)

namespace Agree

variable {other : ChainView}

lemma first (agree : Agree view other) : view.first = other.first := by
  rw [ChainView.first, ChainView.first, agree.lastFinalized]

lemma symm (agree : Agree view other) : Agree other view where
  lastFinalized := agree.lastFinalized.symm
  certified vote above := (agree.certified vote (by rwa [agree.first])).symm

section

variable (agree : Agree view other)
include agree

lemma skipped (above : view.first ≤ slot) : view.Skipped slot ↔ other.Skipped slot :=
  agree.certified (.skip slot) above

lemma notarizedAt (above : view.first ≤ slot) : view.NotarizedAt slot ↔ other.NotarizedAt slot := by
  constructor
  · rintro ⟨id, rfl, held⟩
    exact ⟨id, rfl, (agree.certified (.notarize id) above).mp held⟩
  · rintro ⟨id, rfl, held⟩
    exact ⟨id, rfl, (agree.certified (.notarize id) above).mpr held⟩

private lemma isBase_of (isBase : view.IsBase slot parent) : other.IsBase slot parent where
  source := by
    rcases isBase.source with rfl | ⟨id, rfl, held, above⟩
    · exact .inl agree.lastFinalized
    · exact .inr ⟨id, rfl, (agree.certified (.notarize id) above).mp held, agree.first ▸ above⟩
  before := isBase.before
  between number after below := by
    have above := le_trans isBase.source.first_le after
    obtain ⟨skipped, notNotarized⟩ := isBase.between number after below
    exact ⟨(agree.skipped above).mp skipped, fun notarized => notNotarized ((agree.notarizedAt above).mpr notarized)⟩

lemma isBase : view.IsBase slot parent ↔ other.IsBase slot parent :=
  ⟨agree.isBase_of, agree.symm.isBase_of⟩

lemma isPresent_unique {now otherNow : Nat}
    (present : view.IsPresent now) (otherPresent : other.IsPresent otherNow) : now = otherNow := by
  have notAfter : ∀ {left right : ChainView}, Agree left right → ∀ {now otherNow : Nat},
      left.IsPresent now → right.IsPresent otherNow → ¬ now < otherNow := by
    intro left right agree now otherNow present otherPresent below
    have above := present.notFinalized
    rcases otherPresent.passed now (agree.first ▸ above) below with notarized | skipped
    · exact present.open_.1 ((agree.notarizedAt above).mpr notarized)
    · exact present.open_.2 ((agree.skipped above).mpr skipped)
  have left := notAfter agree present otherPresent
  have right := notAfter agree.symm otherPresent present
  omega

end

end Agree

/-- The update of `add_available_base`: a parent that is not below the recorded
base replaces it. -/
def addBase (base : Option ParentId) (parent : ParentId) : Option ParentId :=
  match base with
  | none => some parent
  | some previous => if ParentId.le previous parent then some parent else some previous

def inheritedBase (skipBase base : Option ParentId) : Option ParentId :=
  match skipBase with
  | some parent => addBase base parent
  | none => base

lemma addBase_of_next_lt (below : nextSlotAfterParent previous < nextSlotAfterParent parent) :
    addBase (some previous) parent = some parent := by
  simp [addBase, ParentId.le_of_next_lt below]

lemma addBase_of_lt_next (above : nextSlotAfterParent parent < nextSlotAfterParent previous) :
    addBase (some previous) parent = some previous := by
  have notLe : ¬ ParentId.le previous parent = true := by
    intro ordered
    have next := ParentId.next_le_of_le ordered
    omega
  simp [addBase, notLe]

lemma Tracks.of_isBase (clean : ConflictFree view.certified) (isBase : view.IsBase slot parent) :
    view.Tracks slot (some parent) := by
  intro other
  constructor
  · rintro same
    cases same
    exact isBase
  · intro otherBase
    rw [isBase.unique clean otherBase]

lemma IsBase.certify_notarize (isBase : view.IsBase slot parent)
    (outside : nextSlotAfterParent parent ≤ id.slot → ¬ id.slot < slot) : (view.certify (.notarize id)).IsBase slot parent where
  source := by
    rcases isBase.source with rfl | ⟨sourceId, rfl, held, above⟩
    · exact .inl rfl
    · exact .inr ⟨sourceId, rfl, .inr held, above⟩
  before := isBase.before
  between other after below := by
    obtain ⟨skipped, notNotarized⟩ := isBase.between other after below
    simp only [skipped_certify_notarize, notarizedAt_certify_notarize, not_or]
    refine ⟨skipped, ?_, notNotarized⟩
    rintro rfl
    exact outside after below

lemma IsBase.of_certify_notarize (isBase : (view.certify (.notarize id)).IsBase slot parent) :
    parent = some id ∨ view.IsBase slot parent := by
  obtain ⟨source, before, between⟩ := isBase
  have quiet : ∀ other, nextSlotAfterParent parent ≤ other → other < slot →
      view.Skipped other ∧ ¬ view.NotarizedAt other := by
    intro other after below
    obtain ⟨skipped, notNotarized⟩ := between other after below
    simp only [skipped_certify_notarize, notarizedAt_certify_notarize, not_or] at skipped notNotarized
    exact ⟨skipped, notNotarized.2⟩
  rcases source with rfl | ⟨sourceId, rfl, same | held, above⟩
  · exact .inr ⟨.inl rfl, before, quiet⟩
  · cases same
    exact .inl rfl
  · exact .inr ⟨.inr ⟨sourceId, rfl, held, above⟩, before, quiet⟩

lemma certify_notarize_isBase_iff (notSkipped : ¬ view.Skipped slot) (notNext : ¬ IsNext view.Skipped id.slot slot) :
    (view.certify (.notarize id)).IsBase slot parent ↔ view.IsBase slot parent := by
  constructor
  · intro isBase
    rcases isBase.of_certify_notarize with rfl | old
    · refine (notNext ⟨isBase.before, notSkipped, fun other after below => ?_⟩).elim
      simpa using (isBase.between other after below).1
    · exact old
  · intro isBase
    refine isBase.certify_notarize fun after below => notNext ⟨below, notSkipped, ?_⟩
    intro number later earlier
    exact (isBase.between number (by omega) earlier).1

lemma certify_notarize_tracks {base : Option ParentId}
    (clean : ConflictFree (view.certify (.notarize id)).certified) (above : view.first ≤ id.slot)
    (fresh : ¬ view.NotarizedAt id.slot) (isNext : IsNext view.Skipped id.slot slot) (tracks : view.Tracks slot base) :
    (view.certify (.notarize id)).Tracks slot (addBase base (some id)) := by
  have isSource : (view.certify (.notarize id)).Source (some id) := .inr ⟨id, rfl, .inl rfl, above⟩
  cases base with
  | none =>
    have before : nextSlotAfterParent (some id) ≤ slot := isNext.after
    obtain ⟨parent, isBase, _⟩ := exists_isBase isSource before
      fun other after below => .inr (by simpa using isNext.between other after below)
    rcases isBase.of_certify_notarize with rfl | old
    · exact Tracks.of_isBase clean isBase
    · exact absurd ((tracks _).mpr old) (by simp)
  | some previous =>
    have previousBase := (tracks previous).mp rfl
    have different : nextSlotAfterParent previous ≠ id.slot + 1 := by
      intro same
      rcases previousBase.source with rfl | ⟨previousId, rfl, held, _⟩
      · simp only [first] at above
        omega
      · simp only [nextSlotAfterParent_some, add_right_cancel_iff] at same
        exact fresh ⟨previousId, same, held⟩
    rcases lt_or_gt_of_ne different with earlier | later
    · rw [addBase_of_next_lt (by simpa using earlier)]
      refine Tracks.of_isBase clean ⟨isSource, isNext.after, fun other after below => ?_⟩
      simp only [nextSlotAfterParent_some] at after
      obtain ⟨skipped, notNotarized⟩ := previousBase.between other (by omega) below
      simp only [skipped_certify_notarize, notarizedAt_certify_notarize, not_or]
      exact ⟨skipped, by omega, notNotarized⟩
    · rw [addBase_of_lt_next (by simpa using later)]
      exact Tracks.of_isBase clean (previousBase.certify_notarize fun after => by omega)

lemma IsBase.certify_skip (isBase : view.IsBase slot parent) : (view.certify (.skip skipSlot)).IsBase slot parent where
  source := by
    rcases isBase.source with rfl | ⟨sourceId, rfl, held, above⟩
    · exact .inl rfl
    · exact .inr ⟨sourceId, rfl, .inr held, above⟩
  before := isBase.before
  between other after below := by
    obtain ⟨skipped, notNotarized⟩ := isBase.between other after below
    simp only [skipped_certify_skip, notarizedAt_certify_skip]
    exact ⟨.inr skipped, notNotarized⟩

lemma IsBase.of_certify_skip (isBase : (view.certify (.skip skipSlot)).IsBase slot parent) :
    (nextSlotAfterParent parent ≤ skipSlot ∧ skipSlot < slot ∧ view.IsBase skipSlot parent ∧
      ∀ other, skipSlot < other → other < slot → view.Skipped other) ∨ view.IsBase slot parent := by
  obtain ⟨source, before, between⟩ := isBase
  have sourceBefore : view.Source parent := by
    rcases source with rfl | ⟨sourceId, rfl, same | held, above⟩
    · exact .inl rfl
    · cases same
    · exact .inr ⟨sourceId, rfl, held, above⟩
  have quiet : ∀ other, nextSlotAfterParent parent ≤ other → other < slot → other ≠ skipSlot →
      view.Skipped other ∧ ¬ view.NotarizedAt other := by
    intro other after below different
    obtain ⟨skipped, notNotarized⟩ := between other after below
    simp only [skipped_certify_skip, different, false_or, notarizedAt_certify_skip] at skipped notNotarized
    exact ⟨skipped, notNotarized⟩
  by_cases through : nextSlotAfterParent parent ≤ skipSlot ∧ skipSlot < slot
  · refine .inl ⟨through.1, through.2, ⟨sourceBefore, through.1, ?_⟩, ?_⟩
    · exact fun other after below => quiet other after (by omega) (by omega)
    · exact fun other after below => (quiet other (by omega) below (by omega)).1
  · exact .inr ⟨sourceBefore, before, fun other after below => quiet other after below (by omega)⟩

lemma certify_skip_isBase_iff (notSkipped : ¬ view.Skipped slot) (notNext : ¬ IsNext view.Skipped skipSlot slot) :
    (view.certify (.skip skipSlot)).IsBase slot parent ↔ view.IsBase slot parent := by
  constructor
  · intro isBase
    rcases isBase.of_certify_skip with ⟨_, below, _, between⟩ | old
    · exact (notNext ⟨below, notSkipped, between⟩).elim
    · exact old
  · exact IsBase.certify_skip

/-- The base of a newly skipped slot is inherited by the slot that follows it,
unless that slot already has a later base. -/
lemma certify_skip_tracks {skipBase base : Option ParentId}
    (clean : ConflictFree (view.certify (.skip skipSlot)).certified) (above : view.first ≤ skipSlot)
    (fresh : ¬ view.Skipped skipSlot) (isNext : IsNext view.Skipped skipSlot slot)
    (skipTracks : view.Tracks skipSlot skipBase) (tracks : view.Tracks slot base) :
    (view.certify (.skip skipSlot)).Tracks slot (inheritedBase skipBase base) := by
  have later : ∀ parent, view.IsBase slot parent → skipSlot < nextSlotAfterParent parent := by
    intro parent isBase
    by_contra notLater
    exact fresh (isBase.between skipSlot (by omega) isNext.after).1
  cases base with
  | some previous =>
    have previousBase := (tracks previous).mp rfl
    have kept : (view.certify (.skip skipSlot)).Tracks slot (some previous) := Tracks.of_isBase clean previousBase.certify_skip
    cases skipBase with
    | none => exact kept
    | some parent =>
      have parentBase := (skipTracks parent).mp rfl
      have parentBefore := parentBase.before
      have previousLater := later previous previousBase
      rw [inheritedBase, addBase_of_lt_next (lt_of_le_of_lt parentBefore previousLater)]
      exact kept
  | none =>
    have absent : ∀ parent, ¬ view.IsBase slot parent := by
      intro parent isBase
      exact absurd ((tracks parent).mpr isBase) (by simp)
    -- Without a base, neither the slot nor the stretch behind it is notarized.
    have notNotarized : ∀ other, skipSlot ≤ other → other < slot → ¬ view.NotarizedAt other := by
      rintro other after below ⟨id, rfl, held⟩
      have source : view.Source (some id) := .inr ⟨id, rfl, held, le_trans above after⟩
      have before : nextSlotAfterParent (some id) ≤ slot := below
      obtain ⟨parent, isBase, _⟩ := exists_isBase source before fun number notBelow earlier =>
        .inr (isNext.between number (lt_of_le_of_lt after notBelow) earlier)
      exact absent parent isBase
    cases skipBase with
    | none =>
      intro parent
      refine ⟨by simp [inheritedBase], fun isBase => ?_⟩
      rcases isBase.of_certify_skip with ⟨_, _, skipIsBase, _⟩ | old
      · exact absurd ((skipTracks parent).mpr skipIsBase) (by simp)
      · exact (absent parent old).elim
    | some parent =>
      have parentBase := (skipTracks parent).mp rfl
      refine Tracks.of_isBase clean ⟨parentBase.certify_skip.source, ?_, ?_⟩
      · exact le_trans parentBase.before (le_of_lt isNext.after)
      · intro other after below
        simp only [skipped_certify_skip, notarizedAt_certify_skip]
        rcases lt_trichotomy other skipSlot with earlier | rfl | behind
        · exact (parentBase.between other after earlier).imp_left .inr
        · exact ⟨.inl rfl, notNotarized _ (le_refl _) below⟩
        · exact ⟨.inr (isNext.between other behind below), notNotarized other (by omega) below⟩

lemma certify_finalize_isBase_iff (clean : ConflictFree view.certified)
    (above : view.first ≤ id.slot) (notarized : view.certified (.notarize id))
    (notSkipped : ¬ view.Skipped id.slot) (after : id.slot < slot) :
    (view.certify (.finalize id)).IsBase slot parent ↔ view.IsBase slot parent := by
  constructor
  · rintro ⟨source, before, between⟩
    refine ⟨?_, before, by simpa using between⟩
    rcases source with rfl | ⟨sourceId, rfl, same | held, sourceAbove⟩
    · exact .inr ⟨id, rfl, notarized, above⟩
    · cases same
    · rw [first_certify_finalize] at sourceAbove
      exact .inr ⟨sourceId, rfl, held, by omega⟩
  · rintro ⟨source, before, between⟩
    have late : id.slot < nextSlotAfterParent parent := by
      by_contra early
      exact notSkipped (between id.slot (by omega) after).1
    refine ⟨?_, before, by simpa using between⟩
    rcases source with rfl | ⟨sourceId, rfl, held, sourceAbove⟩
    · rw [first] at above
      omega
    · simp only [nextSlotAfterParent_some] at late
      rcases Nat.lt_succ_iff_lt_or_eq.mp late with later | same
      · exact .inr ⟨sourceId, rfl, .inr held, later⟩
      · rw [clean.oneCandidate _ _ sourceId id held notarized rfl rfl same.symm]
        exact .inl rfl

lemma clean_certify_notarize (clean : ConflictFree (view.certify (.finalize id)).certified) :
    ConflictFree (view.certify (.notarize id)).certified := by
  have named : ∀ vote voteId, (view.certify (.notarize id)).certified vote →
      vote.candidateId? = some voteId →
      ∃ other, (view.certify (.finalize id)).certified other ∧ other.candidateId? = some voteId := by
    rintro vote voteId (rfl | held) found
    · exact ⟨.finalize id, .inl rfl, found⟩
    · exact ⟨vote, .inr held, found⟩
  refine ⟨?_, ?_⟩
  · intro left right leftId rightId leftHeld rightHeld leftFound rightFound same
    obtain ⟨leftOther, leftCertified, leftNamed⟩ := named left leftId leftHeld leftFound
    obtain ⟨rightOther, rightCertified, rightNamed⟩ := named right rightId rightHeld rightFound
    exact clean.oneCandidate _ _ _ _ leftCertified rightCertified leftNamed rightNamed same
  · rintro other (same | held) (skipSame | skipped)
    · cases same
    · cases same
    · cases skipSame
    · exact clean.finalNotSkipped other (.inr held) (.inr skipped)

/-- A notarization of the finalized slot itself no longer matters. -/
lemma agree_certify_finalize (id : CandidateId) : Agree ((view.certify (.notarize id)).certify (.finalize id))
      (view.certify (.finalize id)) where
  lastFinalized := rfl
  certified vote above := by
    simp only [first_certify_finalize] at above
    have different : vote ≠ .notarize id := by
      rintro rfl
      simp [Vote.referencedSlot] at above
    simp [different]

end ChainView

end TonNode.Simplex
