import Mathlib

/-!
# Runs of marked naturals

A predicate on the naturals from `low` on is summarised by the ends of its
maximal runs. The summary answers "where does the run at `x` stop" with one
ordered-set lookup and is maintained under marking and under raising `low`.
-/

namespace TonNode.Lib

def lowerBound (members : Finset Nat) (bound : Nat) : Option Nat :=
  if found : (members.filter (bound ≤ ·)).Nonempty then
    some ((members.filter (bound ≤ ·)).min' found)
  else
    none

lemma lowerBound_eq_some {members : Finset Nat} {bound least : Nat} (member : least ∈ members)
    (above : bound ≤ least) (minimal : ∀ other ∈ members, bound ≤ other → least ≤ other) :
    lowerBound members bound = some least := by
  have candidate : least ∈ members.filter (bound ≤ ·) := by simp [member, above]
  have found : (members.filter (bound ≤ ·)).Nonempty := ⟨least, candidate⟩
  rw [lowerBound, dif_pos found, Option.some_inj]
  refine le_antisymm (Finset.min'_le _ _ candidate) (Finset.le_min' _ _ _ ?_)
  intro other otherMember
  obtain ⟨inMembers, otherAbove⟩ := Finset.mem_filter.mp otherMember
  exact minimal other inMembers otherAbove

/-- `next` is the first unmarked number after `start`. -/
structure IsNext (marked : Nat → Prop) (start next : Nat) : Prop where
  after : start < next
  unmarked : ¬ marked next
  between : ∀ number, start < number → number < next → marked number

variable {marked : Nat → Prop}

lemma IsNext.unique {start left right : Nat}
    (leftNext : IsNext marked start left) (rightNext : IsNext marked start right) : left = right := by
  rcases Nat.lt_trichotomy left right with below | same | above
  · exact absurd (rightNext.between left leftNext.after below) leftNext.unmarked
  · exact same
  · exact absurd (leftNext.between right rightNext.after above) rightNext.unmarked

/-- `ends` holds exactly the first numbers after the maximal runs of marked
numbers that are not below `low`. -/
def RunEnds (low : Nat) (marked : Nat → Prop) (ends : Finset Nat) : Prop :=
  ∀ stop, stop ∈ ends ↔ ∃ last, stop = last + 1 ∧ low ≤ last ∧ marked last ∧ ¬ marked (last + 1)

namespace RunEnds

variable {low : Nat} {ends : Finset Nat} {otherMarked : Nat → Prop}

lemma empty (low : Nat) (unmarked : ∀ number, ¬ marked number) : RunEnds low marked ∅ := by
  intro stop
  simp [unmarked]

lemma unique {other : Finset Nat} (left : RunEnds low marked ends) (right : RunEnds low otherMarked other)
    (same : ∀ number, low ≤ number → (marked number ↔ otherMarked number)) : ends = other := by
  ext stop
  rw [left stop, right stop]
  constructor
  · rintro ⟨last, rfl, above, isMarked, stops⟩
    exact ⟨last, rfl, above, (same last above).mp isMarked, fun marks => stops ((same (last + 1) (by omega)).mpr marks)⟩
  · rintro ⟨last, rfl, above, isMarked, stops⟩
    exact ⟨last, rfl, above, (same last above).mpr isMarked, fun marks => stops ((same (last + 1) (by omega)).mp marks)⟩

section

variable (summary : RunEnds low marked ends)
include summary

lemma congr (same : ∀ number, otherMarked number ↔ marked number) : RunEnds low otherMarked ends := by
  have equal : otherMarked = marked := funext fun number => propext (same number)
  rwa [equal]

lemma lowerBound_of_marked {start limit : Nat} (above : low ≤ start) (isMarked : marked start)
    (bounded : ∀ number, limit ≤ number → ¬ marked number) :
    ∃ stop, lowerBound ends start = some stop ∧ IsNext marked start stop := by
  classical
  have stops : ∃ number, start < number ∧ ¬ marked number := ⟨max limit (start + 1), by omega, bounded _ (by omega)⟩
  obtain ⟨after, unmarked⟩ := Nat.find_spec stops
  have between : ∀ number, start ≤ number → number < Nat.find stops → marked number := by
    intro number notBefore before
    rcases Nat.eq_or_lt_of_le notBefore with rfl | later
    · exact isMarked
    · by_contra unmarkedNumber
      exact Nat.find_min stops before ⟨later, unmarkedNumber⟩
  have member : Nat.find stops ∈ ends := by
    refine (summary _).mpr ⟨Nat.find stops - 1, by omega, by omega, between _ (by omega) (by omega), ?_⟩
    rwa [Nat.sub_add_cancel (by omega)]
  refine ⟨Nat.find stops, lowerBound_eq_some member (by omega) ?_, after, unmarked,
    fun number later before => between number (by omega) before⟩
  intro other otherMember notBelow
  obtain ⟨last, rfl, _, _, lastStops⟩ := (summary other).mp otherMember
  by_contra earlier
  exact lastStops (between (last + 1) notBelow (by omega))

lemma mark {number next : Nat} (above : low ≤ number) (fresh : ¬ marked number)
    {marked' : Nat → Prop} (marks : ∀ other, marked' other ↔ other = number ∨ marked other) (isNext : IsNext marked number next) :
    RunEnds low marked' (if next = number + 1 then insert (number + 1) (ends.erase number) else ends.erase number) := by
  have nextUnmarked : next = number + 1 ↔ ¬ marked (number + 1) := by
    have after := isNext.after
    constructor
    · rintro rfl
      exact isNext.unmarked
    · intro unmarked
      by_contra different
      exact unmarked (isNext.between (number + 1) (by omega) (by omega))
  have erased : ∀ stop, stop ∈ ends.erase number ↔ ∃ last, stop = last + 1 ∧ low ≤ last ∧
      marked last ∧ ¬ marked' (last + 1) := by
    intro stop
    rw [Finset.mem_erase, summary stop]
    constructor
    · rintro ⟨different, last, rfl, notBelow, isMarked, stops⟩
      exact ⟨last, rfl, notBelow, isMarked, by simp [marks, different, stops]⟩
    · rintro ⟨last, rfl, notBelow, isMarked, stops⟩
      rw [marks, not_or] at stops
      exact ⟨stops.1, last, rfl, notBelow, isMarked, stops.2⟩
  have both : ∀ stop, (∃ last, stop = last + 1 ∧ low ≤ last ∧ marked' last ∧
      ¬ marked' (last + 1)) ↔ (stop = number + 1 ∧ ¬ marked (number + 1)) ∨
        stop ∈ ends.erase number := by
    intro stop
    rw [erased stop]
    constructor
    · rintro ⟨last, rfl, notBelow, isMarked, stops⟩
      rcases (marks last).mp isMarked with rfl | old
      · exact .inl ⟨rfl, fun isOld => stops ((marks _).mpr (.inr isOld))⟩
      · exact .inr ⟨last, rfl, notBelow, old, stops⟩
    · rintro (⟨rfl, unmarked⟩ | ⟨last, rfl, notBelow, isMarked, stops⟩)
      · exact ⟨number, rfl, above, (marks _).mpr (.inl rfl), by simp [marks, unmarked]⟩
      · exact ⟨last, rfl, notBelow, (marks _).mpr (.inr isMarked), stops⟩
  intro stop
  rw [both stop]
  split
  next same => simp [nextUnmarked.mp same]
  next different =>
    have stillMarked : marked (number + 1) := by
      by_contra unmarked
      exact different (nextUnmarked.mpr unmarked)
    simp [stillMarked]

lemma raise {number : Nat} (above : low ≤ number) (unmarked : ¬ marked number) :
    RunEnds (number + 1) marked (ends.filter (number < ·)) := by
  intro stop
  rw [Finset.mem_filter, summary stop]
  constructor
  · rintro ⟨⟨last, rfl, _, isMarked, stops⟩, later⟩
    have different : last ≠ number := by
      rintro rfl
      exact unmarked isMarked
    exact ⟨last, rfl, by omega, isMarked, stops⟩
  · rintro ⟨last, rfl, notBelow, isMarked, stops⟩
    exact ⟨⟨last, rfl, by omega, isMarked, stops⟩, by omega⟩

end

end RunEnds

end TonNode.Lib
