import Mathlib

/-!
# Sorting by swapping each item to its place
-/

namespace TonNode.Lib

open List

variable {α : Type}

def swapAt (items : List α) (first second : Nat) : List α :=
  match items[first]?, items[second]? with
  | some left, some right => (items.set first right).set second left
  | _, _ => items

/-- While the item at `position` belongs elsewhere, it is swapped to where it belongs. -/
def settlePosition (place : α → Nat) : Nat → List α → Nat → List α
  | 0, items, _ => items
  | fuel + 1, items, position =>
    match items[position]? with
    | none => items
    | some item =>
      if place item = position then items
      else settlePosition place fuel (swapAt items position (place item)) position

def cycleSort (place : α → Nat) (items : List α) : List α :=
  (List.range items.length).foldl (settlePosition place items.length) items

lemma swapAt_getElem? {items : List α} {first second : Nat} (firstIn : first < items.length)
    (secondIn : second < items.length) (position : Nat) : (swapAt items first second)[position]? =
      if position = second then items[first]? else if position = first then items[second]? else items[position]? := by
  unfold swapAt
  rw [getElem?_eq_getElem firstIn, getElem?_eq_getElem secondIn]
  simp only [getElem?_set, length_set]
  by_cases atSecond : position = second
  · subst atSecond
    simp [secondIn]
  · by_cases atFirst : position = first
    · subst atFirst
      simp [atSecond, Ne.symm atSecond, firstIn]
    · simp [atSecond, atFirst, Ne.symm atSecond, Ne.symm atFirst]

@[simp] lemma swapAt_length (items : List α) (first second : Nat) : (swapAt items first second).length = items.length := by
  unfold swapAt
  split <;> simp

section Sorting

variable (place : α → Nat)

/-- Every item belongs to a place of its own. -/
structure Placeable (target items : List α) : Prop where
  length : items.length = target.length
  holds : ∀ item ∈ items, target[place item]? = some item
  apart : ∀ (first second : Nat) (left right : α), items[first]? = some left →
    items[second]? = some right → place left = place right → first = second

def Settled (items : List α) (position : Nat) : Prop :=
  items[position]?.map place = some position

instance (items : List α) (position : Nat) : Decidable (Settled place items position) :=
  inferInstanceAs (Decidable (_ = _))

variable {place}
variable {target items : List α} {item : α} {position : Nat} {fuel : Nat}

section

variable (placeable : Placeable place target items)
include placeable

lemma Placeable.place_lt (member : item ∈ items) : place item < items.length := by
  obtain ⟨inside, _⟩ := List.getElem?_eq_some_iff.mp (placeable.holds item member)
  rw [placeable.length]
  exact inside

section

variable (found : items[position]? = some item)
include found

lemma Placeable.swapAt : Placeable place target (Lib.swapAt items position (place item)) := by
  obtain ⟨positionIn, _⟩ := List.getElem?_eq_some_iff.mp found
  have placeIn := placeable.place_lt (mem_of_getElem? found)
  -- The position an item had before the swap.
  have source : ∀ (index : Nat) (other : α),
      (Lib.swapAt items position (place item))[index]? = some other →
        items[if index = place item then position else if index = position then place item
          else index]? = some other := by
    intro index other located
    rw [swapAt_getElem? positionIn placeIn] at located
    split_ifs at located ⊢ <;> exact located
  refine ⟨?_, ?_, ?_⟩
  · rw [swapAt_length]
    exact placeable.length
  · intro other member
    obtain ⟨index, located⟩ := mem_iff_getElem?.mp member
    exact placeable.holds other (mem_of_getElem? (source index other located))
  · intro first second left right leftFound rightFound same
    have equal := placeable.apart _ _ left right (source first left leftFound) (source second right rightFound) same
    split_ifs at equal <;> omega

lemma Settled.swapAt (elsewhere : place item ≠ position)
    {other : Nat} (settled : Settled place items other) : Settled place (Lib.swapAt items position (place item)) other := by
  obtain ⟨positionIn, _⟩ := List.getElem?_eq_some_iff.mp found
  have placeIn := placeable.place_lt (mem_of_getElem? found)
  obtain ⟨kept, located, belongs⟩ := Option.map_eq_some_iff.mp settled
  -- A settled position is neither of the two that are exchanged.
  have notPosition : other ≠ position := by
    intro same
    subst same
    rw [found] at located
    cases located
    exact elsewhere belongs
  have notPlace : other ≠ place item := by
    intro same
    have equal := placeable.apart other position kept item located found (by rw [belongs, same])
    exact notPosition equal
  unfold Settled
  rw [swapAt_getElem? positionIn placeIn, if_neg notPlace, if_neg notPosition]
  exact settled

lemma swapAt_settles : Settled place (Lib.swapAt items position (place item)) (place item) := by
  obtain ⟨positionIn, _⟩ := List.getElem?_eq_some_iff.mp found
  have placeIn := placeable.place_lt (mem_of_getElem? found)
  unfold Settled
  rw [swapAt_getElem? positionIn placeIn, if_pos rfl, found]
  rfl

end

end

def unsettled (place : α → Nat) (items : List α) : Finset Nat :=
  (Finset.range items.length).filter fun position => ¬ Settled place items position

lemma unsettled_swapAt (placeable : Placeable place target items)
    (found : items[position]? = some item) (elsewhere : place item ≠ position) :
    (unsettled place (Lib.swapAt items position (place item))).card < (unsettled place items).card := by
  have placeIn := placeable.place_lt (mem_of_getElem? found)
  apply Finset.card_lt_card
  refine Finset.ssubset_iff_subset_ne.mpr ⟨?_, ?_⟩
  · intro other member
    simp only [unsettled, Finset.mem_filter, Finset.mem_range, swapAt_length] at member ⊢
    exact ⟨member.1, fun settled => member.2 (settled.swapAt placeable found elsewhere)⟩
  · intro same
    have before : place item ∈ unsettled place items := by
      simp only [unsettled, Finset.mem_filter, Finset.mem_range]
      refine ⟨placeIn, ?_⟩
      intro settled
      obtain ⟨kept, located, belongs⟩ := Option.map_eq_some_iff.mp settled
      exact elsewhere (placeable.apart _ _ kept item located found belongs)
    rw [← same] at before
    simp only [unsettled, Finset.mem_filter] at before
    exact before.2 (swapAt_settles placeable found)

/-- The induction is on the fuel; each swap settles a position for good. -/
lemma settlePosition_spec (placeable : Placeable place target items)
    (enough : (unsettled place items).card ≤ fuel) (inside : position < items.length) :
    Placeable place target (settlePosition place fuel items position) ∧
      Settled place (settlePosition place fuel items position) position ∧ ∀ other, Settled place items other →
        Settled place (settlePosition place fuel items position) other := by
  induction fuel generalizing items with
  | zero =>
    refine ⟨placeable, ?_, fun _ settled => settled⟩
    by_contra loose
    have member : position ∈ unsettled place items := by
      simp only [unsettled, Finset.mem_filter, Finset.mem_range]
      exact ⟨inside, loose⟩
    have some_ := Finset.card_pos.mpr ⟨position, member⟩
    omega
  | succ fuel ih =>
    have found : items[position]? = some items[position] := getElem?_eq_getElem inside
    rw [settlePosition, found]
    simp only []
    split
    · rename_i belongs
      refine ⟨placeable, ?_, fun _ settled => settled⟩
      unfold Settled
      rw [found, Option.map_some, belongs]
    · rename_i elsewhere
      have fewer := unsettled_swapAt placeable found elsewhere
      obtain ⟨kept, here, others⟩ := ih (placeable.swapAt found) (by omega) (by rw [swapAt_length]; exact inside)
      exact ⟨kept, here, fun other settled =>
        others other (settled.swapAt placeable found elsewhere)⟩

lemma card_unsettled_le (place : α → Nat) (items : List α) : (unsettled place items).card ≤ items.length := by
  calc (unsettled place items).card ≤ (Finset.range items.length).card :=
        Finset.card_le_card (Finset.filter_subset _ _)
    _ = items.length := Finset.card_range _

lemma foldl_settlePosition (placeable : Placeable place target items)
    (enough : items.length ≤ fuel) {positions : List Nat} (inside : ∀ position ∈ positions, position < items.length) :
    Placeable place target (positions.foldl (settlePosition place fuel) items) ∧ (∀ position ∈ positions,
        Settled place (positions.foldl (settlePosition place fuel) items) position) ∧ ∀ other, Settled place items other →
        Settled place (positions.foldl (settlePosition place fuel) items) other := by
  induction positions generalizing items with
  | nil => exact ⟨placeable, by simp, fun _ settled => settled⟩
  | cons position rest ih =>
    obtain ⟨kept, here, others⟩ := settlePosition_spec placeable
      (Nat.le_trans (card_unsettled_le place items) enough) (inside position (by simp))
    have length : (settlePosition place fuel items position).length = items.length := by
      rw [kept.length, placeable.length]
    obtain ⟨restKept, restSettled, restOthers⟩ := ih kept (by rw [length]; exact enough) (by
      intro other member
      rw [length]
      exact inside other (by simp [member]))
    refine ⟨restKept, ?_, fun other settled => restOthers other (others other settled)⟩
    exact forall_mem_cons.mpr ⟨restOthers position here, restSettled⟩

lemma cycleSort_eq (placeable : Placeable place target items) : cycleSort place items = target := by
  obtain ⟨kept, settled, _⟩ := foldl_settlePosition placeable (Nat.le_refl _) (fun position member => mem_range.mp member)
  have length : (cycleSort place items).length = target.length := kept.length
  apply ext_getElem?
  intro position
  by_cases inside : position < items.length
  · obtain ⟨item, located, belongs⟩ := Option.map_eq_some_iff.mp (settled position (mem_range.mpr inside))
    have final := kept.holds item (mem_of_getElem? located)
    rw [belongs] at final
    exact located.trans final.symm
  · have outside : target.length ≤ position := by
      rw [← placeable.length]
      omega
    rw [getElem?_eq_none_iff.mpr outside, getElem?_eq_none_iff.mpr (by rw [length]; exact outside)]

end Sorting

end TonNode.Lib
