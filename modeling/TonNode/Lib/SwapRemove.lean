import Mathlib

/-!
# Removal by swapping with the last element
-/

namespace TonNode.Lib

open List

variable {α : Type} {items : List α} {index : Nat} {item : α}

/-- Overwrite the element at `index` with the last one and drop the last one. -/
def swapRemove (items : List α) (index : Nat) : List α :=
  match items.getLast? with
  | none => items
  | some last => (items.set index last).dropLast

lemma swapRemove_append_singleton (leading : List α) (last : α) (index : Nat) :
    swapRemove (leading ++ [last]) index = leading.set index last := by
  simp only [swapRemove, getLast?_append, getLast?_singleton, Option.some_or]
  rcases Nat.lt_or_ge index leading.length with inner | outer
  · rw [set_append_left _ _ inner, dropLast_concat]
  · rw [set_append_right _ _ outer, set_eq_of_length_le outer]
    cases index - leading.length with
    | zero => simp
    | succ offset => simp

lemma length_swapRemove (items : List α) (index : Nat) : (swapRemove items index).length = items.length - 1 := by
  rcases items.eq_nil_or_concat' with rfl | ⟨leading, last, rfl⟩
  · rfl
  · simp [swapRemove_append_singleton]

lemma mem_take_swapRemove (member : item ∈ (swapRemove items index).take index) : item ∈ items.take index := by
  rcases items.eq_nil_or_concat' with rfl | ⟨leading, last, rfl⟩
  · exact member
  · rw [swapRemove_append_singleton, take_set_of_le (Nat.le_refl _)] at member
    rw [take_append]
    exact mem_append_left _ member

lemma perm_swapRemove (found : items[index]? = some item) : List.Perm (item :: swapRemove items index) items := by
  rcases items.eq_nil_or_concat' with rfl | ⟨leading, last, rfl⟩
  · simp at found
  · rw [swapRemove_append_singleton]
    rcases Nat.lt_or_ge index leading.length with inner | outer
    · rw [List.getElem?_append_left inner] at found
      obtain ⟨_, same⟩ := List.getElem?_eq_some_iff.mp found
      have split : leading = leading.take index ++ item :: leading.drop (index + 1) := by
        rw [← same, getElem_cons_drop, take_append_drop]
      have moved : leading.set index last = leading.take index ++ last :: leading.drop (index + 1) :=
        set_eq_take_append_cons_drop.trans (if_pos inner)
      calc item :: leading.set index last
          = item :: (leading.take index ++ last :: leading.drop (index + 1)) := by rw [moved]
        _ |>.Perm (item :: last :: (leading.take index ++ leading.drop (index + 1))) := perm_middle.cons item
        _ |>.Perm (last :: item :: (leading.take index ++ leading.drop (index + 1))) := List.Perm.swap last item _
        _ |>.Perm (last :: leading) := by
            nth_rewrite 3 [split]
            exact (perm_middle.symm).cons last
        _ |>.Perm (leading ++ [last]) := (perm_append_singleton last leading).symm
    · rw [set_eq_of_length_le outer]
      rw [getElem?_append_right outer] at found
      have same : item = last := by
        cases offset : index - leading.length with
        | zero => simpa [offset] using found.symm
        | succ rest => simp [offset] at found
      rw [same]
      exact (perm_append_singleton last leading).symm

end TonNode.Lib
