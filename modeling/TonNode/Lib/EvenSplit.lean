import Mathlib

/-!
# Splitting a total into nearly equal parts
-/

namespace TonNode.Lib

open List

/-- The shares of `length` takers, where the total grows by one from taker to taker. -/
def shares (count : Nat) : Nat → Nat → Nat
  | 0, _ => 0
  | length + 1, total => total / count + shares count length (total + 1)

lemma shares_succ_total (count length total : Nat) : shares count length (total + 1) + total / count =
      shares count length total + (total + length) / count := by
  induction length generalizing total with
  | zero => rfl
  | succ length ih =>
    have later := ih (total + 1)
    have ends : total + 1 + length = total + (length + 1) := by omega
    rw [ends] at later
    simp only [shares]
    omega

lemma shares_zero (count length : Nat) {total : Nat} (small : total + length ≤ count) : shares count length total = 0 := by
  induction length generalizing total with
  | zero => rfl
  | succ length ih =>
    rw [shares, ih (by omega), Nat.div_eq_of_lt (by omega)]

lemma shares_self {count : Nat} (positive : 0 < count) (total : Nat) : shares count count total = total := by
  induction total with
  | zero => exact shares_zero count count (by omega)
  | succ total ih =>
    have next := shares_succ_total count count total
    rw [ih, Nat.add_div_right total positive] at next
    omega

lemma sum_map_filter_add {β : Type} (items : List β) (keep : β → Bool) (weight : β → Nat) :
    ((items.filter keep).map weight).sum + ((items.filter fun item => !keep item).map weight).sum = (items.map weight).sum := by
  induction items with
  | nil => rfl
  | cons item rest ih =>
    cases kept : keep item with
    | true =>
      simp only [filter_cons, kept, ↓reduceIte, Bool.not_true, Bool.false_eq_true, map_cons, sum_cons]
      omega
    | false =>
      simp only [filter_cons, kept, ↓reduceIte, Bool.not_false, Bool.false_eq_true, map_cons, sum_cons]
      omega

end TonNode.Lib
