import Mathlib

/-! Words cut at their lowest set bit.

A word names a block of words: those that agree with it above its lowest set bit. The block is
recognised with masks or with the two bounds of an interval; both tests mean the same. -/

namespace TonNode.Lib

variable {w : Nat}

def AgreeAbove (k : Nat) (x y : BitVec w) : Prop :=
  ∀ i, k < i → x.getLsbD i = y.getLsbD i

variable {x y : BitVec w} {i k : Nat} {p : BitVec w}

lemma exists_lower_bit_iff (nonzero : x ≠ 0) (i : Nat) : (∃ j, j < i ∧ x.getLsbD j = true) ↔ x.ctz.toNat < i := by
  constructor
  · intro ⟨j, below, set⟩
    have notBelow : ¬j < x.ctz.toNat := by
      intro low
      rw [BitVec.getLsbD_false_of_lt_ctz low] at set
      exact Bool.false_ne_true set
    omega
  · intro below
    exact ⟨x.ctz.toNat, below, BitVec.getLsbD_true_ctz_of_ne_zero nonzero⟩

lemma ctz_toNat_lt (nonzero : x ≠ 0) : x.ctz.toNat < w :=
  BitVec.lt_of_getLsbD (BitVec.getLsbD_true_ctz_of_ne_zero nonzero)

lemma clz_toNat_lt (nonzero : x ≠ 0) : x.clz.toNat < w := by
  have positive : 0 < w := Nat.lt_of_le_of_lt (Nat.zero_le _) (ctz_toNat_lt nonzero)
  have less := BitVec.clz_lt_iff_ne_zero.mpr nonzero
  rw [BitVec.lt_def, BitVec.natCast_eq_ofNat, BitVec.toNat_ofNat] at less
  exact Nat.lt_of_lt_of_le less (Nat.mod_le _ _)

lemma getLsbD_of_clz_le (above : w - x.clz.toNat ≤ i) : x.getLsbD i = false := by
  have small : x.toNat < 2 ^ i := Nat.lt_of_lt_of_le BitVec.toNat_lt_two_pow_sub_clz (Nat.pow_le_pow_right (by decide) above)
  rw [← BitVec.testBit_toNat]
  exact Nat.testBit_lt_two_pow small

lemma getLsbD_and_neg (nonzero : x ≠ 0) (i : Nat) : (x &&& -x).getLsbD i = decide (i = x.ctz.toNat) := by
  have lowest := BitVec.getLsbD_true_ctz_of_ne_zero nonzero
  rw [BitVec.getLsbD_and, BitVec.getLsbD_neg]
  simp only [exists_lower_bit_iff nonzero i]
  rcases Nat.lt_trichotomy i x.ctz.toNat with below | same | above
  · rw [BitVec.getLsbD_false_of_lt_ctz below, Bool.false_and, eq_comm, decide_eq_false_iff_not]
    omega
  · subst same
    simp [lowest]
  · have different : i ≠ x.ctz.toNat := by omega
    cases set : x.getLsbD i with
    | false => simp [different]
    | true => simp [different, above, BitVec.lt_of_getLsbD set]

/-- The bits above `k`, as the negation of a word whose only bit is `k`. -/
lemma getLsbD_neg_single (single : ∀ i, p.getLsbD i = decide (i = k)) (i : Nat) : (-p).getLsbD i = decide (k ≤ i ∧ i < w) := by
  have inside : i = k → i < w := fun same =>
    BitVec.lt_of_getLsbD (by rw [single]; simpa using same)
  rw [BitVec.getLsbD_neg]
  simp only [single, ← Bool.decide_and]
  by_cases same : i = k
  · have bound := inside same
    subst same
    simp [bound]
  · have strict : i < w ∧ k < i ↔ k ≤ i ∧ i < w := by omega
    simp [same, strict]

lemma getLsbD_neg_single_shift (single : ∀ i, p.getLsbD i = decide (i = k)) (i : Nat) :
    ((-p) <<< 1).getLsbD i = decide (k < i ∧ i < w) := by
  rw [BitVec.getLsbD_shiftLeft, getLsbD_neg_single single, Bool.eq_iff_iff]
  simp only [Bool.and_eq_true, Bool.not_eq_true', decide_eq_true_eq, decide_eq_false_iff_not]
  omega

lemma neg_shiftLeft_one (p : BitVec w) : -(p <<< 1) = (-p) <<< 1 := by
  rw [BitVec.shiftLeft_eq_mul_twoPow, BitVec.shiftLeft_eq_mul_twoPow, BitVec.neg_mul]

lemma xor_and_eq_zero_iff {mask : BitVec w} (above : ∀ i, mask.getLsbD i = decide (k < i ∧ i < w)) :
    (x ^^^ y) &&& mask = 0 ↔ AgreeAbove k x y := by
  constructor
  · intro zero i high
    by_cases inside : i < w
    · have bit : ((x ^^^ y) &&& mask).getLsbD i = (0 : BitVec w).getLsbD i := by rw [zero]
      simp only [BitVec.getLsbD_and, BitVec.getLsbD_xor, above, high, inside, and_self, decide_true,
        Bool.and_true, BitVec.ofNat_eq_ofNat, BitVec.getLsbD_zero] at bit
      simpa using bit
    · rw [BitVec.getLsbD_of_ge _ _ (by omega), BitVec.getLsbD_of_ge _ _ (by omega)]
  · intro agree
    apply BitVec.eq_of_getLsbD_eq
    intro i inside
    rw [BitVec.getLsbD_and, BitVec.getLsbD_xor, above]
    by_cases high : k < i
    · simp [agree i high]
    · simp [high]

lemma getLsbD_sub_one (nonzero : x ≠ 0) (inside : i < w) : (x - 1).getLsbD i = if i < x.ctz.toNat then true else
      if i = x.ctz.toNat then false else x.getLsbD i := by
  have lowest := BitVec.getLsbD_true_ctz_of_ne_zero nonzero
  rw [BitVec.ofNat_eq_ofNat, ← BitVec.not_neg, BitVec.getLsbD_not, BitVec.getLsbD_neg]
  simp only [exists_lower_bit_iff nonzero i]
  rcases Nat.lt_trichotomy i x.ctz.toNat with below | same | above
  · rw [BitVec.getLsbD_false_of_lt_ctz below]
    simp [below, inside, Nat.le_of_lt below]
  · subst same
    simp [lowest]
  · have notBelow : ¬i < x.ctz.toNat := by omega
    have different : i ≠ x.ctz.toNat := by omega
    simp [inside, above, notBelow, different]

lemma getLsbD_and_sub_one (nonzero : x ≠ 0) (i : Nat) :
    (x &&& (x - 1)).getLsbD i = (decide (x.ctz.toNat < i) && x.getLsbD i) := by
  by_cases inside : i < w
  · rw [BitVec.getLsbD_and, getLsbD_sub_one nonzero inside]
    rcases Nat.lt_trichotomy i x.ctz.toNat with below | same | above
    · simp [BitVec.getLsbD_false_of_lt_ctz below]
    · simp [same]
    · simp [above, Nat.not_lt_of_gt above, Nat.ne_of_gt above]
  · rw [BitVec.getLsbD_of_ge _ _ (by omega), BitVec.getLsbD_of_ge _ _ (by omega), Bool.and_false]

lemma getLsbD_or_sub_one (nonzero : x ≠ 0) (inside : i < w) :
    (x ||| (x - 1)).getLsbD i = (decide (i ≤ x.ctz.toNat) || x.getLsbD i) := by
  have lowest := BitVec.getLsbD_true_ctz_of_ne_zero nonzero
  rw [BitVec.getLsbD_or, getLsbD_sub_one nonzero inside]
  rcases Nat.lt_trichotomy i x.ctz.toNat with below | same | above
  · simp [below, Nat.le_of_lt below]
  · subst same
    simp [lowest]
  · simp [Nat.not_lt_of_gt above, Nat.ne_of_gt above, Nat.not_le_of_gt above]

lemma le_of_getLsbD (subset : ∀ i, x.getLsbD i = true → y.getLsbD i = true) : x ≤ y := by
  have both : x &&& y = x := by
    apply BitVec.eq_of_getLsbD_eq
    intro i _
    rw [BitVec.getLsbD_and]
    cases set : x.getLsbD i with
    | false => rfl
    | true => rw [subset i set, Bool.and_self]
  rw [BitVec.le_def, ← both, BitVec.toNat_and]
  exact Nat.and_le_right

lemma shiftRight_eq_iff_agreeAbove : x >>> (k + 1) = y >>> (k + 1) ↔ AgreeAbove k x y := by
  constructor
  · intro same i above
    have bit := congrArg (BitVec.getLsbD · (i - (k + 1))) same
    simp only [BitVec.getLsbD_ushiftRight] at bit
    rwa [show k + 1 + (i - (k + 1)) = i by omega] at bit
  · intro agree
    apply BitVec.eq_of_getLsbD_eq
    intro i _
    rw [BitVec.getLsbD_ushiftRight, BitVec.getLsbD_ushiftRight]
    exact agree _ (by omega)

/-- The interval spanned by a word is the block of words that agree with it above its lowest
set bit. -/
lemma between_iff_agreeAbove (nonzero : x ≠ 0) (h : BitVec w) :
    (x &&& (x - 1) ≤ h ∧ h ≤ x ||| (x - 1)) ↔ AgreeAbove x.ctz.toNat x h := by
  constructor
  · intro ⟨low, high⟩
    have lowShift : (x &&& (x - 1)) >>> (x.ctz.toNat + 1) = x >>> (x.ctz.toNat + 1) := by
      rw [shiftRight_eq_iff_agreeAbove]
      intro i above
      rw [getLsbD_and_sub_one nonzero, decide_eq_true above, Bool.true_and]
    have highShift : (x ||| (x - 1)) >>> (x.ctz.toNat + 1) = x >>> (x.ctz.toNat + 1) := by
      rw [shiftRight_eq_iff_agreeAbove]
      intro i above
      by_cases inside : i < w
      · rw [getLsbD_or_sub_one nonzero inside, decide_eq_false (by omega), Bool.false_or]
      · rw [BitVec.getLsbD_of_ge _ _ (by omega), BitVec.getLsbD_of_ge _ _ (by omega)]
    rw [← shiftRight_eq_iff_agreeAbove]
    apply BitVec.eq_of_toNat_eq
    apply Nat.le_antisymm
    · rw [← lowShift, BitVec.toNat_ushiftRight, BitVec.toNat_ushiftRight]
      rw [Nat.shiftRight_eq_div_pow, Nat.shiftRight_eq_div_pow]
      exact Nat.div_le_div_right (BitVec.le_def.mp low)
    · rw [← highShift, BitVec.toNat_ushiftRight, BitVec.toNat_ushiftRight]
      rw [Nat.shiftRight_eq_div_pow, Nat.shiftRight_eq_div_pow]
      exact Nat.div_le_div_right (BitVec.le_def.mp high)
  · intro agree
    constructor
    · apply le_of_getLsbD
      intro i set
      rw [getLsbD_and_sub_one nonzero, Bool.and_eq_true, decide_eq_true_eq] at set
      rw [← agree i set.1]
      exact set.2
    · apply le_of_getLsbD
      intro i set
      rw [getLsbD_or_sub_one nonzero (BitVec.lt_of_getLsbD set)]
      by_cases low : i ≤ x.ctz.toNat
      · rw [decide_eq_true low, Bool.true_or]
      · rw [agree i (by omega), set, Bool.or_true]

end TonNode.Lib
