import TonNode.Lib.LowestBit

/-! Hypercube routing of messages between shards (`ton-shard.h`, `block.cpp`, `mc-config.cpp`).

A shard identifier is a prefix of account addresses followed by a set bit and zeroes. A message
travels along addresses that take more and more bits from the destination. -/

namespace TonNode.Shard

open Lib BitVec

def masterchainId : BitVec 32 := -1

def workchainInvalid : BitVec 32 := 0x80000000

structure AccountIdPrefixFull where
  workchain : BitVec 32
  accountIdPrefix : BitVec 64
deriving DecidableEq, Repr

structure ShardIdFull where
  workchain : BitVec 32
  shard : BitVec 64
deriving DecidableEq, Repr

namespace ShardIdFull

def isValidExt (id : ShardIdFull) : Bool :=
  id.workchain != workchainInvalid && id.shard != 0

def isMasterchain (id : ShardIdFull) : Bool :=
  id.workchain == masterchainId

lemma shard_ne_zero {id : ShardIdFull} (valid : id.isValidExt = true) : id.shard ≠ 0 := by
  rw [isValidExt, Bool.and_eq_true, bne_iff_ne] at valid
  exact bne_iff_ne.mp valid.2

end ShardIdFull

def bitsNegate64 (x : BitVec 64) : BitVec 64 :=
  ~~~x + 1

def lowerBit64 (x : BitVec 64) : BitVec 64 :=
  x &&& bitsNegate64 x

/-- The test of one shard identifier against an account prefix, in one workchain. -/
def shardContainsPrefix (parent child : BitVec 64) : Bool :=
  (parent ^^^ child) &&& (bitsNegate64 (lowerBit64 parent) <<< 1) == 0

def shardContains (parent : ShardIdFull) (child : AccountIdPrefixFull) : Bool :=
  parent.workchain == child.workchain && shardContainsPrefix parent.shard child.accountIdPrefix

lemma bitsNegate64_eq (x : BitVec 64) : bitsNegate64 x = -x :=
  (BitVec.neg_eq_not_add x).symm

def endBit (shard : BitVec 64) : Nat :=
  shard.ctz.toNat

variable {shard : BitVec 64} {x y : ShardIdFull}

lemma getLsbD_lowerBit64 (nonzero : shard ≠ 0) (i : Nat) : (lowerBit64 shard).getLsbD i = decide (i = endBit shard) := by
  rw [lowerBit64, bitsNegate64_eq]
  exact getLsbD_and_neg nonzero i

lemma shardContainsPrefix_iff {account : BitVec 64} (nonzero : shard ≠ 0) :
    shardContainsPrefix shard account = true ↔ AgreeAbove (endBit shard) shard account := by
  rw [shardContainsPrefix, beq_iff_eq, bitsNegate64_eq]
  exact xor_and_eq_zero_iff (getLsbD_neg_single_shift (getLsbD_lowerBit64 nonzero))

lemma shardContains_iff {id : ShardIdFull} {addr : AccountIdPrefixFull} (nonzero : id.shard ≠ 0) :
    shardContains id addr = true ↔ id.workchain = addr.workchain ∧
        AgreeAbove (endBit id.shard) id.shard addr.accountIdPrefix := by
  rw [shardContains, Bool.and_eq_true, beq_iff_eq, shardContainsPrefix_iff nonzero]

/-! ### Routing -/

def interpolateAddr (src dest : AccountIdPrefixFull) (d : Int) : AccountIdPrefixFull :=
  if d ≤ 0 then src
  else if 96 ≤ d then dest
  else if 32 ≤ d then
    let mask := BitVec.allOnes 64 >>> (d - 32).toNat
    { workchain := dest.workchain
      accountIdPrefix := (dest.accountIdPrefix &&& ~~~mask) ||| (src.accountIdPrefix &&& mask) }
  else
    let mask := BitVec.allOnes 32 >>> d.toNat
    { workchain := (dest.workchain &&& ~~~mask) ||| (src.workchain &&& mask)
      accountIdPrefix := src.accountIdPrefix }

/-- The loop over the nibbles still to be routed. After sixteen rounds its state no longer
changes: `none` stands for a loop that does not end. -/
def routeNibbles (x y t q : BitVec 64) : Nat → BitVec 64 → Nat → Option Nat
  | 0, _, _ => none
  | rounds + 1, m, i =>
    let m := m >>> 4
    let h := t ^^^ (q &&& ~~~m)
    let i := i + 4
    if x ≤ h ∧ h ≤ y then routeNibbles x y t q rounds m i else some i

/-- The number of destination bits of the transit address and of the next hop. -/
def performHypercubeRouting (src dest : AccountIdPrefixFull) (cur : ShardIdFull) (usedDestBits : Int) : Option (Int × Int) :=
  let transit := interpolateAddr src dest usedDestBits
  if !shardContains cur transit then some (-1, -1)
  else if shardContains cur dest then some (96, 96)
  else if transit.workchain == masterchainId || dest.workchain == masterchainId then
    some (usedDestBits, 96)
  else if transit.workchain != dest.workchain then some (usedDestBits, 32)
  else
    let x := cur.shard &&& (cur.shard - 1)
    let y := cur.shard ||| (cur.shard - 1)
    let t := transit.accountIdPrefix
    let q := dest.accountIdPrefix ^^^ t
    -- `count_leading_zeroes64(q) & -4`
    let i := q.clz.toNat / 4 * 4
    let m := BitVec.allOnes 64 >>> i
    (routeNibbles x y t q 16 m i).map fun i => (28 + i, 32 + i)

def max64 (x y : BitVec 64) : BitVec 64 :=
  if x < y then y else x

def isNeighbor (x y : ShardIdFull) : Bool :=
  if x.isMasterchain || y.isMasterchain then true
  else
    let xl := lowerBit64 x.shard
    let yl := lowerBit64 y.shard
    let z := (x.shard ^^^ y.shard) &&& bitsNegate64 (max64 xl yl <<< 1)
    if z == 0 then true
    else if x.workchain != y.workchain then false
    else
      let c1 := z.clz.toNat / 4
      let c2 := z.ctz.toNat / 4
      c1 + c2 == 15

/-! ## Addresses between source and destination -/

/-- The first `i` bits of `dest` and the remaining bits of `src`. -/
def blend (i : Nat) (src dest : BitVec 64) : BitVec 64 :=
  (dest &&& ~~~(BitVec.allOnes 64 >>> i)) ||| (src &&& BitVec.allOnes 64 >>> i)

lemma getLsbD_mask (i j : Nat) : (BitVec.allOnes 64 >>> i).getLsbD j = decide (i + j < 64) := by
  rw [getLsbD_ushiftRight, getLsbD_allOnes]

lemma getLsbD_blend (i : Nat) (src dest : BitVec 64) (j : Nat) :
    (blend i src dest).getLsbD j = if i + j < 64 then src.getLsbD j else dest.getLsbD j := by
  rw [blend, getLsbD_or, getLsbD_and, getLsbD_and, getLsbD_not, getLsbD_mask]
  by_cases own : i + j < 64
  · simp [own]
  · by_cases inside : j < 64
    · simp [own, inside]
    · simp [own, getLsbD_of_ge _ _ (Nat.le_of_not_lt inside)]

lemma blend_zero (src dest : BitVec 64) : blend 0 src dest = src := by
  apply eq_of_getLsbD_eq
  intro j inside
  rw [getLsbD_blend, if_pos (by omega)]

lemma blend_all (src dest : BitVec 64) : blend 64 src dest = dest := by
  apply eq_of_getLsbD_eq
  intro j inside
  rw [getLsbD_blend, if_neg (by omega)]

lemma blend_blend {i j : Nat} (less : i ≤ j) (src dest : BitVec 64) : blend j (blend i src dest) dest = blend j src dest := by
  apply eq_of_getLsbD_eq
  intro k _
  rw [getLsbD_blend, getLsbD_blend, getLsbD_blend]
  by_cases own : j + k < 64
  · rw [if_pos own, if_pos (by omega), if_pos own]
  · rw [if_neg own, if_neg own]

lemma interpolateAddr_eq (src dest : AccountIdPrefixFull) {i : Nat} (inside : i ≤ 64) :
    interpolateAddr src dest (32 + i) =
      { workchain := dest.workchain
        accountIdPrefix := blend i src.accountIdPrefix dest.accountIdPrefix } := by
  rw [interpolateAddr, if_neg (by omega)]
  by_cases all : i = 64
  · subst all
    rw [if_pos (by decide), blend_all]
  · have count : ((32 : Int) + i - 32).toNat = i := by omega
    rw [if_neg (by omega), if_pos (by omega), count]
    rfl

lemma interpolateAddr_of_nonpos (src dest : AccountIdPrefixFull) {d : Int} (none_ : d ≤ 0) : interpolateAddr src dest d = src :=
  if_pos none_

lemma interpolateAddr_all (src dest : AccountIdPrefixFull) : interpolateAddr src dest 96 = dest := by
  rw [interpolateAddr, if_neg (by decide), if_pos (by decide)]

lemma xor_difference_eq_blend (i : Nat) (t dest : BitVec 64) :
    t ^^^ ((dest ^^^ t) &&& ~~~(BitVec.allOnes 64 >>> i)) = blend i t dest := by
  apply eq_of_getLsbD_eq
  intro j inside
  rw [getLsbD_blend, getLsbD_xor, getLsbD_and, getLsbD_xor, getLsbD_not, getLsbD_mask]
  by_cases own : i + j < 64
  · simp [own]
  · cases t.getLsbD j <;> simp [own, inside]

/-! ## The loop over nibbles -/

/-- The routing loop stops at the first nibble that leads out of the shard. -/
lemma routeNibbles_ok {shard t dest : BitVec 64} (nonzero : shard ≠ 0)
    (outside : ¬AgreeAbove (endBit shard) shard dest) (rounds i : Nat) (enough : 64 ≤ i + 4 * rounds)
    (nibble : 4 ∣ i) (inside : AgreeAbove (endBit shard) shard (blend i t dest)) :
    ∃ j, routeNibbles (shard &&& (shard - 1)) (shard ||| (shard - 1)) t (dest ^^^ t) rounds
        (BitVec.allOnes 64 >>> i) i = some (j + 4) ∧ i ≤ j ∧ j ≤ 60 ∧ 4 ∣ j ∧ AgreeAbove (endBit shard) shard (blend j t dest) ∧
      ¬AgreeAbove (endBit shard) shard (blend (j + 4) t dest) := by
  have low : i < 64 := by
    apply Nat.lt_of_not_le
    intro high
    apply outside
    have whole : blend i t dest = dest := by
      apply eq_of_getLsbD_eq
      intro j _
      rw [getLsbD_blend, if_neg (by omega)]
    rwa [whole] at inside
  induction rounds generalizing i with
  | zero => omega
  | succ rounds ih =>
    rw [routeNibbles, ← shiftRight_add]
    simp only [xor_difference_eq_blend]
    have test := between_iff_agreeAbove nonzero (blend (i + 4) t dest)
    by_cases stays : AgreeAbove (endBit shard) shard (blend (i + 4) t dest)
    · rw [if_pos (test.mpr stays)]
      have low' : i + 4 < 64 := by
        apply Nat.lt_of_not_le
        intro high
        have whole : i + 4 = 64 := by omega
        rw [whole, blend_all] at stays
        exact outside stays
      obtain ⟨j, run, after, rest⟩ := ih (i + 4) (by omega) (by omega) stays low'
      exact ⟨j, run, by omega, rest⟩
    · rw [if_neg (stays ∘ test.mp)]
      exact ⟨i, rfl, Nat.le_refl i, by omega, nibble, inside, stays⟩

lemma blend_sharedNibbles {t dest : BitVec 64} (different : dest ^^^ t ≠ 0) :
    blend ((dest ^^^ t).clz.toNat / 4 * 4) t dest = t := by
  have few := clz_toNat_lt different
  apply eq_of_getLsbD_eq
  intro j _
  rw [getLsbD_blend]
  by_cases own : (dest ^^^ t).clz.toNat / 4 * 4 + j < 64
  · rw [if_pos own]
  · rw [if_neg own]
    have bit : (dest ^^^ t).getLsbD j = false := getLsbD_of_clz_le (by omega)
    rw [getLsbD_xor] at bit
    simpa using bit

lemma le_sharedNibbles {i : Nat} {src dest : BitVec 64} (nibble : 4 ∣ i) (different : dest ^^^ blend i src dest ≠ 0) :
    i ≤ (dest ^^^ blend i src dest).clz.toNat / 4 * 4 := by
  have set := getLsbD_true_clz_of_ne_zero (by decide) different
  rw [getLsbD_xor, getLsbD_blend] at set
  have few := clz_toNat_lt different
  by_cases own : i + (64 - 1 - (dest ^^^ blend i src dest).clz.toNat) < 64
  · omega
  · rw [if_neg own, Bool.xor_self] at set
    exact absurd set Bool.false_ne_true

/-! ## Neighbors -/

lemma getLsbD_max64 {x y : BitVec 64} {k l : Nat} (left : ∀ i, x.getLsbD i = decide (i = k))
    (right : ∀ i, y.getLsbD i = decide (i = l)) (i : Nat) : (max64 x y).getLsbD i = decide (i = max k l) := by
  have value : ∀ {z : BitVec 64} {n : Nat}, (∀ i, z.getLsbD i = decide (i = n)) →
      z.toNat = 2 ^ n := by
    intro z n single
    apply Nat.eq_of_testBit_eq
    intro i
    rw [testBit_toNat, single, Nat.testBit_two_pow, decide_eq_decide]
    exact eq_comm
  rw [max64]
  by_cases less : k < l
  · have order : x < y := by
      rw [lt_def, value left, value right]
      exact Nat.pow_lt_pow_right (by decide) less
    rw [if_pos order, right, Nat.max_eq_right (Nat.le_of_lt less)]
  · have order : ¬x < y := by
      rw [lt_def, value left, value right]
      exact Nat.not_lt_of_le (Nat.pow_le_pow_right (by decide) (Nat.le_of_not_lt less))
    rw [if_neg order, left, Nat.max_eq_left (Nat.le_of_not_lt less)]

lemma difference_bit {x y p q : BitVec 64} (xNonzero : x ≠ 0) (yNonzero : y ≠ 0)
    (inX : AgreeAbove (endBit x) x p) (inY : AgreeAbove (endBit y) y q) {j : Nat}
    (set : ((x ^^^ y) &&& bitsNegate64 (max64 (lowerBit64 x) (lowerBit64 y) <<< 1)).getLsbD j = true) :
    p.getLsbD j ≠ q.getLsbD j := by
  have single := getLsbD_max64 (getLsbD_lowerBit64 xNonzero) (getLsbD_lowerBit64 yNonzero)
  rw [bitsNegate64_eq, neg_shiftLeft_one, getLsbD_and, getLsbD_xor,
    getLsbD_neg_single_shift single, Bool.and_eq_true, decide_eq_true_eq] at set
  obtain ⟨differ, above, -⟩ := set
  rw [inX j (by omega), inY j (by omega)] at differ
  simpa using differ

lemma isNeighbor_of_shared {p : BitVec 64} (xNonzero : x.shard ≠ 0)
    (yNonzero : y.shard ≠ 0) (inX : AgreeAbove (endBit x.shard) x.shard p)
    (inY : AgreeAbove (endBit y.shard) y.shard p) : isNeighbor x y = true := by
  rw [isNeighbor]
  split
  · rfl
  have zero : (x.shard ^^^ y.shard) &&&
      bitsNegate64 (max64 (lowerBit64 x.shard) (lowerBit64 y.shard) <<< 1) = 0 := by
    apply eq_of_getLsbD_eq
    intro j _
    rw [ofNat_eq_ofNat, getLsbD_zero, Bool.eq_false_iff]
    intro set
    exact difference_bit xNonzero yNonzero inX inY set rfl
  simp only [zero, beq_self_eq_true, if_true]

lemma isNeighbor_of_nibble {p q : BitVec 64} {n : Nat}
    (workchain : x.workchain = y.workchain) (xNonzero : x.shard ≠ 0)
    (yNonzero : y.shard ≠ 0) (inX : AgreeAbove (endBit x.shard) x.shard p) (inY : AgreeAbove (endBit y.shard) y.shard q)
    (nibble : ∀ j, p.getLsbD j ≠ q.getLsbD j → j / 4 = n) : isNeighbor x y = true := by
  rw [isNeighbor]
  split
  · rfl
  have bits := fun j => @difference_bit _ _ _ _ xNonzero yNonzero inX inY j
  dsimp only
  generalize (x.shard ^^^ y.shard) &&&
    bitsNegate64 (max64 (lowerBit64 x.shard) (lowerBit64 y.shard) <<< 1) = z at bits ⊢
  simp only [workchain, bne_self_eq_false, Bool.false_eq_true, if_false]
  by_cases zero : z = 0
  · simp only [zero, beq_self_eq_true, if_true]
  · have few := clz_toNat_lt zero
    -- the highest and the lowest set bit are in the same nibble
    have highest := nibble _ (bits _ (getLsbD_true_clz_of_ne_zero (by decide) zero))
    have lowest := nibble _ (bits _ (getLsbD_true_ctz_of_ne_zero zero))
    rw [if_neg (by simpa using zero), beq_iff_eq]
    omega

lemma blend_nibble (i : Nat) (nibble : 4 ∣ i) (inside : i ≤ 60) (t dest : BitVec 64) (j : Nat)
    (differ : (blend i t dest).getLsbD j ≠ (blend (i + 4) t dest).getLsbD j) : j / 4 = 15 - i / 4 := by
  rw [getLsbD_blend, getLsbD_blend] at differ
  by_cases own : i + 4 + j < 64
  · rw [if_pos own, if_pos (by omega)] at differ
    exact absurd rfl differ
  · by_cases last : i + j < 64
    · omega
    · rw [if_neg own, if_neg last] at differ
      exact absurd rfl differ

end TonNode.Shard
