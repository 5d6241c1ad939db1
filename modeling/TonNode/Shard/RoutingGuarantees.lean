import TonNode.Shard.Routing

/-! Every hop of a message leads to a neighbor and brings it closer to its destination. -/

namespace TonNode.Shard

open Lib List

/-- The counts of destination bits that routing works with: none yet, or the workchain and a
number of whole nibbles. -/
inductive NibbleCount : Int → Prop where
  | unset : NibbleCount (-1)
  | start : NibbleCount 0
  | nibbles {i : Nat} : 4 ∣ i → i ≤ 64 → NibbleCount (32 + i)

lemma NibbleCount.all : NibbleCount 96 :=
  @NibbleCount.nibbles 64 (by decide) (by decide)

variable {used : Int} {src dest : AccountIdPrefixFull}

lemma NibbleCount.next {b : Int} (count : NibbleCount used) (next : NibbleCount b)
    (less : used < b) (positive : 0 < b) : 32 ≤ b ∧ (0 < used → used + 4 ≤ b) := by
  cases count <;> cases next <;> omega

lemma NibbleCount.le (count : NibbleCount used) : used ≤ 96 := by
  cases count <;> omega

/-- What one routing step must achieve: it ends in the shard of the destination, or leads into a
neighbor. -/
structure Routes (src dest : AccountIdPrefixFull) (cur : ShardIdFull) (used a b : Int) :
    Prop where
  transit_ge : used ≤ a
  nextHop_ge : a ≤ b
  nextHop_le : b ≤ 96
  arrived : shardContains cur dest = true → a = 96 ∧ b = 96
  transit : shardContains cur dest = false → shardContains cur (interpolateAddr src dest a) = true
  leaves : shardContains cur dest = false → shardContains cur (interpolateAddr src dest b) = false
  advances : shardContains cur dest = false → used < b
  neighbor : shardContains cur dest = false → ∀ next : ShardIdFull, next.isValidExt = true →
    shardContains next (interpolateAddr src dest b) = true → isNeighbor cur next = true

section Step

variable {cur : ShardIdFull}

lemma NibbleCount.transit_eq (count : NibbleCount used) (same : (interpolateAddr src dest used).workchain = dest.workchain) :
    ∃ n : Nat, 4 ∣ n ∧ n ≤ 64 ∧ used ≤ 32 + n ∧ interpolateAddr src dest used =
        ⟨dest.workchain, blend n src.accountIdPrefix dest.accountIdPrefix⟩ := by
  have fromSource : used ≤ 0 → interpolateAddr src dest used =
      ⟨dest.workchain, blend 0 src.accountIdPrefix dest.accountIdPrefix⟩ := by
    intro early
    rw [interpolateAddr_of_nonpos src dest early] at same ⊢
    rw [blend_zero, ← same]
  cases count with
  | unset | start => exact ⟨0, by decide, by decide, by decide, fromSource (by decide)⟩
  | @nibbles n whole inside =>
    exact ⟨n, whole, inside, Int.le_refl _, interpolateAddr_eq src dest inside⟩

lemma routeNibbles_transit {t : BitVec 64} {n : Nat} (nonzero : cur.shard ≠ 0) (nibble : 4 ∣ n)
    (form : t = blend n src.accountIdPrefix dest.accountIdPrefix) (here : AgreeAbove (endBit cur.shard) cur.shard t)
    (away : ¬AgreeAbove (endBit cur.shard) cur.shard dest.accountIdPrefix) :
    ∃ j : Nat, routeNibbles (cur.shard &&& (cur.shard - 1)) (cur.shard ||| (cur.shard - 1)) t (dest.accountIdPrefix ^^^ t) 16
        (BitVec.allOnes 64 >>> ((dest.accountIdPrefix ^^^ t).clz.toNat / 4 * 4))
        ((dest.accountIdPrefix ^^^ t).clz.toNat / 4 * 4) = some (j + 4) ∧ n ≤ j ∧ j ≤ 60 ∧ 4 ∣ j ∧
      AgreeAbove (endBit cur.shard) cur.shard (blend j src.accountIdPrefix dest.accountIdPrefix) ∧
      ¬AgreeAbove (endBit cur.shard) cur.shard (blend (j + 4) src.accountIdPrefix dest.accountIdPrefix) := by
  have different : dest.accountIdPrefix ^^^ t ≠ 0 := by
    intro zero
    apply away
    rw [BitVec.xor_eq_zero_iff.mp zero]
    exact here
  have inside : AgreeAbove (endBit cur.shard) cur.shard
      (blend ((dest.accountIdPrefix ^^^ t).clz.toNat / 4 * 4) t dest.accountIdPrefix) := by
    rw [blend_sharedNibbles different]
    exact here
  have shared : n ≤ (dest.accountIdPrefix ^^^ t).clz.toNat / 4 * 4 := by
    subst form
    exact le_sharedNibbles nibble different
  obtain ⟨j, run, after, low, whole, stays, exits⟩ := routeNibbles_ok nonzero away 16 _ (by omega) (Nat.dvd_mul_left 4 _) inside
  rw [form, blend_blend (by omega)] at stays exits
  exact ⟨j, run, by omega, low, whole, stays, exits⟩

lemma routes_nibble {n j : Nat} (nonzero : cur.shard ≠ 0)
    (workchain : cur.workchain = dest.workchain) (before : used ≤ 32 + n) (after : n ≤ j)
    (low : j ≤ 60) (whole : 4 ∣ j) (away : shardContains cur dest = false) (stays : AgreeAbove (endBit cur.shard) cur.shard
      (blend j src.accountIdPrefix dest.accountIdPrefix)) (exits : ¬AgreeAbove (endBit cur.shard) cur.shard
      (blend (j + 4) src.accountIdPrefix dest.accountIdPrefix)) :
    Routes src dest cur used (28 + (j + 4 : Nat)) (32 + (j + 4 : Nat)) := by
  have transitAddr := @interpolateAddr_eq src dest j (by omega)
  have nextAddr := @interpolateAddr_eq src dest (j + 4) (by omega)
  have count : (28 : Int) + (j + 4 : Nat) = 32 + j := by omega
  rw [count]
  constructor
  case transit_ge => omega
  case nextHop_ge => omega
  case nextHop_le => omega
  case arrived =>
    intro arrived
    rw [away] at arrived
    exact Bool.noConfusion arrived
  case transit =>
    intro _
    rw [transitAddr]
    exact (shardContains_iff nonzero).mpr ⟨workchain, stays⟩
  case leaves =>
    intro _
    rw [nextAddr, Bool.eq_false_iff]
    intro inside
    exact exits ((shardContains_iff nonzero).mp inside).2
  case advances =>
    intro _
    omega
  case neighbor =>
    intro _ next valid inside
    have nextNonzero := ShardIdFull.shard_ne_zero valid
    rw [nextAddr, shardContains_iff nextNonzero] at inside
    exact isNeighbor_of_nibble (workchain.trans inside.1.symm) nonzero nextNonzero stays inside.2 (blend_nibble j whole low _ _)

lemma routes_workchain {b : Int} (here : shardContains cur (interpolateAddr src dest used) = true)
    (away : shardContains cur dest = false) (less : used < b) (bound : b ≤ 96)
    (leaves : shardContains cur (interpolateAddr src dest b) = false) (neighbor : ∀ next : ShardIdFull, next.isValidExt = true →
      shardContains next (interpolateAddr src dest b) = true → isNeighbor cur next = true) : Routes src dest cur used used b where
  transit_ge := Int.le_refl used
  nextHop_ge := Int.le_of_lt less
  nextHop_le := bound
  arrived := fun arrived => Bool.noConfusion (away.symm.trans arrived)
  transit := fun _ => here
  leaves := fun _ => leaves
  advances := fun _ => less
  neighbor := fun _ => neighbor

section

variable (count : NibbleCount used)
include count

lemma routes_arrived (arrived : shardContains cur dest = true) : Routes src dest cur used 96 96 where
  transit_ge := count.le
  nextHop_ge := Int.le_refl 96
  nextHop_le := Int.le_refl 96
  arrived := fun _ => ⟨rfl, rfl⟩
  transit := fun away => Bool.noConfusion (away.symm.trans arrived)
  leaves := fun away => Bool.noConfusion (away.symm.trans arrived)
  advances := fun away => Bool.noConfusion (away.symm.trans arrived)
  neighbor := fun away => Bool.noConfusion (away.symm.trans arrived)

lemma routes_masterchain (here : shardContains cur (interpolateAddr src dest used) = true)
    (away : shardContains cur dest = false) (masterchain : (interpolateAddr src dest used).workchain = masterchainId ∨
      dest.workchain = masterchainId) : Routes src dest cur used used 96 := by
  have workchainOf : ∀ {id : ShardIdFull} {addr : AccountIdPrefixFull},
      shardContains id addr = true → id.workchain = addr.workchain := by
    intro id addr inside
    rw [shardContains, Bool.and_eq_true] at inside
    exact beq_iff_eq.mp inside.1
  apply routes_workchain here away
  case less =>
    have notAll : used ≠ 96 := by
      intro all
      rw [all, interpolateAddr_all, away] at here
      exact Bool.noConfusion here
    have bound := count.le
    omega
  case bound => exact Int.le_refl 96
  case leaves =>
    rw [interpolateAddr_all]
    exact away
  case neighbor =>
    intro next _ inside
    rw [interpolateAddr_all] at inside
    have either : (cur.isMasterchain || next.isMasterchain) = true := by
      rw [Bool.or_eq_true, ShardIdFull.isMasterchain, ShardIdFull.isMasterchain, beq_iff_eq,
        beq_iff_eq, workchainOf here, workchainOf inside]
      exact masterchain
    rw [isNeighbor, if_pos either]

lemma routes_otherWorkchain (valid : cur.isValidExt = true)
    (here : shardContains cur (interpolateAddr src dest used) = true) (away : shardContains cur dest = false)
    (other : (interpolateAddr src dest used).workchain ≠ dest.workchain) : Routes src dest cur used used 32 := by
  have nonzero := ShardIdFull.shard_ne_zero valid
  have early : used ≤ 0 := by
    cases count with
    | unset => decide
    | start => decide
    | nibbles whole inside =>
      rw [interpolateAddr_eq src dest inside] at other
      exact absurd rfl other
  have nextAddr := @interpolateAddr_eq src dest 0 (by decide)
  rw [blend_zero] at nextAddr
  have inTransit := (shardContains_iff nonzero).mp here
  rw [interpolateAddr_of_nonpos src dest early] at inTransit other
  apply routes_workchain here away
  case less => omega
  case bound => decide
  case leaves =>
    rw [Bool.eq_false_iff]
    intro inside
    have workchain := ((shardContains_iff nonzero).mp inside).1
    rw [show (32 : Int) = 32 + (0 : Nat) from rfl, nextAddr] at workchain
    exact other (inTransit.1.symm.trans workchain)
  case neighbor =>
    intro next nextValid inside
    have nextNonzero := ShardIdFull.shard_ne_zero nextValid
    have nextInside := ((shardContains_iff nextNonzero).mp inside).2
    rw [show (32 : Int) = 32 + (0 : Nat) from rfl, nextAddr] at nextInside
    exact isNeighbor_of_shared nonzero nextNonzero inTransit.2 nextInside

lemma performHypercubeRouting_ok (valid : cur.isValidExt = true)
    (here : shardContains cur (interpolateAddr src dest used) = true) :
    ∃ a b, performHypercubeRouting src dest cur used = some (a, b) ∧
      NibbleCount a ∧ NibbleCount b ∧ Routes src dest cur used a b := by
  have nonzero := ShardIdFull.shard_ne_zero valid
  have inTransit := (shardContains_iff nonzero).mp here
  rw [performHypercubeRouting]
  simp only [here, Bool.not_true, Bool.false_eq_true, if_false]
  cases arrived : shardContains cur dest with
  | true => exact ⟨96, 96, rfl, .all, .all, routes_arrived count arrived⟩
  | false =>
    simp only [Bool.false_eq_true, if_false, Bool.or_eq_true, beq_iff_eq, bne_iff_ne]
    by_cases masterchain : (interpolateAddr src dest used).workchain = masterchainId ∨ dest.workchain = masterchainId
    · rw [if_pos masterchain]
      exact ⟨used, 96, rfl, count, .all, routes_masterchain count here arrived masterchain⟩
    rw [if_neg masterchain]
    by_cases other : (interpolateAddr src dest used).workchain ≠ dest.workchain
    · rw [if_pos other]
      exact ⟨used, 32, rfl, count, @NibbleCount.nibbles 0 (by decide) (by decide),
        routes_otherWorkchain count valid here arrived other⟩
    rw [if_neg other]
    have other := Decidable.not_not.mp other
    obtain ⟨n, nibble, -, before, form⟩ := count.transit_eq other
    have away : ¬AgreeAbove (endBit cur.shard) cur.shard dest.accountIdPrefix := by
      intro agree
      rw [(shardContains_iff nonzero).mpr ⟨inTransit.1.trans other, agree⟩] at arrived
      exact Bool.noConfusion arrived
    have formPrefix := congrArg AccountIdPrefixFull.accountIdPrefix form
    obtain ⟨j, run, after, low, whole, stays, exits⟩ := routeNibbles_transit nonzero nibble formPrefix inTransit.2 away
    rw [run]
    refine ⟨28 + (j + 4 : Nat), 32 + (j + 4 : Nat), rfl, ?_, ?_,
      routes_nibble nonzero (inTransit.1.trans other) before after low whole arrived stays exits⟩
    · rw [show (28 : Int) + (j + 4 : Nat) = 32 + j by omega]
      exact .nibbles whole (by omega)
    · exact .nibbles (by omega) (by omega)

end

end Step

/-! ## Whole journeys -/

/-- What routing has produced for `used_dest_bits`: none at first, then a component of an
earlier result. -/
inductive Produced (src dest : AccountIdPrefixFull) : Int → Prop where
  | start : Produced src dest 0
  | transit {cur : ShardIdFull} {used a b : Int} :
      Produced src dest used → cur.isValidExt = true →
      performHypercubeRouting src dest cur used = some (a, b) → Produced src dest a
  | nextHop {cur : ShardIdFull} {used a b : Int} :
      Produced src dest used → cur.isValidExt = true →
      performHypercubeRouting src dest cur used = some (a, b) → Produced src dest b

lemma performHypercubeRouting_count {cur : ShardIdFull} {a b : Int} (count : NibbleCount used) (valid : cur.isValidExt = true)
    (routed : performHypercubeRouting src dest cur used = some (a, b)) : NibbleCount a ∧ NibbleCount b := by
  cases here : shardContains cur (interpolateAddr src dest used) with
  | false =>
    have error : performHypercubeRouting src dest cur used = some (-1, -1) := by
      rw [performHypercubeRouting, here]
      rfl
    cases error.symm.trans routed
    exact ⟨.unset, .unset⟩
  | true =>
    obtain ⟨_, _, run, first, second, -⟩ := performHypercubeRouting_ok count valid here
    cases run.symm.trans routed
    exact ⟨first, second⟩

lemma Produced.nibbleCount (produced : Produced src dest used) : NibbleCount used := by
  induction produced with
  | start => exact .start
  | transit _ valid routed count => exact (performHypercubeRouting_count count valid routed).1
  | nextHop _ valid routed count => exact (performHypercubeRouting_count count valid routed).2

structure ShardPartition where
  shards : List ShardIdFull
  valid : ∀ id ∈ shards, id.isValidExt = true
  covers : ∀ id ∈ shards, ∀ addr : AccountIdPrefixFull, addr.workchain = id.workchain →
    ∃ owner ∈ shards, shardContains owner addr = true
  disjoint : ∀ id ∈ shards, ∀ other ∈ shards, ∀ addr : AccountIdPrefixFull,
    shardContains id addr = true → shardContains other addr = true → id = other

namespace ShardPartition

def HasWorkchain (config : ShardPartition) (workchain : BitVec 32) : Prop :=
  ∃ id ∈ config.shards, id.workchain = workchain

lemma HasWorkchain.owner {config : ShardPartition} {addr : AccountIdPrefixFull} (known : config.HasWorkchain addr.workchain) :
    ∃ owner ∈ config.shards, shardContains owner addr = true := by
  obtain ⟨id, member, workchain⟩ := known
  exact config.covers id member addr workchain.symm

end ShardPartition

/-- A message after some hops: its shard and the destination bits used. The partition may change
at every hop. -/
inductive Travels (src dest : AccountIdPrefixFull) (configs : Nat → ShardPartition) :
    Nat → ShardIdFull → Int → Prop where
  | start {cur : ShardIdFull} : cur ∈ (configs 0).shards → shardContains cur src = true →
      Travels src dest configs 0 cur 0
  | hop {hops : Nat} {cur next : ShardIdFull} {used a b : Int} :
      Travels src dest configs hops cur used → shardContains cur dest = false →
      performHypercubeRouting src dest cur used = some (a, b) →
      next ∈ (configs (hops + 1)).shards →
      shardContains next (interpolateAddr src dest b) = true →
      Travels src dest configs (hops + 1) next b

section Journey

variable {configs : Nat → ShardPartition}

lemma interpolateAddr_workchain (used : Int) (count : NibbleCount used) :
    (interpolateAddr src dest used).workchain = src.workchain ∨ (interpolateAddr src dest used).workchain = dest.workchain := by
  cases count with
  | unset => exact .inl rfl
  | start => exact .inl rfl
  | nibbles whole inside =>
    rw [interpolateAddr_eq src dest inside]
    exact .inr rfl

variable {hops : Nat} {cur : ShardIdFull}

section

variable (travels : Travels src dest configs hops cur used)
include travels

lemma Travels.produced : cur.isValidExt = true ∧ shardContains cur (interpolateAddr src dest used) = true ∧
      Produced src dest used := by
  induction travels with
  | start member here => exact ⟨(configs 0).valid _ member, here, .start⟩
  | hop _ _ routed member inside ih =>
    exact ⟨(configs _).valid _ member, inside, .nextHop ih.2.2 ih.1 routed⟩

lemma Travels.routes : ∃ a b, performHypercubeRouting src dest cur used = some (a, b) ∧
      NibbleCount a ∧ NibbleCount b ∧ Routes src dest cur used a b := by
  obtain ⟨valid, here, produced⟩ := travels.produced
  exact performHypercubeRouting_ok produced.nibbleCount valid here

/-- Every hop uses at least one more nibble; the first one uses the workchain. -/
lemma Travels.used_ge : (hops = 0 ∧ used = 0) ∨ 28 + 4 * (hops : Int) ≤ used := by
  induction travels with
  | start => exact .inl ⟨rfl, rfl⟩
  | hop before away routed member inside ih =>
    obtain ⟨_, b, run, -, next, routes⟩ := before.routes
    cases run.symm.trans routed
    have less := routes.advances away
    have grown := before.produced.2.2.nibbleCount.next next less (by omega)
    right
    omega

lemma Travels.hops_le : hops ≤ 17 ∧ (hops = 17 → shardContains cur dest = true) := by
  obtain ⟨-, here, produced⟩ := travels.produced
  have bound := produced.nibbleCount.le
  have used_ge := travels.used_ge
  constructor
  · omega
  · intro last
    have all : used = 96 := by omega
    rwa [all, interpolateAddr_all] at here

end

section

variable (known : ∀ hop, (configs hop).HasWorkchain src.workchain ∧ (configs hop).HasWorkchain dest.workchain)
include known

lemma Travels.continues (travels : Travels src dest configs hops cur used) (away : shardContains cur dest = false) :
    ∃ next b, Travels src dest configs (hops + 1) next b := by
  obtain ⟨a, b, run, -, count, -⟩ := travels.routes
  have owned : (configs (hops + 1)).HasWorkchain (interpolateAddr src dest b).workchain := by
    cases interpolateAddr_workchain b count with
    | inl source =>
      rw [source]
      exact (known (hops + 1)).1
    | inr destination =>
      rw [destination]
      exact (known (hops + 1)).2
  obtain ⟨next, member, inside⟩ := owned.owner
  exact ⟨next, b, .hop travels away run member inside⟩

lemma Travels.arrives (left : Nat) (travels : Travels src dest configs hops cur used) (count : hops + left = 17) :
    ∃ total ≤ 17, ∃ last bits, Travels src dest configs total last bits ∧ shardContains last dest = true := by
  induction left generalizing hops cur used with
  | zero => exact ⟨hops, by omega, cur, used, travels, travels.hops_le.2 (by omega)⟩
  | succ left ih =>
    cases arrived : shardContains cur dest with
    | true => exact ⟨hops, by omega, cur, used, travels, arrived⟩
    | false =>
      obtain ⟨next, b, travelled⟩ := travels.continues known arrived
      exact ih travelled (by omega)

end

end Journey

/-- Routing always leads to a neighbor and ends at the destination, also through partitions that
change at every hop. -/
theorem performHypercubeRouting_reaches_destination (src dest : AccountIdPrefixFull) :
    (∀ (cur : ShardIdFull) (used : Int), cur.isValidExt = true → Produced src dest used →
      shardContains cur (interpolateAddr src dest used) = true →
      ∃ a b,
        performHypercubeRouting src dest cur used = some (a, b) ∧
        Routes src dest cur used a b) ∧
    ∀ configs : Nat → ShardPartition,
      (∀ hop, (configs hop).HasWorkchain src.workchain ∧ (configs hop).HasWorkchain dest.workchain) →
      (∃ hops ≤ 17, ∃ last used,
        Travels src dest configs hops last used ∧
        shardContains last dest = true) ∧
      ∀ hops cur used, Travels src dest configs hops cur used →
        hops ≤ 17 ∧
        (hops = 17 → shardContains cur dest = true) ∧
        (shardContains cur dest = false → ∃ next b, Travels src dest configs (hops + 1) next b) := by
  constructor
  · intro cur used valid produced here
    obtain ⟨a, b, run, -, -, routes⟩ := performHypercubeRouting_ok produced.nibbleCount valid here
    exact ⟨a, b, run, routes⟩
  · intro configs known
    constructor
    · obtain ⟨cur, member, inside⟩ := (known 0).1.owner
      exact Travels.arrives known 17 (.start member inside) rfl
    · intro hops cur used travels
      exact ⟨travels.hops_le.1, travels.hops_le.2, travels.continues known⟩

lemma shardContainsPrefix_whole (account : BitVec 64) : shardContainsPrefix 0x8000000000000000#64 account = true := by
  rw [shardContainsPrefix_iff (by decide)]
  intro i above
  have last : endBit 0x8000000000000000#64 = 63 := by decide +kernel
  rw [BitVec.getLsbD_of_ge _ _ (by omega), BitVec.getLsbD_of_ge _ _ (by omega)]

lemma shardContainsPrefix_half {shard : BitVec 64} (nonzero : shard ≠ 0) (half : endBit shard = 62) (account : BitVec 64) :
    shardContainsPrefix shard account = (shard.getLsbD 63 == account.getLsbD 63) := by
  rw [Bool.eq_iff_iff, shardContainsPrefix_iff nonzero, half, beq_iff_eq]
  constructor
  · exact fun agree => agree 63 (by decide)
  · intro same i above
    by_cases inside : i < 64
    · obtain rfl : i = 63 := by omega
      exact same
    · rw [BitVec.getLsbD_of_ge _ _ (by omega), BitVec.getLsbD_of_ge _ _ (by omega)]

lemma shardContainsPrefix_lower (account : BitVec 64) :
    shardContainsPrefix 0x4000000000000000#64 account = !account.getLsbD 63 := by
  rw [shardContainsPrefix_half (by decide) (by decide +kernel)]
  cases account.getLsbD 63 <;> decide

lemma shardContainsPrefix_upper (account : BitVec 64) :
    shardContainsPrefix 0xC000000000000000#64 account = account.getLsbD 63 := by
  rw [shardContainsPrefix_half (by decide) (by decide +kernel)]
  cases account.getLsbD 63 <;> decide

/-- The masterchain, a workchain that is not split and one that is split in two. -/
def splitPartition : ShardPartition where
  shards := [⟨masterchainId, 0x8000000000000000⟩, ⟨1, 0x8000000000000000⟩, ⟨0, 0x4000000000000000⟩, ⟨0, 0xC000000000000000⟩]
  valid := by decide
  covers := by
    intro id member addr workchain
    simp only [mem_cons, not_mem_nil, or_false] at member
    rcases member with rfl | rfl | rfl | rfl
    all_goals
      cases half : addr.accountIdPrefix.getLsbD 63 <;>
        simp [shardContains, workchain, half, shardContainsPrefix_lower, shardContainsPrefix_upper, shardContainsPrefix_whole]
  disjoint := by
    intro id member other otherMember addr inside otherInside
    rw [shardContains, Bool.and_eq_true, beq_iff_eq] at inside otherInside
    have workchain := inside.1.trans otherInside.1.symm
    simp only [mem_cons, not_mem_nil, or_false] at member otherMember
    rcases member with rfl | rfl | rfl | rfl <;> rcases otherMember with rfl | rfl | rfl | rfl
    all_goals first
      | rfl
      | exact absurd workchain (by decide)
      | simp_all [shardContainsPrefix_lower, shardContainsPrefix_upper]

def farSrc : AccountIdPrefixFull := ⟨1, 5⟩

def farDest : AccountIdPrefixFull := ⟨0, 0xF000000000000007⟩

/-- From one workchain to the far half of another: the first hop changes the workchain, the second
one the half. -/
theorem performHypercubeRouting_reaches_destination_far :
    Travels farSrc farDest (fun _ => splitPartition) 1 ⟨0, 0x4000000000000000⟩ 32 ∧
    (∃ a b,
      performHypercubeRouting farSrc farDest ⟨0, 0x4000000000000000⟩ 32 = some (a, b) ∧
      Routes farSrc farDest ⟨0, 0x4000000000000000⟩ 32 a b) ∧
    (∃ next b, Travels farSrc farDest (fun _ => splitPartition) 2 next b) ∧
    ∃ hops ≤ 17, ∃ last used,
      Travels farSrc farDest (fun _ => splitPartition) hops last used ∧
      shardContains last farDest = true := by
  obtain ⟨routes, travels⟩ := performHypercubeRouting_reaches_destination farSrc farDest
  have start : Travels farSrc farDest (fun _ => splitPartition) 0 ⟨1, 0x8000000000000000⟩ 0 :=
    .start (by simp [splitPartition]) (by decide)
  have first : performHypercubeRouting farSrc farDest ⟨1, 0x8000000000000000⟩ 0 = some (0, 32) := by decide
  have hop : Travels farSrc farDest (fun _ => splitPartition) 1 ⟨0, 0x4000000000000000⟩ 32 :=
    .hop start (by decide) first (by simp [splitPartition]) (by decide)
  have workchains : ∀ _hop : Nat, splitPartition.HasWorkchain farSrc.workchain ∧ splitPartition.HasWorkchain farDest.workchain :=
    fun _ => ⟨⟨⟨1, 0x8000000000000000⟩, by simp [splitPartition], rfl⟩, ⟨⟨0, 0x4000000000000000⟩, by simp [splitPartition], rfl⟩⟩
  obtain ⟨arrives, continues⟩ := travels (fun _ => splitPartition) workchains
  refine ⟨hop, ?_, (continues 1 _ 32 hop).2.2 (by decide), arrives⟩
  exact routes _ 32 (by decide) (.nextHop .start (by decide) first) (by decide)

end TonNode.Shard
