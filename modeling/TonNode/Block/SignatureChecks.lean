import TonNode.Block.SignatureSet

/-!
# What accepted signature sets consist of

Short ids identify validators, and the signers of an accepted set are distinct
validators that hold more than two thirds of the weight.
-/

namespace TonNode.Block

open Consensus Lib Simplex List Nat

namespace ValidatorSet

structure Lawful (crypto : Crypto) (vset : ValidatorSet) : Prop where
  total : vset.totalWeight = sumWeight vset.ids 0
  ordered : vset.idsMap.Pairwise (·.1 < ·.1)
  listed : ∀ entry, entry ∈ vset.idsMap ↔ ∃ descr, vset.ids[entry.2]? = some descr ∧ crypto.shortId descr = entry.1

variable {crypto : Crypto} {nodes : List ValidatorDescr} {vset : ValidatorSet} {list : List (Bits256 × Nat)} {id : Bits256}
variable {descr : ValidatorDescr}

lemma mem_entries {entry : Bits256 × Nat} : entry ∈ entries crypto nodes ↔
      ∃ descr, nodes[entry.2]? = some descr ∧ crypto.shortId descr = entry.1 := by
  obtain ⟨id, index⟩ := entry
  simp only [entries, mem_map, Prod.exists, Prod.mk.injEq, mem_zipIdx_iff_getElem?]
  constructor
  · rintro ⟨descr, other, found, same, rfl⟩
    exact ⟨descr, found, same⟩
  · rintro ⟨descr, found, same⟩
    exact ⟨descr, index, found, same, rfl⟩

instance : Std.Total entryLe where
  total left right := by
    unfold entryLe
    omega

instance : IsTrans (Nat × Nat) entryLe where
  trans first second third := by
    unfold entryLe
    omega

lemma adjacentDistinct_iff : adjacentDistinct list = true ↔ list.IsChain (·.1 ≠ ·.1) := by
  induction list with
  | nil => simp [adjacentDistinct]
  | cons first rest ih =>
    cases rest with
    | nil => simp [adjacentDistinct]
    | cons second rest => simp [adjacentDistinct, ih]

lemma increasing_of_adjacentDistinct {list : List (Nat × Nat)}
    (sorted : list.Pairwise entryLe) (distinct : adjacentDistinct list = true) : list.Pairwise (·.1 < ·.1) := by
  have chain : list.IsChain (·.1 < ·.1) := by
    induction list with
    | nil => exact .nil
    | cons first rest ih =>
      rw [pairwise_cons] at sorted
      cases rest with
      | nil => exact .singleton _
      | cons second rest =>
        simp only [adjacentDistinct, Bool.and_eq_true, bne_iff_ne, ne_eq] at distinct
        have ordered := sorted.1 second mem_cons_self
        have different : (first.1 : Nat) ≠ second.1 := distinct.1
        unfold entryLe at ordered
        exact .cons_cons (by omega) (ih sorted.2 distinct.2)
  have transitive : IsTrans (Nat × Nat) (fun left right => left.1 < right.1) := ⟨fun _ _ _ => lt_trans⟩
  exact chain.pairwise

lemma create_lawful {ccSeqno : Nat} {shard : ShardIdFull} (created : create crypto ccSeqno shard nodes = some vset) :
    vset.Lawful crypto ∧ vset.ids = nodes := by
  simp only [create] at created
  split at created
  next distinct =>
    cases created
    refine ⟨⟨rfl, ?_, fun entry => ?_⟩, rfl⟩
    · exact increasing_of_adjacentDistinct (pairwise_insertionSort _ _) distinct
    · exact (mem_insertionSort _).trans mem_entries
  next => cases created

lemma create_of_unique (crypto : Crypto) (ccSeqno : Nat) (shard : ShardIdFull) (unique : (nodes.map crypto.shortId).Nodup) :
    ∃ vset, create crypto ccSeqno shard nodes = some vset := by
  have firsts : (entries crypto nodes).map Prod.fst = nodes.map crypto.shortId := by
    have names : nodes.map crypto.shortId = (nodes.zipIdx.map Prod.fst).map crypto.shortId := by
      rw [zipIdx_map_fst]
    rw [names, entries, map_map, map_map]
    rfl
  have distinct : adjacentDistinct ((entries crypto nodes).insertionSort entryLe) = true := by
    rw [adjacentDistinct_iff]
    have nodup : (((entries crypto nodes).insertionSort entryLe).map Prod.fst).Nodup :=
      (((entries crypto nodes).perm_insertionSort entryLe).map Prod.fst).nodup_iff.mpr (by rwa [firsts])
    exact (pairwise_map.mp nodup).isChain
  exact ⟨_, if_pos distinct⟩

lemma dropWhile_eq_iff (ordered : list.Pairwise (·.1 < ·.1)) (entry : Bits256 × Nat) :
    (∃ rest, list.dropWhile (·.1 < entry.1) = entry :: rest) ↔ entry ∈ list := by
  induction list with
  | nil => simp
  | cons first rest ih =>
    rw [pairwise_cons] at ordered
    by_cases smaller : first.1 < entry.1
    · have different : entry ≠ first := by
        rintro rfl
        exact lt_irrefl _ smaller
      rw [dropWhile_cons_of_pos (by simpa using smaller), ih ordered.2]
      simp [different]
    · rw [dropWhile_cons_of_neg (by simpa using smaller)]
      constructor
      · rintro ⟨_, same⟩
        cases same
        exact mem_cons_self
      · intro member
        rcases mem_cons.mp member with rfl | later
        · exact ⟨_, rfl⟩
        · exact absurd (ordered.1 entry later) smaller

lemma getValidator_eq_some_iff (lawful : vset.Lawful crypto) :
    vset.getValidator id = some descr ↔ descr ∈ vset.ids ∧ crypto.shortId descr = id := by
  rw [getValidator]
  constructor
  · intro found
    split at found
    · cases found
    next entry rest dropped =>
      split at found
      next same =>
        subst same
        have listed := (dropWhile_eq_iff lawful.ordered entry).mp ⟨rest, dropped⟩
        obtain ⟨other, otherFound, otherId⟩ := (lawful.listed entry).mp listed
        rw [found] at otherFound
        cases otherFound
        exact ⟨mem_of_getElem? found, otherId⟩
      next => cases found
  · rintro ⟨member, rfl⟩
    obtain ⟨index, found⟩ := mem_iff_getElem?.mp member
    have listed := (lawful.listed (crypto.shortId descr, index)).mpr ⟨descr, found, rfl⟩
    obtain ⟨rest, dropped⟩ := (dropWhile_eq_iff lawful.ordered _).mpr listed
    rw [dropped]
    simp [found]

def weight (vset : ValidatorSet) (validator : Fin vset.ids.length) : Nat :=
  (vset.ids.get validator).weight

def nodeId (crypto : Crypto) (vset : ValidatorSet) (validator : Fin vset.ids.length) : Bits256 :=
  crypto.shortId (vset.ids.get validator)

section Lawful

variable (lawful : vset.Lawful crypto)

include lawful

lemma Lawful.getValidator_nodeId (validator : Fin vset.ids.length) :
    vset.getValidator (vset.nodeId crypto validator) = some (vset.ids.get validator) :=
  (getValidator_eq_some_iff lawful).mpr ⟨get_mem _ _, rfl⟩

lemma Lawful.exists_nodeId (found : vset.getValidator id = some descr) :
    ∃ validator, vset.nodeId crypto validator = id ∧ vset.ids.get validator = descr := by
  obtain ⟨member, same⟩ := (getValidator_eq_some_iff lawful).mp found
  obtain ⟨validator, rfl⟩ := get_of_mem member
  exact ⟨validator, same, rfl⟩

lemma Lawful.nodeId_injective : Function.Injective (vset.nodeId crypto) := by
  intro left right same
  have listed : ∀ validator : Fin vset.ids.length,
      (vset.nodeId crypto validator, validator.val) ∈ vset.idsMap := by
    intro validator
    exact (lawful.listed _).mpr ⟨_, getElem?_eq_getElem validator.isLt, rfl⟩
  have distinct : (vset.idsMap.map Prod.fst).Nodup := pairwise_map.mpr (lawful.ordered.imp ne_of_lt)
  have entries := inj_on_of_nodup_map distinct (listed left) (listed right) same
  exact Fin.val_injective (congrArg Prod.snd entries)

end Lawful

lemma sumWeight_eq (nodes : List ValidatorDescr) {total : Nat} (small : total < 2 ^ 64) :
    sumWeight nodes total = (total + (nodes.map (·.weight)).sum) % 2 ^ 64 := by
  induction nodes generalizing total with
  | nil => simpa [sumWeight] using (mod_eq_of_lt small).symm
  | cons descr rest ih =>
    rw [sumWeight, addWeight, ih (mod_lt _ (by decide)), mod_add_mod]
    simp [add_assoc]

lemma sum_weight (vset : ValidatorSet) : ∑ validator, vset.weight validator = (vset.ids.map (·.weight)).sum := by
  simp only [weight, get_eq_getElem]
  exact Fin.sum_univ_fun_getElem vset.ids (·.weight)

/-- Distinct signers cannot exceed the total weight, so no sum of theirs wraps around. -/
lemma sumWeight_signers (vset : ValidatorSet) (capped : (vset.ids.map (·.weight)).sum ≤ 2 ^ 61)
    {signers : List (Fin vset.ids.length)} (distinct : signers.Nodup) :
    sumWeight (signers.map vset.ids.get) 0 = (signers.map vset.weight).sum ∧
      (signers.map vset.weight).sum ≤ (vset.ids.map (·.weight)).sum := by
  have below : (signers.map vset.weight).sum ≤ (vset.ids.map (·.weight)).sum := by
    rw [← sum_toFinset _ distinct, ← sum_weight]
    exact Finset.sum_le_sum_of_subset (Finset.subset_univ _)
  refine ⟨?_, below⟩
  have weights : (signers.map vset.ids.get).map (·.weight) = signers.map vset.weight := map_map
  rw [sumWeight_eq _ (by decide), weights, zero_add]
  exact mod_eq_of_lt (by omega)

lemma Lawful.totalWeight_eq (lawful : vset.Lawful crypto) (capped : (vset.ids.map (·.weight)).sum ≤ 2 ^ 61) :
    vset.totalWeight = (vset.ids.map (·.weight)).sum := by
  rw [lawful.total, sumWeight_eq _ (by decide), zero_add]
  exact mod_eq_of_lt (by omega)

end ValidatorSet

namespace BlockSignatureSet

variable {crypto : Crypto} {vset : ValidatorSet}
  {check : ValidatorDescr → BufferSlice → Except String Unit}

variable {weight : Nat} {nodes : List Bits256}

lemma sumSigners_signers (lawful : vset.Lawful crypto) {signatures : List BlockSignature} {total : Nat}
    (result : sumSigners vset check signatures nodes weight = .ok total) : ∃ signers : List (Fin vset.ids.length),
      signatures.map (·.node) = signers.map (vset.nodeId crypto) ∧ signers.Nodup ∧
      (∀ signer ∈ signers, vset.nodeId crypto signer ∉ nodes) ∧
      total = ValidatorSet.sumWeight (signers.map vset.ids.get) weight := by
  induction signatures generalizing nodes weight with
  | nil =>
    cases result
    exact ⟨[], rfl, .nil, by simp, rfl⟩
  | cons signature rest ih =>
    simp only [sumSigners] at result
    split at result
    · cases result
    next unseen =>
      split at result
      · cases result
      next descr found =>
        obtain ⟨_, _, result⟩ := bind_eq_ok.mp result
        obtain ⟨signer, named, rfl⟩ := lawful.exists_nodeId found
        obtain ⟨signers, names, distinct, others, summed⟩ := ih result
        refine ⟨signer :: signers, by simp [names, named], ?_, ?_, summed⟩
        · refine nodup_cons.mpr ⟨fun member => ?_, distinct⟩
          exact others signer member (by rw [named]; exact mem_cons_self)
        · intro other member
          rcases mem_cons.mp member with rfl | later
          · rwa [named]
          · exact fun seen => others other later (mem_cons_of_mem _ seen)

lemma sumSigners_ok (lawful : vset.Lawful crypto) {signatures : List (VoteSignature vset.ids.length)}
    (distinct : (signatures.map (·.validator)).Nodup)
    (unseen : ∀ signature ∈ signatures, vset.nodeId crypto signature.validator ∉ nodes)
    (checked : ∀ signature ∈ signatures, check (vset.ids.get signature.validator) signature.signature = .ok ()) :
    sumSigners vset check (signatures.map fun signature =>
          ⟨vset.nodeId crypto signature.validator, signature.signature⟩) nodes weight = .ok (ValidatorSet.sumWeight
        ((signatures.map (·.validator)).map vset.ids.get) weight) := by
  induction signatures generalizing nodes weight with
  | nil => rfl
  | cons signature rest ih =>
    simp only [map_cons, nodup_cons] at distinct
    have fresh := unseen signature mem_cons_self
    have accepted := checked signature mem_cons_self
    simp only [map_cons, sumSigners, if_neg fresh, lawful.getValidator_nodeId, accepted]
    refine ih distinct.2 (fun other member seen => ?_) (forall_mem_cons.mp checked).2
    rcases mem_cons.mp seen with same | earlier
    · have equal := lawful.nodeId_injective same
      exact distinct.1 (mem_map.mpr ⟨other, member, equal⟩)
    · exact unseen other (mem_cons_of_mem _ member) earlier

lemma checkThreshold_iff {total : Nat} (capped : total ≤ 2 ^ 61) (below : weight ≤ total) :
    checkThreshold weight total = true ↔ total * 2 / 3 + 1 ≤ weight := by
  rw [checkThreshold, decide_eq_true_eq, mod_eq_of_lt (by omega), mod_eq_of_lt (by omega)]
  omega

/-- Whoever signed an accepted set, it was a quorum of distinct validators. -/
lemma checkSignaturesImpl_quorum (lawful : vset.Lawful crypto)
    (capped : (vset.ids.map (·.weight)).sum ≤ 2 ^ 61) {set : BlockSignatureSet}
    {blockId : BlockIdExt} (result : set.checkSignaturesImpl crypto vset blockId = .ok weight) :
    ∃ signers : List (Fin vset.ids.length), set.signatures.map (·.node) = signers.map (vset.nodeId crypto) ∧ signers.Nodup ∧
      weight = (signers.map vset.weight).sum ∧ (vset.ids.map (·.weight)).sum * 2 / 3 + 1 ≤ weight := by
  obtain ⟨_, _, result⟩ := bind_eq_ok.mp result
  obtain ⟨data, _, result⟩ := bind_eq_ok.mp result
  obtain ⟨total, summed, result⟩ := bind_eq_ok.mp result
  split at result
  next heavy =>
    cases result
    obtain ⟨signers, names, distinct, _, rfl⟩ := sumSigners_signers lawful summed
    obtain ⟨exact, below⟩ := vset.sumWeight_signers capped distinct
    rw [exact, lawful.totalWeight_eq capped] at heavy
    refine ⟨signers, names, distinct, exact, ?_⟩
    rw [exact]
    exact (checkThreshold_iff capped below).mp heavy
  next => cases result

end BlockSignatureSet

end TonNode.Block
