import TonNode.Vm.DataCell

/-!
# What creation of a data cell ensures

A created cell keeps the bits and references it was given, its level mask has three bits, its
hashes are whole and its depths bounded.
-/

namespace TonNode.Vm

open CellChecker List Nat LevelMask

namespace LevelMask

variable {mask : Nat} {other : Nat}

lemma getLevel_le (small : mask < 8) : getLevel mask ≤ 3 := by
  revert mask
  decide +kernel

lemma lt_of_getLevel_le (low : getLevel mask ≤ 3) : mask < 8 := by
  unfold getLevel at low
  split at low
  · omega
  next nonzero =>
    have bound : Nat.log2 mask < 3 := by omega
    exact (log2_lt nonzero).mp bound

lemma getHashI_apply_lt {level : Nat} (small : mask < 8) (low : level < 3)
    (significant : isSignificant mask (level + 1) = true) : getHashI (apply mask level) < getHashI mask := by
  have all : ∀ mask < 8, ∀ level < 3, isSignificant mask (level + 1) = true →
      getHashI (apply mask level) < getHashI mask := by
    decide +kernel
  exact all mask small level low significant

lemma getHashI_le (small : mask < 8) : getHashI mask ≤ 3 := by
  revert mask
  decide +kernel

lemma getLevel_applyOr (small : mask < 8) (smallOther : other < 8) :
    getLevel mask ≤ getLevel (applyOr mask other) ∧ getLevel other ≤ getLevel (applyOr mask other) := by
  have all : ∀ mask < 8, ∀ other < 8, getLevel mask ≤ getLevel (applyOr mask other) ∧
      getLevel other ≤ getLevel (applyOr mask other) := by
    decide +kernel
  exact all mask small other smallOther

lemma getLevel_shiftRight (small : mask < 8) : getLevel mask ≤ getLevel (shiftRight mask) + 1 := by
  revert mask
  decide +kernel

lemma applyOr_lt (small : mask < 8) (smallOther : other < 8) : applyOr mask other < 8 :=
  or_lt_two_pow (n := 3) small smallOther

end LevelMask

structure LevelInfo.WellFormed (info : LevelInfo) : Prop where
  mask_lt : info.levelMask < 8
  hash_length : ∀ level, (info.getHash level).length = 256
  depth_le : ∀ level, info.getDepth level ≤ Cell.maxDepth

namespace CellChecker

variable {bits : List Bool} {type : SpecialType} {refs : List LevelInfo} {mask level : Nat}
variable {depth : List Nat} {sha : Sha256} {hint : DataCell.HashHint} {computed : List CellHash}

lemma specialType_isSpecial {isSpecial : Bool} (found : specialType isSpecial bits = .ok type) :
    (type != .ordinary) = isSpecial := by
  unfold specialType at found
  cases isSpecial with
  | false => cases found; rfl
  | true =>
    simp only [↓reduceIte] at found
    split at found
    · cases found
    · split at found
      all_goals cases found
      all_goals rfl

lemma orMask_lt (small : ∀ ref ∈ refs, ref.levelMask < 8) : orMask refs < 8 := by
  unfold orMask
  apply List.foldlRecOn (motive := fun mask => mask < 8)
  · decide
  · intro mask smallMask ref member
    exact applyOr_lt smallMask (small ref member)

lemma shiftRight_lt (small : mask < 8) : LevelMask.shiftRight mask < 8 := by
  unfold LevelMask.shiftRight
  omega

lemma foldl_applyOr_level (small : ∀ ref ∈ refs, ref.levelMask < 8) {start : Nat} (startSmall : start < 8) :
    getLevel start ≤ getLevel (refs.foldl (fun mask ref => applyOr mask ref.levelMask) start) ∧
      ∀ ref ∈ refs, getLevel ref.levelMask ≤ getLevel
        (refs.foldl (fun mask ref => applyOr mask ref.levelMask) start) := by
  induction refs generalizing start with
  | nil => exact ⟨Nat.le_refl _, by simp⟩
  | cons first rest ih =>
    have firstSmall := small first (by simp)
    obtain ⟨left, right⟩ := getLevel_applyOr startSmall firstSmall
    obtain ⟨later, others⟩ := ih (forall_mem_cons.mp small).2 (applyOr_lt startSmall firstSmall)
    exact ⟨Nat.le_trans left later, forall_mem_cons.mpr ⟨Nat.le_trans right later, others⟩⟩

lemma foldl_max_depth (level : Nat) (refs : List LevelInfo) (start : Nat) :
    start ≤ refs.foldl (fun depth ref => max depth (ref.getDepth level)) start ∧ ∀ ref ∈ refs, ref.getDepth level ≤
        refs.foldl (fun depth ref => max depth (ref.getDepth level)) start := by
  induction refs generalizing start with
  | nil => exact ⟨Nat.le_refl _, by simp⟩
  | cons first rest ih =>
    obtain ⟨later, others⟩ := ih (max start (first.getDepth level))
    exact ⟨Nat.le_trans (Nat.le_max_left _ _) later, forall_mem_cons.mpr ⟨Nat.le_trans (Nat.le_max_right _ _) later, others⟩⟩

lemma depthAtLevels_getD (depthAt : Nat → Nat) (low : level ≤ 3) : (depthAtLevels depthAt).getD level 0 = depthAt level := by
  have inside : level < Cell.maxLevel + 1 := lt_succ_of_le low
  unfold depthAtLevels
  rw [getD_eq_getElem?_getD, getElem?_map, getElem?_range inside]
  rfl

@[simp] lemma depthAtLevels_length (depthAt : Nat → Nat) : (depthAtLevels depthAt).length = 4 := by
  simp [depthAtLevels, Cell.maxLevel]

@[simp] lemma prunedDepths_length (mask : Nat) (bits : List Bool) :
    (prunedDepths mask bits).length = 4 := rfl

lemma checkPrunedBranch_ok (checked : checkPrunedBranch bits refs = .ok (mask, depth)) :
    refs = [] ∧ mask = readByte bits 1 ∧ mask ≠ 0 ∧ mask < 8 ∧
      bits.length = (2 + getHashI mask * (Cell.hashBytes + Cell.depthBytes)) * 8 ∧ depth = prunedDepths mask bits := by
  unfold checkPrunedBranch at checked
  split at checked
  · cases checked
  rename_i noRefs
  split at checked
  · cases checked
  simp only [] at checked
  split at checked
  · cases checked
  rename_i level
  split at checked
  · cases checked
  rename_i size
  cases checked
  simp only [not_or, Nat.not_lt] at level
  refine ⟨length_eq_zero_iff.mp (by omega), rfl, ?_, ?_, by simpa using size, rfl⟩
  · intro zero
    exact level.1 (by rw [zero]; rfl)
  · exact lt_of_getLevel_le level.2

lemma checkMerkleChild_ok {child : LevelInfo} {hashOffset depthOffset : Nat} {done : Unit}
    (checked : checkMerkleChild bits child hashOffset depthOffset = .ok done) :
    loadHash bits hashOffset = child.getHash 0 ∧ loadDepth bits depthOffset = child.getDepth 0 := by
  unfold checkMerkleChild at checked
  split at checked
  · cases checked
  rename_i hash
  split at checked
  · cases checked
  rename_i childDepth
  exact ⟨by simpa using hash, by simpa using childDepth⟩

lemma checkMerkleProof_ok (checked : checkMerkleProof bits refs = .ok (mask, depth)) :
    ∃ child, refs = [child] ∧ bits.length = 280 ∧ loadHash bits 1 = child.getHash 0 ∧
      loadDepth bits (1 + Cell.hashBytes) = child.getDepth 0 ∧ mask = LevelMask.shiftRight child.levelMask ∧
      depth = merkleDepths refs := by
  unfold checkMerkleProof at checked
  split at checked
  next child =>
    split at checked
    · cases checked
    rename_i size
    obtain ⟨_, childChecked, same⟩ := Lib.bind_eq_ok.mp checked
    obtain ⟨hash, childDepth⟩ := checkMerkleChild_ok childChecked
    cases same
    exact ⟨child, rfl, by simpa [Cell.hashBytes, Cell.depthBytes] using size, hash, childDepth, rfl, rfl⟩
  · cases checked

lemma checkMerkleUpdate_ok (checked : checkMerkleUpdate bits refs = .ok (mask, depth)) :
    ∃ first second, refs = [first, second] ∧ bits.length = 552 ∧
      loadHash bits 1 = first.getHash 0 ∧ loadDepth bits 65 = first.getDepth 0 ∧
      loadHash bits 33 = second.getHash 0 ∧ loadDepth bits 67 = second.getDepth 0 ∧
      mask = LevelMask.shiftRight (LevelMask.applyOr first.levelMask second.levelMask) ∧ depth = merkleDepths refs := by
  unfold checkMerkleUpdate at checked
  split at checked
  next first second =>
    split at checked
    · cases checked
    rename_i size
    obtain ⟨_, firstChecked, checked⟩ := Lib.bind_eq_ok.mp checked
    obtain ⟨_, secondChecked, same⟩ := Lib.bind_eq_ok.mp checked
    obtain ⟨firstHash, firstDepth⟩ := checkMerkleChild_ok firstChecked
    obtain ⟨secondHash, secondDepth⟩ := checkMerkleChild_ok secondChecked
    cases same
    exact ⟨first, second, rfl, by simpa [Cell.hashBytes, Cell.depthBytes] using size, firstHash,
      firstDepth, secondHash, secondDepth, rfl, rfl⟩
  · cases checked

lemma checkLibrary_ok (checked : checkLibrary bits refs = .ok (mask, depth)) :
    refs = [] ∧ bits.length = 264 ∧ mask = 0 ∧ depth = depthAtLevels fun _ => 0 := by
  unfold checkLibrary at checked
  split at checked
  · cases checked
  rename_i noRefs
  split at checked
  · cases checked
  rename_i size
  cases checked
  exact ⟨length_eq_zero_iff.mp (by omega), by simpa [Cell.hashBytes] using size, rfl, rfl⟩

lemma checkType_mask_lt (small : ∀ ref ∈ refs, ref.levelMask < 8)
    (checked : checkType type bits refs = .ok (mask, depth)) : mask < 8 := by
  cases type with
  | ordinary =>
    cases checked
    exact orMask_lt small
  | prunnedBranch => exact (checkPrunedBranch_ok checked).2.2.2.1
  | library =>
    obtain ⟨_, _, rfl, _⟩ := checkLibrary_ok checked
    decide
  | merkleProof =>
    obtain ⟨child, rfl, _, _, _, rfl, _⟩ := checkMerkleProof_ok checked
    exact shiftRight_lt (small child (by simp))
  | merkleUpdate =>
    obtain ⟨first, second, rfl, _, _, _, _, _, rfl, _⟩ := checkMerkleUpdate_ok checked
    exact shiftRight_lt (LevelMask.applyOr_lt (small first (by simp)) (small second (by simp)))

lemma checkType_depth_length (checked : checkType type bits refs = .ok (mask, depth)) : depth.length = 4 := by
  cases type with
  | ordinary =>
    cases checked
    exact depthAtLevels_length _
  | prunnedBranch =>
    obtain ⟨_, _, _, _, _, rfl⟩ := checkPrunedBranch_ok checked
    exact prunedDepths_length _ _
  | library =>
    obtain ⟨_, _, _, rfl⟩ := checkLibrary_ok checked
    exact depthAtLevels_length _
  | merkleProof =>
    obtain ⟨_, _, _, _, _, _, rfl⟩ := checkMerkleProof_ok checked
    exact depthAtLevels_length _
  | merkleUpdate =>
    obtain ⟨_, _, _, _, _, _, _, _, _, rfl⟩ := checkMerkleUpdate_ok checked
    exact depthAtLevels_length _

lemma loadHash_length {offset : Nat} (enough : 8 * offset + 256 ≤ bits.length) : (loadHash bits offset).length = 256 := by
  unfold loadHash
  rw [length_take, length_drop]
  omega

lemma hashLevel_skip (plain : isSignificant mask (level + 1) = false) (below : level ≠ Cell.maxLevel) :
    hashLevel sha hint type bits refs mask computed level = computed := by
  simp [hashLevel, plain, below]

lemma hashLevel_compute (own : isSignificant mask (level + 1) = true ∨ level = Cell.maxLevel) :
    hashLevel sha hint type bits refs mask computed level = computed ++ List.replicate (level + 1 - computed.length)
        ((hint level mask).getD (computeHash sha type bits refs mask level computed)) := by
  unfold hashLevel
  rw [if_neg]
  cases own with
  | inl significant => simp [significant]
  | inr top => simp [top]

/-- A pruned branch holds the hashes of the levels below its own. -/
def HoldsHashes (type : SpecialType) (mask : Nat) (bits : List Bool) : Prop :=
  type = .prunnedBranch → bits.length = (2 + getHashI mask * (Cell.hashBytes + Cell.depthBytes)) * 8

lemma computeHash_length (small : mask < 8) (low : level ≤ 3) (holds : HoldsHashes type mask bits)
    (own : isSignificant mask (level + 1) = true ∨ level = Cell.maxLevel) :
    (computeHash sha type bits refs mask level computed).length = 256 := by
  unfold computeHash
  split
  next stored =>
    have significant := own.resolve_right stored.1
    have below : level < 3 := by
      have : level ≠ 3 := stored.1
      omega
    have fewer := getHashI_apply_lt small below significant
    have size := holds stored.2
    apply loadHash_length
    simp only [Cell.hashBytes, Cell.depthBytes] at size ⊢
    omega
  · exact sha.length_digest _

lemma hashLevel_forall_length (small : mask < 8) (low : level ≤ 3)
    (holds : HoldsHashes type mask bits) (whole : ∀ hash ∈ computed, hash.length = 256) :
    ∀ hash ∈ hashLevel sha DataCell.noHint type bits refs mask computed level, hash.length = 256 := by
  by_cases own : isSignificant mask (level + 1) = true ∨ level = Cell.maxLevel
  · rw [hashLevel_compute own]
    intro hash member
    rcases mem_append.mp member with before | new
    · exact whole hash before
    · rw [eq_of_mem_replicate new]
      exact computeHash_length small low holds own
  · rw [not_or, Bool.not_eq_true] at own
    rwa [hashLevel_skip own.1 own.2]

lemma hashLevel_length_le (fewer : computed.length ≤ level) :
    (hashLevel sha hint type bits refs mask computed level).length ≤ level + 1 := by
  unfold hashLevel
  split
  · omega
  · rw [length_append, length_replicate]
    omega

lemma hashes_length (sha : Sha256) (hint : DataCell.HashHint) (type : SpecialType)
    (bits : List Bool) (refs : List LevelInfo) (mask : Nat) : (hashes sha hint type bits refs mask).length = 4 := by
  have fewer : (hashLevel sha hint type bits refs mask (hashLevel sha hint type bits refs mask
        (hashLevel sha hint type bits refs mask [] 0) 1) 2).length ≤ 3 :=
    hashLevel_length_le (hashLevel_length_le (hashLevel_length_le (Nat.le_refl 0)))
  have top : 3 = Cell.maxLevel := rfl
  rw [hashes, show List.range (Cell.maxLevel + 1) = [0, 1, 2, 3] from rfl]
  simp only [foldl_cons, foldl_nil]
  rw [hashLevel_compute (Or.inr top), length_append, length_replicate]
  omega

lemma hashes_forall_length (small : mask < 8) (holds : HoldsHashes type mask bits) :
    ∀ hash ∈ hashes sha DataCell.noHint type bits refs mask, hash.length = 256 := by
  unfold hashes
  apply List.foldlRecOn (motive := fun computed : List CellHash => ∀ hash ∈ computed, hash.length = 256)
  · intro hash none
    cases none
  · intro computed whole level member
    have low : level ≤ 3 := le_of_lt_succ (mem_range.mp member)
    exact hashLevel_forall_length small low holds whole

end CellChecker

section Levels

variable {info : LevelInfo}

lemma LevelInfo.getDepth_of_level_le {level : Nat} (small : info.levelMask < 8) (high : info.getLevel ≤ level) :
    info.getDepth level = info.getDepth Cell.maxLevel := by
  have low : info.getLevel ≤ Cell.maxLevel := getLevel_le small
  unfold LevelInfo.getDepth
  rw [Nat.min_eq_left high, Nat.min_eq_left low]

lemma LevelInfo.getD_mem {α : Type} {entries : List α} {default : α}
    (small : info.levelMask < 8) (four : entries.length = 4) (level : Nat) :
    entries.getD (min info.getLevel level) default ∈ entries := by
  have low := getLevel_le small
  have index : min info.getLevel level < entries.length := by
    unfold LevelInfo.getLevel
    omega
  rw [getD_eq_getElem _ _ index]
  exact getElem_mem index

end Levels

namespace DataCell

lemma create_ok {sha : Sha256} {bits : List Bool} {refs : List DataCell} {isSpecial : Bool}
    {hint : HashHint} {cell : DataCell} (created : create sha bits refs isSpecial hint = .ok cell) :
    refs.length ≤ 4 ∧ bits.length ≤ 1023 ∧ ∃ type mask depth,
      CellChecker.specialType isSpecial bits = .ok type ∧
      checkType type bits (refs.map info) = .ok (mask, depth) ∧
      (∀ level ∈ depth, level ≤ Cell.maxDepth) ∧
      cell = .mk type bits refs
        { levelMask := mask
          depth := depth
          hash := hashes sha hint type bits (refs.map info) mask } := by
  unfold create at created
  split at created
  · cases created
  rename_i fewRefs
  split at created
  · cases created
  rename_i fewBits
  obtain ⟨⟨type, levelInfo⟩, checked, same⟩ := Lib.bind_eq_ok.mp created
  unfold checkAndComputeLevelInfo at checked
  obtain ⟨type', typed, checked⟩ := Lib.bind_eq_ok.mp checked
  obtain ⟨⟨mask, depth⟩, maskDepth, checked⟩ := Lib.bind_eq_ok.mp checked
  simp only [] at checked
  split at checked
  · cases checked
  rename_i shallow
  cases checked
  cases same
  refine ⟨by simpa [Cell.maxRefs] using fewRefs, by simpa [Cell.maxBits] using fewBits, type, mask,
    depth, typed, maskDepth, ?_, rfl⟩
  intro level member
  simp only [any_eq_true, decide_eq_true_eq, not_exists, not_and, Nat.not_lt] at shallow
  exact shallow level member

lemma create_fields {sha : Sha256} {bits : List Bool} {refs : List DataCell} {isSpecial : Bool}
    {hint : HashHint} {cell : DataCell} (created : create sha bits refs isSpecial hint = .ok cell) :
    cell.bits = bits ∧ cell.refs = refs ∧ cell.isSpecial = isSpecial := by
  obtain ⟨_, _, type, mask, depth, typed, _, _, rfl⟩ := create_ok created
  exact ⟨rfl, rfl, CellChecker.specialType_isSpecial typed⟩

namespace Created

variable {sha : Sha256} {cell : DataCell}

section

variable (created : Created sha cell)
include created

lemma refs : ∀ ref ∈ cell.refs, Created sha ref := by
  cases created with
  | create refsCreated made =>
    rw [(create_fields made).2.1]
    exact refsCreated

lemma byRefs {motive : DataCell → Prop}
    (step : ∀ cell, Created sha cell → (∀ ref ∈ cell.refs, motive ref) → motive cell) : motive cell := by
  induction created with
  | create refsCreated made ih =>
    refine step _ (.create refsCreated made) ?_
    rwa [(create_fields made).2.1]

lemma recreate : DataCell.create sha cell.bits cell.refs cell.isSpecial noHint = .ok cell := by
  cases created with
  | create refsCreated made =>
    obtain ⟨sameBits, sameRefs, sameSpecial⟩ := create_fields made
    rw [sameBits, sameRefs, sameSpecial]
    exact made

lemma refs_length_le : cell.refs.length ≤ 4 :=
  (create_ok created.recreate).1

lemma bits_length_le : cell.bits.length ≤ 1023 :=
  (create_ok created.recreate).2.1

lemma wellFormed : cell.info.WellFormed := by
  induction created with
  | @create bits refs isSpecial cell refsCreated made refsWellFormed =>
    obtain ⟨_, _, type, mask, depth, _, checked, shallow, rfl⟩ := create_ok made
    have smallRefs : ∀ ref ∈ refs.map DataCell.info, ref.levelMask < 8 := by
      intro ref member
      obtain ⟨child, childMember, rfl⟩ := mem_map.mp member
      exact (refsWellFormed child childMember).mask_lt
    have small := checkType_mask_lt smallRefs checked
    have holds : HoldsHashes type mask bits := by
      intro pruned
      subst pruned
      exact (checkPrunedBranch_ok checked).2.2.2.2.1
    refine ⟨small, ?_, ?_⟩
    · intro level
      apply hashes_forall_length small holds
      exact LevelInfo.getD_mem small (hashes_length ..) level
    · intro level
      apply shallow
      exact LevelInfo.getD_mem small (checkType_depth_length checked) level

lemma getDepth_lt {ref : DataCell} (member : ref ∈ cell.refs) : ref.getDepth Cell.maxLevel < cell.getDepth Cell.maxLevel := by
  have refsWellFormed : ∀ other ∈ cell.refs, other.info.WellFormed :=
    fun other otherMember => (created.refs other otherMember).wellFormed
  have small := created.wellFormed.mask_lt
  obtain ⟨_, _, type, mask, depth, _, checked, _, same⟩ := create_ok created.recreate
  have isRef : ref.info ∈ cell.refs.map DataCell.info := mem_map_of_mem member
  have smallRefs : ∀ other ∈ cell.refs.map DataCell.info, other.levelMask < 8 := by
    intro other otherMember
    obtain ⟨child, childMember, rfl⟩ := mem_map.mp otherMember
    exact (refsWellFormed child childMember).mask_lt
  have refSmall := smallRefs ref.info isRef
  have cellDepth : cell.getDepth Cell.maxLevel = depth.getD (LevelMask.getLevel mask) 0 := by
    have low : LevelMask.getLevel mask ≤ Cell.maxLevel := by
      rw [same] at small
      exact getLevel_le small
    rw [same]
    show depth.getD (min (LevelMask.getLevel mask) Cell.maxLevel) 0 = _
    rw [Nat.min_eq_left low]
  have maskLow : LevelMask.getLevel mask ≤ 3 := by
    rw [same] at small
    exact getLevel_le small
  have below : ∀ level, ref.info.getLevel ≤ level →
      ref.getDepth Cell.maxLevel ≤ maxDepthAt (cell.refs.map DataCell.info) level := by
    intro level high
    have bound := (foldl_max_depth level _ 0).2 _ isRef
    rwa [LevelInfo.getDepth_of_level_le refSmall high] at bound
  rw [cellDepth]
  cases type with
  | ordinary =>
    have nonempty : (cell.refs.map DataCell.info).isEmpty = false := by
      cases empty : (cell.refs.map DataCell.info) with
      | nil => rw [empty] at isRef; cases isRef
      | cons => rfl
    cases checked
    rw [depthAtLevels_getD _ maskLow, nonempty]
    exact lt_succ_of_le (below _ ((foldl_applyOr_level smallRefs (by decide)).2 ref.info isRef))
  | prunnedBranch =>
    rw [(checkPrunedBranch_ok checked).1] at isRef
    cases isRef
  | library =>
    rw [(checkLibrary_ok checked).1] at isRef
    cases isRef
  | merkleProof =>
    obtain ⟨child, refsEq, _, _, _, rfl, rfl⟩ := checkMerkleProof_ok checked
    have isChild : ref.info = child := by
      rw [refsEq] at isRef
      exact mem_singleton.mp isRef
    subst isChild
    unfold merkleDepths
    rw [depthAtLevels_getD _ maskLow]
    exact lt_succ_of_le (below _ (getLevel_shiftRight refSmall))
  | merkleUpdate =>
    obtain ⟨first, second, refsEq, _, _, _, _, _, rfl, rfl⟩ := checkMerkleUpdate_ok checked
    have firstSmall := smallRefs first (by rw [refsEq]; simp)
    have secondSmall := smallRefs second (by rw [refsEq]; simp)
    have either : ref.info.getLevel ≤
        LevelMask.getLevel (LevelMask.applyOr first.levelMask second.levelMask) := by
      obtain ⟨left, right⟩ := getLevel_applyOr firstSmall secondSmall
      rw [refsEq] at isRef
      rcases mem_pair.mp isRef with isFirst | isSecond
      · rw [isFirst]
        exact left
      · rw [isSecond]
        exact right
    unfold merkleDepths
    rw [depthAtLevels_getD _ maskLow]
    exact Nat.lt_succ_of_le (below _ (Nat.le_trans either
      (getLevel_shiftRight (applyOr_lt firstSmall secondSmall))))

end

end Created

end DataCell

end TonNode.Vm
