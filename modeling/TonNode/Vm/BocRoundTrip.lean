import TonNode.Vm.BocLayout

/-!
# A written layout is read back
-/

namespace TonNode.Vm.Boc

open List Nat

variable {α : Type} {position : Nat} {counts : List Nat} {index : Nat} {info : Info} {data : List UInt8}

lemma readAt_record {β : Type} {record : β → List UInt8} {size offset : Nat}
    {before : List UInt8} {items : List β} (sized : ∀ item, (record item).length = size)
    (start : before.length = offset) {item : β} (found : items[position]? = some item) (after : List UInt8) :
    readAt (before ++ (items.flatMap record ++ after)) (offset + position * size) size = Lib.readInt (record item) := by
  unfold readAt substr
  rw [← drop_drop, ← start, drop_left, mul_comm, Lib.take_drop_flatMap items sized found]

/-- The counts after a list of references; they are only kept for the cache flags. -/
def countAll (info : Info) (counts indices : List Nat) : List Nat :=
  if info.hasCacheBits then indices.foldl countReference counts else counts

lemma countAll_cons (info : Info) (counts : List Nat) (index : Nat) (rest : List Nat) :
    countAll info (if info.hasCacheBits then countReference counts index else counts) rest =
      countAll info counts (index :: rest) := by
  unfold countAll
  split <;> rfl

lemma countAll_append (info : Info) (counts first second : List Nat) :
    countAll info (countAll info counts first) second = countAll info counts (first ++ second) := by
  unfold countAll
  split
  · rw [foldl_append]
  · rfl

lemma countReference_getD (inside : index < counts.length)
    (other : Nat) (low : counts.getD other 0 ≤ 2) : (countReference counts index).getD other 0 =
      if index = other then min 2 (counts.getD other 0 + 1) else counts.getD other 0 := by
  rw [getD_eq_getElem?_getD] at low
  unfold countReference
  rw [getD_eq_getElem?_getD, getD_eq_getElem?_getD, getElem?_modify]
  by_cases same : index = other
  · subst same
    rw [getElem?_eq_getElem inside] at low ⊢
    rw [Option.getD_some] at low
    simp only [↓reduceIte, Option.map_eq_map, Option.map_some, Option.getD_some]
    split <;> omega
  · simp [same]

lemma foldl_countReference_getD {counts indices : List Nat} (inside : ∀ index ∈ indices, index < counts.length) (other : Nat)
    (low : counts.getD other 0 ≤ 2) : (indices.foldl countReference counts).getD other 0 =
      min 2 (counts.getD other 0 + indices.count other) := by
  induction indices generalizing counts with
  | nil => exact (min_eq_right low).symm
  | cons index rest ih =>
    have here : index < counts.length := inside index (by simp)
    have step := countReference_getD here other low
    have length : (countReference counts index).length = counts.length := by
      simp [countReference]
    have lowNext : (countReference counts index).getD other 0 ≤ 2 := by
      rw [step]
      split
      · exact min_le_left _ _
      · exact low
    have insideRest : ∀ next ∈ rest, next < (countReference counts index).length := by
      intro next member
      rw [length]
      exact inside next (by simp [member])
    rw [foldl_cons, ih insideRest lowNext, step, count_cons]
    by_cases same : index = other
    · simp only [same, ↓reduceIte, beq_self_eq_true]
      omega
    · simp [same]

lemma readRoots_eq {roots : List Nat} (counted : info.rootCount = roots.length) (stored : info.hasRoots = true)
    (few : info.cellCount < 2 ^ 31) (inside : ∀ root ∈ roots, root < info.cellCount)
    (read : ∀ (position root : Nat), roots[position]? = some root →
      readAt data (info.rootsOffset + position * info.refByteSize) info.refByteSize = fileIndex info.cellCount root)
    (start : position ≤ roots.length) (counts : List Nat) : readRoots info data position counts =
      .ok ((roots.drop position).map (fileIndex info.cellCount),
        countAll info counts ((roots.drop position).map (fileIndex info.cellCount))) := by
  induction left : roots.length - position generalizing position counts with
  | zero =>
    have done : position = roots.length := by omega
    rw [readRoots.eq_def, if_neg (by omega), done, drop_length]
    unfold countAll
    simp
  | succ left ih =>
    have here : position < roots.length := by omega
    have found : roots[position]? = some roots[position] := getElem?_eq_getElem here
    have small : roots[position] < info.cellCount := inside _ (getElem_mem here)
    have indexSmall : fileIndex info.cellCount roots[position] < info.cellCount := by
      unfold fileIndex
      omega
    have more : position + 1 ≤ roots.length := here
    have later := ih more
      (if info.hasCacheBits then
        countReference counts (fileIndex info.cellCount roots[position]) else counts) (by omega)
    rw [readRoots.eq_def, if_pos (by omega)]
    simp only [stored, ↓reduceIte, read position _ found]
    rw [toInt32_eq (by omega), if_neg (by omega)]
    simp only [Int.toNat_natCast]
    rw [later, Lib.ok_bind, drop_eq_getElem_cons here, map_cons, countAll_cons]

section Offsets

variable (cellOf : α → DataCell) (mode : BocMode) (info : Info) {files : List (CellInfo α)} {entry : CellInfo α}

def endOffset (files : List (CellInfo α)) (index : Nat) : Nat :=
  ((files.take (index + 1)).flatMap (entryBytes cellOf mode info)).length

def fixedOffset (offset : Nat) (entry : CellInfo α) : Nat :=
  if info.hasCacheBits then offset * 2 + entry.shouldCache.toNat else offset

lemma fixedOffsets_getElem?
    (found : files[index]? = some entry) (offs : Nat) : (fixedOffsets cellOf mode info offs files)[index]? =
      some (fixedOffset info (offs + endOffset cellOf mode info files index) entry) := by
  induction files generalizing index offs with
  | nil => simp at found
  | cons first rest ih =>
    cases index with
    | zero =>
      have same : first = entry := by simpa using found
      subst same
      simp [fixedOffsets, fixedOffset, endOffset]
    | succ index =>
      have inRest : rest[index]? = some entry := by simpa using found
      have more : offs + (entryBytes cellOf mode info first).length +
          endOffset cellOf mode info rest index =
            offs + endOffset cellOf mode info (first :: rest) (index + 1) := by
        simp only [endOffset, take_succ_cons, flatMap_cons, length_append]
        omega
      rw [fixedOffsets, getElem?_cons_succ, ih inRest, more]

lemma endOffset_le (files : List (CellInfo α)) (index : Nat) : endOffset cellOf mode info files index ≤
      (files.flatMap (entryBytes cellOf mode info)).length := by
  have split := congrArg List.length (congrArg (List.flatMap (entryBytes cellOf mode info)) (take_append_drop (index + 1) files))
  rw [flatMap_append, length_append] at split
  unfold endOffset
  omega

end Offsets

section Read

variable {sha : Sha256} {cellOf : α → DataCell} {cellList : List (CellInfo α)} {roots : List Nat}
  {mode : BocMode} {info : Info}

variable {entry : CellInfo α} {files : List (CellInfo α)} {table : IndexTable}
variable {idx maxRoots : Nat} {cellCount : Nat}

lemma Layout.init_entry (layout : Layout sha cellOf cellList roots) (mode : BocMode) (info : Info)
    (member : entry ∈ cellList) (rest : List UInt8) :
    CellSerializationInfo.init (entryBytes cellOf mode info entry ++ rest) info.refByteSize =
      .ok ((cellOf entry.dcRef).serializationInfo (withHash mode entry) info.refByteSize) ∧
    ((cellOf entry.dcRef).serializationInfo (withHash mode entry) info.refByteSize).endOffset =
      (entryBytes cellOf mode info entry).length := by
  obtain ⟨idx, found⟩ := mem_iff_getElem?.mp member
  have same := layout.refs_length found
  constructor
  · unfold entryBytes
    rw [append_assoc]
    apply (layout.created entry member).init_serialize
    rw [length_append, Lib.flatMap_length_of_forall _ (indexRecord_length info), same]
    omega
  · rw [DataCell.serializationInfo_endOffset, layout.entryBytes_length mode info member, same]

/-- Without an index the ends of the cells are found by reading their descriptors. -/
lemma Layout.buildCustomIndex_eq (layout : Layout sha cellOf cellList roots)
    (plain : info.hasCacheBits = false) (members : ∀ entry ∈ files, entry ∈ cellList) (index cur : Nat) :
    buildCustomIndex info files.length index cur (files.flatMap (entryBytes cellOf mode info)) =
        .ok (fixedOffsets cellOf mode info cur files) := by
  induction files generalizing index cur with
  | nil => rfl
  | cons entry rest ih =>
    obtain ⟨parsed, ends⟩ := layout.init_entry mode info (members entry (by simp)) (rest.flatMap (entryBytes cellOf mode info))
    have later := ih (forall_mem_cons.mp members).2 (index + 1) (cur + (entryBytes cellOf mode info entry).length)
    rw [length_cons, flatMap_cons, buildCustomIndex, parsed]
    simp only [ends, drop_left, later, Lib.ok_bind, fixedOffsets, plain, Bool.false_eq_true, ↓reduceIte]

structure TableReads (cellOf : α → DataCell) (mode : BocMode) (info : Info)
    (files : List (CellInfo α)) (table : IndexTable) : Prop where
  entry : ∀ (index : Nat) (entry : CellInfo α), files[index]? = some entry →
    table.entry info index = endOffset cellOf mode info files index
  cacheEntry : info.hasCacheBits = true → ∀ (index : Nat) (entry : CellInfo α),
    files[index]? = some entry → table.cacheEntry info index = entry.shouldCache

lemma getCellSlice_eq (reads : TableReads cellOf mode info files table) (found : files[index]? = some entry) :
    getCellSlice info table index (files.flatMap (entryBytes cellOf mode info)) = .ok (entryBytes cellOf mode info entry) := by
  have start : (if index = 0 then 0 else table.entry info (index - 1)) =
      ((files.take index).flatMap (entryBytes cellOf mode info)).length := by
    cases index with
    | zero => rfl
    | succ index =>
      have inside := lt_of_getElem? found
      have before : files[index]? = some files[index] := List.getElem?_eq_getElem (by omega)
      rw [if_neg (by omega), Nat.add_sub_cancel, reads.entry index _ before]
      rfl
  have last : endOffset cellOf mode info files index = _ := Lib.length_flatMap_take_succ files found
  have bound := endOffset_le cellOf mode info files index
  unfold getCellSlice
  simp only [start, reads.entry index entry found]
  rw [if_neg (by omega)]
  unfold substr
  rw [Lib.drop_flatMap_take files found, last, Nat.add_sub_cancel_left, take_left]

def cellsOf (cellOf : α → DataCell) (entries : List (CellInfo α)) : List DataCell :=
  entries.map fun entry => cellOf entry.dcRef

lemma Layout.readRefs_eq (layout : Layout sha cellOf cellList roots) (mode : BocMode)
    (counted : info.cellCount = cellList.length) (few : info.cellCount < 2 ^ 31)
    (fits : info.cellCount < 256 ^ info.refByteSize) (found : cellList[idx]? = some entry)
    (start : position ≤ entry.refIdx.length) (counts : List Nat) :
    readRefs info ((cellOf entry.dcRef).serializationInfo (withHash mode entry) info.refByteSize)
        (entryBytes cellOf mode info entry) (fileIndex info.cellCount idx) (cellsOf cellOf (cellList.take idx)) position counts =
      .ok ((cellOf entry.dcRef).refs.drop position,
        countAll info counts ((entry.refIdx.drop position).map (fileIndex info.cellCount))) := by
  have member := mem_of_getElem? found
  have sameLength := layout.refs_length found
  have inList := lt_of_getElem? found
  have refsCnt : ((cellOf entry.dcRef).serializationInfo (withHash mode entry)
      info.refByteSize).refsCnt = entry.refIdx.length := sameLength
  induction left : entry.refIdx.length - position generalizing position counts with
  | zero =>
    have done : position = entry.refIdx.length := by omega
    rw [readRefs.eq_def, if_neg (by omega), done, drop_length, ← sameLength, drop_length]
    unfold countAll
    simp
  | succ left ih =>
    have here : position < entry.refIdx.length := by omega
    have refFound : entry.refIdx[position]? = some entry.refIdx[position] := getElem?_eq_getElem here
    have before : entry.refIdx[position] < idx := layout.earlier idx entry found _ (getElem_mem here)
    have hereRefs : position < (cellOf entry.dcRef).refs.length := by omega
    have child : (cellsOf cellOf (cellList.take idx))[entry.refIdx[position]]? =
        some (cellOf entry.dcRef).refs[position] := by
      have same := congrArg (fun refs => refs[position]?) (layout.refs idx entry found)
      simp only [getElem?_map, refFound, Option.map_some, getElem?_eq_getElem hereRefs] at same
      unfold cellsOf
      rw [getElem?_map, getElem?_take_of_lt before]
      exact Option.some.inj same
    have stored : readAt (entryBytes cellOf mode info entry)
        (((cellOf entry.dcRef).serializationInfo (withHash mode entry)
          info.refByteSize).refsOffset + position * info.refByteSize) info.refByteSize =
        fileIndex info.cellCount entry.refIdx[position] := by
      have read := readAt_record (indexRecord_length info)
        (((layout.created entry member).serialize_length (withHash mode entry)).trans
          (DataCell.serializationInfo_refsOffset _ _ info.refByteSize).symm) refFound []
      rw [append_nil] at read
      unfold entryBytes
      rw [read]
      apply Lib.readInt_storeUint
      unfold fileIndex
      omega
    have later := ih here
      (if info.hasCacheBits then
        countReference counts (fileIndex info.cellCount entry.refIdx[position]) else counts)
      (by omega)
    have small : fileIndex info.cellCount entry.refIdx[position] < 2 ^ 31 := by
      unfold fileIndex
      omega
    have above : ¬ ((fileIndex info.cellCount entry.refIdx[position] : Nat) : Int) ≤
        (fileIndex info.cellCount idx : Nat) := by
      unfold fileIndex
      omega
    have inside : ¬ ((fileIndex info.cellCount entry.refIdx[position] : Nat) : Int) ≥
        info.cellCount := by
      unfold fileIndex
      omega
    have place : info.cellCount - fileIndex info.cellCount entry.refIdx[position] - 1 =
        entry.refIdx[position] := by
      unfold fileIndex
      omega
    rw [readRefs.eq_def, if_pos (by omega)]
    simp only [stored, toInt32_eq small, Int.toNat_natCast]
    rw [if_neg above, if_neg inside, place, child]
    simp only []
    rw [later, Lib.ok_bind, drop_eq_getElem_cons hereRefs, drop_eq_getElem_cons here, map_cons, countAll_cons]

lemma reverse_getElem? {cellList : List (CellInfo α)} (found : cellList[idx]? = some entry) :
    cellList.reverse[fileIndex cellList.length idx]? = some entry := by
  have inside := lt_of_getElem? found
  unfold fileIndex
  rw [getElem?_reverse (by omega), ← found]
  congr 1
  omega

section

variable (layout : Layout sha cellOf cellList roots) (counted : info.cellCount = cellList.length)
variable (few : info.cellCount < 2 ^ 31) (fits : info.cellCount < 256 ^ info.refByteSize)
include layout counted few fits

lemma Layout.deserializeCell_eq
    (reads : TableReads cellOf mode info cellList.reverse table) (found : cellList[idx]? = some entry) (counts : List Nat) :
    deserializeCell sha info table (fileIndex info.cellCount idx) (cellList.reverse.flatMap (entryBytes cellOf mode info))
        (cellsOf cellOf (cellList.take idx)) counts = .ok (cellOf entry.dcRef,
        countAll info counts (entry.refIdx.map (fileIndex info.cellCount))) := by
  have member := mem_of_getElem? found
  have inFile : cellList.reverse[fileIndex info.cellCount idx]? = some entry := by
    rw [counted]
    exact reverse_getElem? found
  obtain ⟨parsed, ends⟩ := layout.init_entry mode info member []
  rw [append_nil] at parsed
  have refs := layout.readRefs_eq mode counted few fits found (zero_le _) counts
  rw [drop_zero, drop_zero] at refs
  unfold deserializeCell
  rw [getCellSlice_eq reads inFile, Lib.ok_bind, parsed, Lib.ok_bind, ends]
  simp only [ne_eq, not_true_eq_false, ↓reduceIte]
  rw [refs, Lib.ok_bind]
  have made := (layout.created entry member).createDataCell (withHash mode entry)
    info.refByteSize (entry.refIdx.flatMap (indexRecord info))
  unfold entryBytes
  simp only [made, Lib.ok_bind]

/-- The induction is on the number of cells still to be read; the cells read so far are the first
of the list. -/
lemma Layout.deserializeCells_eq (reads : TableReads cellOf mode info cellList.reverse table) {left : Nat}
    (parts : left + idx = cellList.length) (counts : List Nat) :
    deserializeCells sha info table (cellList.reverse.flatMap (entryBytes cellOf mode info)) left
        (cellsOf cellOf (cellList.take idx)) counts = .ok (cellsOf cellOf cellList, countAll info counts
        (((cellList.drop idx).flatMap CellInfo.refIdx).map (fileIndex info.cellCount))) := by
  induction left generalizing idx counts with
  | zero =>
    have all : idx = cellList.length := by omega
    rw [all, take_length, drop_length]
    unfold countAll
    simp [deserializeCells]
  | succ left ih =>
    have here : idx < cellList.length := by omega
    have found : cellList[idx]? = some cellList[idx] := getElem?_eq_getElem here
    have index : left = fileIndex info.cellCount idx := by
      unfold fileIndex
      omega
    have cell := layout.deserializeCell_eq counted few fits reads found counts
    have next : cellsOf cellOf (cellList.take idx) ++ [cellOf cellList[idx].dcRef] =
        cellsOf cellOf (cellList.take (idx + 1)) := by
      unfold cellsOf
      rw [take_add_one, found, map_append]
      rfl
    rw [← index] at cell
    rw [deserializeCells, cell]
    simp only []
    rw [next, ih (by omega), countAll_append, drop_eq_getElem_cons here, flatMap_cons, map_append]

end

lemma fileIndex_fileIndex (inside : index < cellCount) : fileIndex cellCount (fileIndex cellCount index) = index := by
  unfold fileIndex
  omega

lemma count_map_fileIndex (inside : index < cellCount) {refs : List Nat} (refsInside : ∀ ref ∈ refs, ref < cellCount) :
    (refs.map (fileIndex cellCount)).count index = refs.count (fileIndex cellCount index) := by
  unfold List.count
  rw [countP_map]
  apply countP_congr
  intro ref member
  have refInside := refsInside ref member
  simp only [Function.comp_apply, beq_iff_eq]
  unfold fileIndex
  omega

lemma Layout.refs_inside (layout : Layout sha cellOf cellList roots) :
    ∀ ref ∈ roots ++ cellList.flatMap CellInfo.refIdx, ref < cellList.length := by
  intro ref member
  rcases mem_append.mp member with root | inner
  · exact layout.roots_lt ref root
  · obtain ⟨entry, entryMember, refMember⟩ := mem_flatMap.mp inner
    obtain ⟨idx, found⟩ := mem_iff_getElem?.mp entryMember
    have idxInside := lt_of_getElem? found
    exact lt_trans (layout.earlier idx entry found ref refMember) idxInside

lemma Layout.checkCacheFlags_eq (layout : Layout sha cellOf cellList roots)
    (counted : info.cellCount = cellList.length) (cached : info.hasCacheBits = true)
    (reads : TableReads cellOf mode info cellList.reverse table)
    (countsEq : counts = ((roots ++ cellList.flatMap CellInfo.refIdx).map (fileIndex
      info.cellCount)).foldl countReference (List.replicate info.cellCount 0))
    {indices : List Nat} (inside : ∀ index ∈ indices, index < cellList.length) :
    checkCacheFlags info table counts indices = .ok () := by
  induction indices with
  | nil => rfl
  | cons index rest ih =>
    have here := inside index (by simp)
    have back : fileIndex cellList.length (fileIndex cellList.length index) = index := fileIndex_fileIndex here
    obtain ⟨entry, found⟩ : ∃ entry, cellList[fileIndex cellList.length index]? = some entry :=
      ⟨_, getElem?_eq_getElem (by unfold fileIndex; omega)⟩
    have inFile : cellList.reverse[index]? = some entry := by
      have there := reverse_getElem? found
      rwa [back] at there
    have count : counts.getD index 0 =
        min 2 ((roots ++ cellList.flatMap CellInfo.refIdx).count
          (fileIndex cellList.length index)) := by
      rw [countsEq, foldl_countReference_getD]
      · rw [counted, count_map_fileIndex here layout.refs_inside]
        simp
      · intro ref member
        obtain ⟨old, oldMember, rfl⟩ := mem_map.mp member
        have oldInside := layout.refs_inside old oldMember
        rw [length_replicate]
        unfold fileIndex
        omega
      · simp
    have flag : decide (counts.getD index 0 > 1) = entry.shouldCache := by
      rw [layout.cache _ entry found, count]
      apply decide_eq_decide.mpr
      omega
    rw [checkCacheFlags, reads.cacheEntry cached index entry inFile, flag]
    simp only [ne_eq, not_true_eq_false, ↓reduceIte]
    exact ih (forall_mem_cons.mp inside).2

lemma storeUint_four (value : Nat) :
    Lib.storeUint value 4 = [UInt8.ofNat (value / 256 / 256 / 256), UInt8.ofNat (value / 256 / 256),
      UInt8.ofNat (value / 256), UInt8.ofNat value] := by
  simp [Lib.storeUint]

private lemma drop_byte {high low : Nat} (small : low < 256) : (high * 256 + low) / 256 = high := by
  omega

private lemma bswap32_word {b₃ b₂ b₁ b₀ : Nat} (small₃ : b₃ < 256) (small₂ : b₂ < 256) (small₁ : b₁ < 256) (small₀ : b₀ < 256) :
    bswap32 (((b₃ * 256 + b₂) * 256 + b₁) * 256 + b₀) = ((b₀ * 256 + b₁) * 256 + b₂) * 256 + b₃ := by
  unfold bswap32
  rw [drop_byte small₀, drop_byte small₁, drop_byte small₂]
  simp only [mul_add_mod_self_right, mod_eq_of_lt small₃, mod_eq_of_lt small₂, mod_eq_of_lt small₁, mod_eq_of_lt small₀]

lemma readInt_bswap32 {value : Nat} (small : value < 256 ^ 4) :
    Lib.readInt (Lib.storeUint (bswap32 value) 4).reverse = value := by
  have low : ∀ number : Nat, (UInt8.ofNat number).toNat = number % 256 := fun number => UInt8.toNat_ofNat'
  have top : value / 256 / 256 / 256 < 256 := by
    rw [Nat.div_div_eq_div_mul, Nat.div_div_eq_div_mul]
    exact Nat.div_lt_of_lt_mul small
  have horner : value = ((value / 256 / 256 / 256 * 256 + value / 256 / 256 % 256) * 256 +
      value / 256 % 256) * 256 + value % 256 := by
    omega
  obtain ⟨b₃, small₃, top⟩ : ∃ b₃, b₃ < 256 ∧ b₃ = value / 256 / 256 / 256 := ⟨_, top, rfl⟩
  obtain ⟨b₂, small₂, second⟩ : ∃ b₂, b₂ < 256 ∧ b₂ = value / 256 / 256 % 256 := ⟨_, mod_lt _ (by decide), rfl⟩
  obtain ⟨b₁, small₁, third⟩ : ∃ b₁, b₁ < 256 ∧ b₁ = value / 256 % 256 := ⟨_, mod_lt _ (by decide), rfl⟩
  obtain ⟨b₀, small₀, last⟩ : ∃ b₀, b₀ < 256 ∧ b₀ = value % 256 := ⟨_, mod_lt _ (by decide), rfl⟩
  rw [← top, ← second, ← third, ← last] at horner
  clear top second third last small
  subst horner
  rw [bswap32_word small₃ small₂ small₁ small₀, storeUint_four, drop_byte small₃, drop_byte small₂, drop_byte small₁]
  simp only [Lib.readInt, reverse_cons, reverse_nil, nil_append, cons_append, foldl_cons, foldl_nil, low, mul_add_mod_self_right,
    mod_eq_of_lt small₃, mod_eq_of_lt small₂, mod_eq_of_lt small₁, Nat.mod_eq_of_lt small₀, Nat.zero_mul, Nat.zero_add]

lemma checkCrc_storeCrc (crc32c : List UInt8 → UInt32) (info : Info) (bytes : List UInt8) :
    checkCrc crc32c info (storeCrc crc32c info bytes) = .ok () := by
  unfold checkCrc storeCrc
  cases stored : info.hasCrc32c with
  | false => rfl
  | true =>
    have four : (Lib.storeUint (bswap32 (crc32c bytes).toNat) 4).length = 4 := Lib.storeUint_length _ _
    have start : (bytes ++ Lib.storeUint (bswap32 (crc32c bytes).toNat) 4).length - 4 =
        bytes.length := by
      rw [length_append, four]
      omega
    have found : storedCrc (bytes ++ Lib.storeUint (bswap32 (crc32c bytes).toNat) 4) =
        (crc32c bytes).toNat := by
      unfold storedCrc
      rw [start, drop_left]
      exact readInt_bswap32 (UInt32.toNat_lt _)
    simp only [↓reduceIte, start, take_left, found, Bool.true_and, bne_self_eq_false, Bool.false_eq_true]

variable {rs os dataSize : Nat} {rootCells : List DataCell} {crc32c : List UInt8 → UInt32} {result : List DataCell}

lemma storeCrc_bagBytes (crc32c : List UInt8 → UInt32) :
    ∃ after, storeCrc crc32c info (bagBytes cellOf mode info cellList roots) =
      storeHeader info ++ (roots.flatMap (indexRecord info) ++ ((if info.hasIndex then
          (fixedOffsets cellOf mode info 0 cellList.reverse).flatMap (offsetRecord info) else []) ++
          (cellList.reverse.flatMap (entryBytes cellOf mode info) ++ after))) := by
  unfold storeCrc bagBytes
  split
  · exact ⟨_, by simp only [append_assoc]; rfl⟩
  · exact ⟨[], by simp⟩

section

variable (layout : Layout sha cellOf cellList roots)
include layout

lemma Layout.sum_le (mode : BocMode) (narrow : rs ≤ 4) :
    (cellList.map fun entry => (cellOf entry.dcRef).getSerializedSize (withHash mode entry) +
      entry.refIdx.length * rs).sum ≤ cellList.length * 282 := by
  have each : ∀ entry ∈ cellList,
      (cellOf entry.dcRef).getSerializedSize (withHash mode entry) +
        entry.refIdx.length * rs ≤ 282 := by
    intro entry member
    obtain ⟨idx, found⟩ := mem_iff_getElem?.mp member
    have small := (layout.created entry member).getSerializedSize_le (withHash mode entry)
    have few := (layout.created entry member).refs_length_le
    rw [layout.refs_length found] at few
    have refs : entry.refIdx.length * rs ≤ 4 * 4 := Nat.mul_le_mul few narrow
    have limit : Cell.maxSerializedBytes = 266 := rfl
    omega
  have total := sum_le_card_nsmul (cellList.map fun entry =>
    (cellOf entry.dcRef).getSerializedSize (withHash mode entry) + entry.refIdx.length * rs) 282
    (by
      intro size member
      obtain ⟨entry, entryMember, rfl⟩ := mem_map.mp member
      exact each entry entryMember)
  simpa using total

/-- An offset fits its field, also when it is doubled to make place for the cache flag. -/
lemma Layout.fixedOffset_lt
    (fits : HeaderFits cellOf mode cellList roots info rs os dataSize) (index : Nat) (entry : CellInfo α) :
    fixedOffset info (endOffset cellOf mode info cellList.reverse index) entry < 256 ^ info.offsetByteSize := by
  have width : info.offsetByteSize = os := by rw [fits.info_eq]; rfl
  have cached : info.hasCacheBits = mode.withCacheBits := by rw [fits.info_eq]; rfl
  have below := endOffset_le cellOf mode info cellList.reverse index
  rw [layout.data_length fits] at below
  have size := fits.size_lt
  have even : 2 ∣ 256 ^ os := dvd_trans (by decide) (dvd_pow_self 256 (one_le_iff_ne_zero.mp fits.os_pos))
  have flag := Bool.toNat_le entry.shouldCache
  unfold fixedOffset
  rw [width, cached]
  split <;> rename_i cache
  · rw [if_pos cache] at size
    omega
  · rw [if_neg cache] at size
    omega

end

lemma fixedOffset_entry (info : Info) (offset : Nat) (entry : CellInfo α) :
    (if info.hasCacheBits then fixedOffset info offset entry / 2 else fixedOffset info offset entry) = offset := by
  have flag := Bool.toNat_le entry.shouldCache
  unfold fixedOffset
  split
  · omega
  · rfl

lemma fixedOffset_cacheEntry (cached : info.hasCacheBits = true) (offset : Nat)
    (entry : CellInfo α) : (fixedOffset info offset entry % 2 == 1) = entry.shouldCache := by
  unfold fixedOffset
  rw [if_pos cached]
  cases entry.shouldCache <;> simp

lemma tableReads_of_entryRaw (cacheIndex : info.hasCacheBits = true → info.hasIndex = true)
    (raw : ∀ (index : Nat) (entry : CellInfo α), files[index]? = some entry →
      table.entryRaw info index = fixedOffset info (endOffset cellOf mode info files index) entry) :
    TableReads cellOf mode info files table where
  entry := by
    intro index entry found
    unfold IndexTable.entry
    rw [raw index entry found]
    exact fixedOffset_entry info _ entry
  cacheEntry := by
    intro cached index entry found
    unfold IndexTable.cacheEntry
    rw [raw index entry found, cached, cacheIndex cached, fixedOffset_cacheEntry cached]
    rfl

section

variable (layout : Layout sha cellOf cellList roots) (fits : HeaderFits cellOf mode cellList roots info rs os dataSize)
include layout fits

lemma HeaderFits.data_substr (crc32c : List UInt8 → UInt32) :
    substr (storeCrc crc32c info (bagBytes cellOf mode info cellList roots)) info.dataOffset
        info.dataSize = cellList.reverse.flatMap (entryBytes cellOf mode info) := by
  obtain ⟨after, bytes⟩ := @storeCrc_bagBytes _ cellOf cellList roots mode info crc32c
  have whole := layout.bagBytes_length fits
  have data := layout.data_length fits
  have size : info.dataSize = dataSize := by rw [fits.info_eq]; rfl
  have start : info.dataOffset = (storeHeader info ++ (roots.flatMap (indexRecord info) ++
      if info.hasIndex then
        (fixedOffsets cellOf mode info 0 cellList.reverse).flatMap (offsetRecord info)
      else [])).length := by
    unfold bagBytes at whole
    simp only [length_append, data] at whole ⊢
    omega
  rw [bytes, ← append_assoc (roots.flatMap _), ← append_assoc (storeHeader info)]
  unfold substr
  rw [start, drop_left, size, ← data, take_left]

lemma Layout.readIndex_eq (crc32c : List UInt8 → UInt32) :
    ∃ table, readIndex info (storeCrc crc32c info (bagBytes cellOf mode info cellList roots)) =
        .ok table ∧ TableReads cellOf mode info cellList.reverse table := by
  have counted : info.cellCount = cellList.length := by rw [fits.info_eq]; rfl
  have cacheIndex : info.hasCacheBits = true → info.hasIndex = true := by
    rw [fits.info_eq]
    exact fits.cache_index
  unfold readIndex
  rw [fits.data_substr layout]
  cases indexed : info.hasIndex with
  | true =>
    refine ⟨_, rfl, tableReads_of_entryRaw cacheIndex ?_⟩
    intro index entry found
    have inside := lt_of_getElem? found
    rw [length_reverse] at inside
    obtain ⟨after, bytes⟩ := @storeCrc_bagBytes _ cellOf cellList roots mode info crc32c
    have start : (storeHeader info ++ roots.flatMap (indexRecord info)).length =
        info.indexOffset := by
      rw [length_append, storeHeader_length, Lib.flatMap_length_of_forall _ (indexRecord_length info), fits.info_eq]
      rfl
    have offset := fixedOffsets_getElem? cellOf mode info found 0
    rw [zero_add] at offset
    have read := readAt_record (offsetRecord_length info) start offset
      (cellList.reverse.flatMap (entryBytes cellOf mode info) ++ after)
    unfold IndexTable.entryRaw
    rw [if_pos indexed, if_pos (by omega), bytes, if_pos indexed, ← append_assoc, read]
    exact Lib.readInt_storeUint (layout.fixedOffset_lt fits index entry)
  | false =>
    have plain : info.hasCacheBits = false := by
      cases cached : info.hasCacheBits with
      | false => rfl
      | true => rw [cacheIndex cached] at indexed; exact absurd indexed (by decide)
    have ends := @layout.buildCustomIndex_eq _ _ _ _ _ mode info cellList.reverse plain
      (fun _ member => mem_reverse.mp member) 0 0
    rw [length_reverse, ← counted] at ends
    rw [ends, Lib.ok_bind]
    refine ⟨_, rfl, tableReads_of_entryRaw cacheIndex ?_⟩
    intro index entry found
    unfold IndexTable.entryRaw
    rw [indexed]
    simp only [Bool.false_eq_true, ↓reduceIte]
    rw [getD_eq_getElem?_getD, fixedOffsets_getElem? cellOf mode info found 0, zero_add, Option.getD_some]

lemma Layout.roots_eq (few : info.cellCount < 2 ^ 31) (crc32c : List UInt8 → UInt32) (counts : List Nat) :
    readRoots info (storeCrc crc32c info (bagBytes cellOf mode info cellList roots)) 0 counts =
      .ok (roots.map (fileIndex info.cellCount), countAll info counts (roots.map (fileIndex info.cellCount))) := by
  have counted : info.cellCount = cellList.length := by rw [fits.info_eq]; rfl
  have rootCount : info.rootCount = roots.length := by rw [fits.info_eq]; rfl
  have stored : info.hasRoots = true := by rw [fits.info_eq]; rfl
  have width : info.refByteSize = rs := by rw [fits.info_eq]; rfl
  have start : (storeHeader info).length = info.rootsOffset := by
    rw [storeHeader_length, fits.info_eq]
    rfl
  obtain ⟨after, bytes⟩ := @storeCrc_bagBytes _ cellOf cellList roots mode info crc32c
  have read : ∀ (position root : Nat), roots[position]? = some root →
      readAt (storeCrc crc32c info (bagBytes cellOf mode info cellList roots))
        (info.rootsOffset + position * info.refByteSize) info.refByteSize =
          fileIndex info.cellCount root := by
    intro position root found
    rw [bytes, readAt_record (indexRecord_length info) start found]
    apply Lib.readInt_storeUint
    have small := fits.cells_lt
    have positive := fits.cells_pos
    unfold fileIndex
    rw [counted, width]
    omega
  have inside : ∀ root ∈ roots, root < info.cellCount := by
    rw [counted]
    exact layout.roots_lt
  exact readRoots_eq rootCount stored few inside read (zero_le _) counts

end

lemma mapM_rootAt (counted : info.cellCount = cellList.length) (inside : ∀ root ∈ roots, root < cellList.length)
    (same : roots.map (fun root => cellList[root]?.map fun entry => cellOf entry.dcRef) = rootCells.map some) :
    (roots.map (fileIndex info.cellCount)).mapM (rootAt info (cellsOf cellOf cellList)) = .ok rootCells := by
  induction roots generalizing rootCells with
  | nil =>
    cases rootCells with
    | nil => rfl
    | cons => simp at same
  | cons root rest ih =>
    cases rootCells with
    | nil => simp at same
    | cons rootCell restCells =>
      simp only [map_cons, List.cons.injEq] at same
      obtain ⟨head, tail⟩ := same
      have here := inside root (by simp)
      have place : info.cellCount - fileIndex info.cellCount root - 1 = root := by
        unfold fileIndex
        omega
      have found : rootAt info (cellsOf cellOf cellList) (fileIndex info.cellCount root) =
          .ok rootCell := by
        unfold rootAt cellsOf
        rw [place, getElem?_map, head]
      rw [map_cons, mapM_cons, found, Lib.ok_bind, ih (forall_mem_cons.mp inside).2 tail]
      rfl

/-- What the reader checks in the header of a layout beyond what the writer ensures. -/
structure HeaderAccepted (cellCount rootCount rs dataSize : Nat) : Prop where
  cells_lt : cellCount < 2 ^ 31
  roots_lt : rootCount < 256 ^ rs
  size_ge : cellCount * (2 + rs) - rs ≤ dataSize

section

variable (layout : Layout sha cellOf cellList roots) (fits : HeaderFits cellOf mode cellList roots info rs os dataSize)
include layout fits

lemma Layout.parse_written (fewRoots : roots.length < 2 ^ 31) (crc32c : List UInt8 → UInt32) :
    parseSerializedHeader (storeCrc crc32c info (bagBytes cellOf mode info cellList roots)) =
      if cellList.length < 2 ^ 31 ∧ 0 < roots.length % 256 ^ rs ∧ cellList.length * (2 + rs) - rs ≤ dataSize then
        .ok (makeInfo mode cellList.length (roots.length % 256 ^ rs) rs os dataSize) else .error 0 := by
  obtain ⟨after, bytes⟩ := @storeCrc_bagBytes _ cellOf cellList roots mode info crc32c
  have size : dataSize < 256 ^ os := by
    have stored := fits.size_lt
    split at stored <;> omega
  have limit := layout.sum_le mode fits.rs_le
  rw [← fits.size_eq] at limit
  rw [bytes, fits.info_eq, parse_makeInfo fits.rs_pos fits.rs_le fits.os_pos fits.os_le
    fits.cells_lt fits.cells_pos fewRoots size fits.cache_index]
  congr 1
  apply propext
  constructor
  · intro accepted
    exact ⟨accepted.1, accepted.2.1, accepted.2.2.2.2⟩
  · intro accepted
    obtain ⟨few, someRoot, enough⟩ := accepted
    have perCell : dataSize ≤ cellList.length * 2 ^ 10 := le_trans limit (mul_le_mul_left _ (by decide))
    have overall : dataSize ≤ 2 ^ 40 := by
      calc dataSize ≤ cellList.length * 282 := limit
        _ ≤ 2 ^ 31 * 282 := mul_le_mul_right _ (le_of_lt few)
        _ ≤ 2 ^ 40 := by decide
    exact ⟨few, someRoot, perCell, overall, enough⟩

lemma Layout.deserialize_eq (accepted : HeaderAccepted cellList.length roots.length rs dataSize)
    (fewRoots : roots.length < 2 ^ 31) (allowed : roots.length ≤ maxRoots)
    (same : roots.map (fun root => cellList[root]?.map fun entry => cellOf entry.dcRef) = rootCells.map some)
    (crc32c : List UInt8 → UInt32) : deserialize sha crc32c (storeCrc crc32c info (bagBytes cellOf mode info cellList roots))
      maxRoots = .ok rootCells := by
  have counted : info.cellCount = cellList.length := by rw [fits.info_eq]; rfl
  have width : info.refByteSize = rs := by rw [fits.info_eq]; rfl
  have few : info.cellCount < 2 ^ 31 := by
    rw [counted]
    exact accepted.cells_lt
  have indices : info.cellCount < 256 ^ info.refByteSize := by
    rw [counted, width]
    exact fits.cells_lt
  have parsed := layout.parse_written fits fewRoots crc32c
  have rootMod : roots.length % 256 ^ rs = roots.length := mod_eq_of_lt accepted.roots_lt
  rw [rootMod, if_pos ⟨accepted.cells_lt, fits.roots_pos, accepted.size_ge⟩, ← fits.info_eq] at parsed
  have total : info.totalSize =
      (storeCrc crc32c info (bagBytes cellOf mode info cellList roots)).length := by
    rw [crc_length, layout.bagBytes_length fits, fits.info_eq]
    rfl
  have header : readHeader (storeCrc crc32c info (bagBytes cellOf mode info cellList roots))
      maxRoots = .ok info := by
    have rootCount : info.rootCount = roots.length := by rw [fits.info_eq]; rfl
    unfold readHeader
    rw [parsed]
    simp only []
    rw [if_neg (by omega), if_neg (by omega)]
  obtain ⟨table, index, reads⟩ := layout.readIndex_eq fits crc32c
  have cells := layout.deserializeCells_eq counted few indices reads (add_zero _)
    (countAll info (List.replicate info.cellCount 0) (roots.map (fileIndex info.cellCount)))
  rw [countAll_append, drop_zero, ← map_append, ← counted] at cells
  have rootsRead := mapM_rootAt counted layout.roots_lt same
  unfold deserialize
  rw [header, Lib.ok_bind, checkCrc_storeCrc, Lib.ok_bind, layout.roots_eq fits few, Lib.ok_bind]
  simp only []
  rw [index, Lib.ok_bind, fits.data_substr layout]
  simp only [take_zero, cellsOf, map_nil] at cells
  rw [cells, Lib.ok_bind]
  cases cached : info.hasCacheBits with
  | false => exact rootsRead
  | true =>
    have counts : countAll info (List.replicate info.cellCount 0)
        ((roots ++ cellList.flatMap CellInfo.refIdx).map (fileIndex info.cellCount)) =
          ((roots ++ cellList.flatMap CellInfo.refIdx).map
            (fileIndex info.cellCount)).foldl countReference
              (List.replicate info.cellCount 0) := by
      unfold countAll
      rw [if_pos cached]
    have inside : ∀ index ∈ List.range info.cellCount, index < cellList.length := by
      intro index member
      rw [← counted]
      exact mem_range.mp member
    rw [layout.checkCacheFlags_eq counted cached reads counts inside]
    exact rootsRead

end

lemma readRoots_length {counts counted indices : List Nat}
    (read : readRoots info data position counts = .ok (indices, counted)) : indices.length = info.rootCount - position := by
  induction left : info.rootCount - position generalizing position counts indices with
  | zero =>
    rw [readRoots.eq_def, if_neg (by omega)] at read
    cases read
    rfl
  | succ left ih =>
    rw [readRoots.eq_def, if_pos (by omega)] at read
    simp only [] at read
    generalize (if info.hasRoots then toInt32 (readAt data
      (info.rootsOffset + position * info.refByteSize) info.refByteSize) else 0) = idx at read
    split at read
    · cases read
    · obtain ⟨⟨rest, final⟩, restRead, returned⟩ := Lib.bind_eq_ok.mp read
      cases returned
      rw [length_cons, ih restRead (by omega)]

lemma deserialize_length (read : deserialize sha crc32c data maxRoots = .ok result) :
    ∃ parsed, parseSerializedHeader data = .ok parsed ∧ result.length = parsed.rootCount := by
  obtain ⟨parsed, header, read⟩ := Lib.bind_eq_ok.mp read
  obtain ⟨_, _, read⟩ := Lib.bind_eq_ok.mp read
  obtain ⟨⟨indices, counts⟩, rootsRead, read⟩ := Lib.bind_eq_ok.mp read
  obtain ⟨table, _, read⟩ := Lib.bind_eq_ok.mp read
  obtain ⟨⟨cells, counted⟩, _, read⟩ := Lib.bind_eq_ok.mp read
  have mapped : indices.mapM (rootAt parsed cells) = .ok result := by
    simp only [] at read
    split at read
    · obtain ⟨_, _, mapped⟩ := Lib.bind_eq_ok.mp read
      exact mapped
    · exact read
  have length : result.length = parsed.rootCount := by
    rw [Lib.mapM_ok_length mapped, readRoots_length rootsRead, Nat.sub_zero]
  unfold readHeader at header
  split at header
  · split at header <;> cases header
  next info parses =>
    split at header
    · cases header
    · split at header
      · cases header
      · cases header
        exact ⟨_, parses, length⟩

lemma Layout.accepted_of_deserialize (layout : Layout sha cellOf cellList roots)
    (fits : HeaderFits cellOf mode cellList roots info rs os dataSize) (fewRoots : roots.length < 2 ^ 31)
    (read : deserialize sha crc32c (storeCrc crc32c info (bagBytes cellOf mode info cellList roots)) maxRoots = .ok result)
    (length : result.length = roots.length) : HeaderAccepted cellList.length roots.length rs dataSize := by
  obtain ⟨parsed, parses, sameLength⟩ := deserialize_length read
  rw [layout.parse_written fits fewRoots] at parses
  split at parses
  next accepted =>
    cases parses
    have counted : result.length = roots.length % 256 ^ rs := sameLength
    rw [length] at counted
    have rootsLt : roots.length < 256 ^ rs := by
      rw [counted]
      exact Nat.mod_lt _ (Nat.pow_pos (by decide))
    exact ⟨accepted.1, rootsLt, accepted.2.2⟩
  · cases parses

end Read

end TonNode.Vm.Boc
