import TonNode.Vm.BocCellCodec

/-!
# Layouts of bags of cells

A layout lists cells so that each refers only to cells before it. What is written for a layout is a
header, the roots, the offsets at which the cells end, and the cells in reverse order. The parser
accepts the header when its numbers fit the bytes they are given and when there are enough data bytes
for the number of cells.
-/

namespace TonNode.Vm.Boc

open List Nat

variable {α : Type}

/-- A list of cells that can be written: `cellOf` is the cell an entry stands for. -/
structure Layout (sha : Sha256) (cellOf : α → DataCell) (cellList : List (CellInfo α))
    (roots : List Nat) : Prop where
  created : ∀ entry ∈ cellList, (cellOf entry.dcRef).Created sha
  refs : ∀ (idx : Nat) (entry : CellInfo α), cellList[idx]? = some entry →
    entry.refIdx.map (fun ref => cellList[ref]?.map fun child => cellOf child.dcRef) = (cellOf entry.dcRef).refs.map some
  earlier : ∀ (idx : Nat) (entry : CellInfo α), cellList[idx]? = some entry → ∀ ref ∈ entry.refIdx, ref < idx
  roots_lt : ∀ root ∈ roots, root < cellList.length
  cache : ∀ (idx : Nat) (entry : CellInfo α), cellList[idx]? = some entry →
    entry.shouldCache = decide (2 ≤ (roots ++ cellList.flatMap CellInfo.refIdx).count idx)

structure HeaderFits (cellOf : α → DataCell) (mode : BocMode) (cellList : List (CellInfo α))
    (roots : List Nat) (info : Info) (rs os dataSize : Nat) : Prop where
  info_eq : info = makeInfo mode cellList.length roots.length rs os dataSize
  rs_pos : 1 ≤ rs
  rs_le : rs ≤ 4
  os_pos : 1 ≤ os
  os_le : os ≤ 8
  cells_pos : 1 ≤ cellList.length
  cells_lt : cellList.length < 256 ^ rs
  roots_pos : 1 ≤ roots.length
  size_lt : (if mode.withCacheBits then dataSize * 2 else dataSize) < 256 ^ os
  size_eq : dataSize = (cellList.map fun entry =>
    (cellOf entry.dcRef).getSerializedSize (withHash mode entry) + entry.refIdx.length * rs).sum
  cache_index : mode.withCacheBits = true → mode.withIndex = true

section Written

variable (cellOf : α → DataCell) (mode : BocMode) (info : Info)

def indexRecord (idx : Nat) : List UInt8 :=
  Lib.storeUint (fileIndex info.cellCount idx) info.refByteSize

def entryBytes (entry : CellInfo α) : List UInt8 :=
  (cellOf entry.dcRef).serialize (withHash mode entry) ++ entry.refIdx.flatMap (indexRecord info)

/-- The offsets in the index, where the first of the entries starts at `offs`. -/
def fixedOffsets : Nat → List (CellInfo α) → List Nat
  | _, [] => []
  | offs, entry :: rest =>
    let offs := offs + (entryBytes cellOf mode info entry).length
    (if info.hasCacheBits then offs * 2 + entry.shouldCache.toNat else offs) :: fixedOffsets offs rest

def offsetRecord (offset : Nat) : List UInt8 := Lib.storeUint offset info.offsetByteSize

def bagBytes (cellList : List (CellInfo α)) (roots : List Nat) : List UInt8 :=
  storeHeader info ++ (roots.flatMap (indexRecord info) ++
    ((if info.hasIndex then
      (fixedOffsets cellOf mode info 0 cellList.reverse).flatMap (offsetRecord info) else []) ++
      cellList.reverse.flatMap (entryBytes cellOf mode info)))

end Written

@[simp] lemma indexRecord_length (info : Info) (idx : Nat) : (indexRecord info idx).length = info.refByteSize :=
  Lib.storeUint_length _ _

@[simp] lemma offsetRecord_length (info : Info) (offset : Nat) : (offsetRecord info offset).length = info.offsetByteSize :=
  Lib.storeUint_length _ _

variable {sha : Sha256} {cellOf : α → DataCell} {cellList : List (CellInfo α)} {roots : List Nat}
variable {entry : CellInfo α} {mode : BocMode} {info : Info} {rs os dataSize : Nat} {cellSize : CellInfo α → Bool → Nat}

lemma Layout.refs_length (layout : Layout sha cellOf cellList roots) {idx : Nat} (found : cellList[idx]? = some entry) :
    (cellOf entry.dcRef).refs.length = entry.refIdx.length := by
  have same := congrArg List.length (layout.refs idx entry found)
  simpa using same.symm

lemma Layout.entryBytes_length (layout : Layout sha cellOf cellList roots) (mode : BocMode)
    (info : Info) (member : entry ∈ cellList) : (entryBytes cellOf mode info entry).length =
      (cellOf entry.dcRef).getSerializedSize (withHash mode entry) + entry.refIdx.length * info.refByteSize := by
  unfold entryBytes
  rw [length_append, (layout.created entry member).serialize_length, Lib.flatMap_length_of_forall _ (indexRecord_length info)]

lemma storeRoots_eq (info : Info) (inside : ∀ root ∈ roots, root < info.cellCount) :
    storeRoots info roots = .ok (roots.flatMap (indexRecord info)) := by
  induction roots with
  | nil => rfl
  | cons root rest ih =>
    have here : root < info.cellCount := inside root (by simp)
    have later := ih (forall_mem_cons.mp inside).2
    simp [storeRoots, check, here, later, indexRecord]

lemma storeRefs_eq (info : Info) {index : Nat} {refIdx : List Nat}
    (inside : ∀ ref ∈ refIdx, index < fileIndex info.cellCount ref ∧ ref < info.cellCount) :
    storeRefs info index refIdx = .ok (refIdx.flatMap (indexRecord info)) := by
  induction refIdx with
  | nil => rfl
  | cons ref rest ih =>
    obtain ⟨above, here⟩ := inside ref (by simp)
    have later := ih (forall_mem_cons.mp inside).2
    simp [storeRefs, check, above, here, later, indexRecord]

lemma storeIndex_eq {entries : List (CellInfo α)}
    (sized : ∀ entry ∈ entries, cellSize entry (withHash mode entry) + entry.refIdx.length *
      info.refByteSize = (entryBytes cellOf mode info entry).length) (offs : Nat) : storeIndex mode info cellSize offs entries =
      ((fixedOffsets cellOf mode info offs entries).flatMap (offsetRecord info),
        offs + (entries.flatMap (entryBytes cellOf mode info)).length) := by
  induction entries generalizing offs with
  | nil => rfl
  | cons entry rest ih =>
    have here := sized entry (by simp)
    have later := ih (forall_mem_cons.mp sized).2
    have start : offs + cellSize entry (withHash mode entry) + entry.refIdx.length * info.refByteSize =
          offs + (entryBytes cellOf mode info entry).length := by omega
    simp only [storeIndex, start, later, fixedOffsets, flatMap_cons, length_append, offsetRecord, Nat.add_assoc]

lemma reverse_take_succ {count : Nat} (found : cellList[count]? = some entry) :
    (cellList.take (count + 1)).reverse = entry :: (cellList.take count).reverse := by
  rw [take_add_one, found]
  simp

/-- The induction is on the number of cells still to be written, the first of the list last. -/
lemma Layout.storeCells_eq (layout : Layout sha cellOf cellList roots)
    {load : CellInfo α → Except BocError DataCell} (counted : info.cellCount = cellList.length)
    (loads : ∀ entry ∈ cellList, load entry = .ok (cellOf entry.dcRef)) {count : Nat} (few : count ≤ cellList.length) :
    storeCells mode info load (cellList.length - count) (cellList.take count).reverse =
      .ok ((cellList.take count).reverse.flatMap (entryBytes cellOf mode info)) := by
  induction count with
  | zero => rfl
  | succ count ih =>
    have found : cellList[count]? = some cellList[count] := getElem?_eq_getElem _
    have member : cellList[count] ∈ cellList := getElem_mem _
    have later := ih (by omega)
    have next : cellList.length - (count + 1) + 1 = cellList.length - count := by omega
    have refs : storeRefs info (cellList.length - (count + 1)) cellList[count].refIdx =
        .ok (cellList[count].refIdx.flatMap (indexRecord info)) := by
      apply storeRefs_eq
      intro ref refMember
      have before := layout.earlier count _ found ref refMember
      unfold fileIndex
      rw [counted]
      omega
    rw [reverse_take_succ found, storeCells, loads _ member, Lib.ok_bind, refs, next, later]
    simp [check, layout.refs_length found, entryBytes]

lemma Layout.storeAll_eq (layout : Layout sha cellOf cellList roots)
    {load : CellInfo α → Except BocError DataCell} (counted : info.cellCount = cellList.length)
    (loads : ∀ entry ∈ cellList, load entry = .ok (cellOf entry.dcRef)) :
    storeCells mode info load 0 cellList.reverse =
      .ok (cellList.reverse.flatMap (entryBytes cellOf mode info)) := by
  have all := @storeCells_eq _ _ _ _ _ mode _ layout _ counted loads _ (Nat.le_refl _)
  rwa [Nat.sub_self, take_length] at all

lemma fixedOffsets_length (cellOf : α → DataCell) (mode : BocMode) (info : Info) (offs : Nat) (entries : List (CellInfo α)) :
    (fixedOffsets cellOf mode info offs entries).length = entries.length := by
  induction entries generalizing offs with
  | nil => rfl
  | cons entry rest ih => simp [fixedOffsets, ih]

lemma storeHeader_length (info : Info) : (storeHeader info).length = 6 + 3 * info.refByteSize + info.offsetByteSize := by
  simp only [storeHeader, length_append, Lib.storeUint_length]
  omega

lemma Layout.entries_length (layout : Layout sha cellOf cellList roots) (mode : BocMode) (info : Info) :
    (cellList.reverse.flatMap (entryBytes cellOf mode info)).length = (cellList.map fun entry =>
      (cellOf entry.dcRef).getSerializedSize (withHash mode entry) + entry.refIdx.length * info.refByteSize).sum := by
  rw [length_flatMap, map_reverse, sum_reverse]
  congr 1
  apply map_congr_left
  intro entry member
  exact layout.entryBytes_length mode info member

lemma Layout.data_length (layout : Layout sha cellOf cellList roots)
    (fits : HeaderFits cellOf mode cellList roots info rs os dataSize) :
    (cellList.reverse.flatMap (entryBytes cellOf mode info)).length = dataSize := by
  have width : info.refByteSize = rs := by rw [fits.info_eq]; rfl
  rw [layout.entries_length, width, fits.size_eq]

/-- What is written has the size that its header gives. -/
lemma Layout.size_of_writeBag (layout : Layout sha cellOf cellList roots)
    {load : CellInfo α → Except BocError DataCell} (counted : info.cellCount = cellList.length)
    (loads : ∀ entry ∈ cellList, load entry = .ok (cellOf entry.dcRef)) {crc32c : List UInt8 → UInt32} {bytes : List UInt8}
    (written : writeBag crc32c mode info roots cellList cellSize load = .ok bytes) :
    info.dataSize = (cellList.map fun entry =>
      (cellOf entry.dcRef).getSerializedSize (withHash mode entry) + entry.refIdx.length * info.refByteSize).sum := by
  unfold writeBag at written
  simp only [layout.storeAll_eq counted loads, Lib.bind_eq_ok, check] at written
  obtain ⟨_, _, _, _, _, _, _, _, _, _, cells, stored, _, sized, _⟩ := written
  cases stored
  rw [← layout.entries_length]
  split at sized
  next same => exact (beq_iff_eq.mp same).symm
  · cases sized

lemma crc_length (crc32c : List UInt8 → UInt32) (info : Info) (bytes : List UInt8) :
    (storeCrc crc32c info bytes).length = bytes.length + if info.hasCrc32c then 4 else 0 := by
  unfold storeCrc
  split
  · simp
  · rfl

section

variable (layout : Layout sha cellOf cellList roots) (fits : HeaderFits cellOf mode cellList roots info rs os dataSize)
include layout fits

lemma Layout.bagBytes_length : (bagBytes cellOf mode info cellList roots).length = info.dataOffset + dataSize := by
  have data := layout.data_length fits
  unfold bagBytes
  rw [length_append, length_append, length_append, data, storeHeader_length,
    Lib.flatMap_length_of_forall _ (indexRecord_length info), fits.info_eq]
  simp only [makeInfo]
  split
  · rw [Lib.flatMap_length_of_forall _ (offsetRecord_length _), fixedOffsets_length, length_reverse]
    simp only []
    omega
  · rw [length_nil]
    omega

lemma Layout.writeBag_eq {load : CellInfo α → Except BocError DataCell}
    (sized : ∀ entry ∈ cellList, ∀ withHashes, cellSize entry withHashes = (cellOf entry.dcRef).getSerializedSize withHashes)
    (loads : ∀ entry ∈ cellList, load entry = .ok (cellOf entry.dcRef)) (crc32c : List UInt8 → UInt32) :
    writeBag crc32c mode info roots cellList cellSize load =
      .ok (storeCrc crc32c info (bagBytes cellOf mode info cellList roots)) := by
  have counted : info.cellCount = cellList.length := by rw [fits.info_eq]; rfl
  have size : info.dataSize = dataSize := by rw [fits.info_eq]; rfl
  have total : info.totalSize = info.dataOffset + dataSize + if info.hasCrc32c then 4 else 0 := by
    rw [fits.info_eq]; rfl
  have data := layout.data_length fits
  have whole := layout.bagBytes_length fits
  have storedRoots : storeRoots info roots = .ok (roots.flatMap (indexRecord info)) := by
    apply storeRoots_eq
    intro root member
    rw [counted]
    exact layout.roots_lt root member
  have index : storeIndex mode info cellSize 0 cellList.reverse =
      ((fixedOffsets cellOf mode info 0 cellList.reverse).flatMap (offsetRecord info),
        0 + (cellList.reverse.flatMap (entryBytes cellOf mode info)).length) := by
    apply storeIndex_eq
    intro entry member
    have inList : entry ∈ cellList := mem_reverse.mp member
    rw [sized entry inList, layout.entryBytes_length mode info inList]
  have cells := @storeAll_eq _ _ _ _ _ mode _ layout _ counted loads
  have indexOffset : (storeHeader info ++ roots.flatMap (indexRecord info)).length =
      info.indexOffset := by
    rw [length_append, storeHeader_length, Lib.flatMap_length_of_forall _ (indexRecord_length info), fits.info_eq]
    simp only [makeInfo]
  have start : ((storeHeader info ++ roots.flatMap (indexRecord info)) ++
      if info.hasIndex then
        (fixedOffsets cellOf mode info 0 cellList.reverse).flatMap (offsetRecord info)
      else []).length = info.dataOffset := by
    unfold bagBytes at whole
    rw [← append_assoc, ← append_assoc, length_append, data] at whole
    omega
  unfold writeBag
  rw [storedRoots, Lib.ok_bind, index]
  simp only [check, indexOffset, counted, start, cells, data, size, Nat.zero_add, beq_self_eq_true,
    Bool.or_true, ↓reduceIte, Lib.ok_bind]
  have same : storeHeader info ++ roots.flatMap (indexRecord info) ++
      (if info.hasIndex then
        (fixedOffsets cellOf mode info 0 cellList.reverse).flatMap (offsetRecord info) else []) ++
      cellList.reverse.flatMap (entryBytes cellOf mode info) =
        bagBytes cellOf mode info cellList roots := by
    unfold bagBytes
    rw [← append_assoc, ← append_assoc]
  rw [same, crc_length, whole, total]
  simp

end

variable {value : Nat} {mode : BocMode} {cellCount rootCount rs os dataSize : Nat}

lemma toInt32_eq (small : value < 2 ^ 31) : toInt32 value = value := by
  unfold toInt32
  have same : value % 2 ^ 32 = value := mod_eq_of_lt (by omega)
  rw [same, if_pos small]

lemma toInt32_le_zero (fits : value < 2 ^ 32) (large : 2 ^ 31 ≤ value) : toInt32 value ≤ 0 := by
  unfold toInt32
  have same : value % 2 ^ 32 = value := mod_eq_of_lt fits
  rw [same, if_neg (by omega)]
  omega

def headerFields (info : Info) : List (Nat × Nat) :=
  [(info.magic, 4), (flagsByte info, 1), (info.offsetByteSize, 1),
    (info.cellCount, info.refByteSize), (info.rootCount, info.refByteSize), (0, info.refByteSize),
    (info.dataSize, info.offsetByteSize)]

def fieldRecord (field : Nat × Nat) : List UInt8 := Lib.storeUint field.1 field.2

lemma storeHeader_eq (info : Info) : storeHeader info = (headerFields info).flatMap fieldRecord := by
  simp [storeHeader, headerFields, fieldRecord]

lemma readAt_field (info : Info) (rest : List UInt8) {position offset count : Nat}
    (found : (headerFields info)[position]? = some (value, count))
    (start : (((headerFields info).take position).flatMap fieldRecord).length = offset) :
    readAt (storeHeader info ++ rest) offset count = value % 256 ^ count := by
  have inside : offset ≤ ((headerFields info).flatMap fieldRecord).length := by
    have split := congrArg List.length (congrArg (List.flatMap fieldRecord) (take_append_drop position (headerFields info)))
    rw [flatMap_append, length_append, start] at split
    omega
  unfold readAt substr
  rw [storeHeader_eq, drop_append_of_le_length inside, ← start, Lib.drop_flatMap_take _ found, append_assoc]
  have width : (fieldRecord (value, count)).length = count := Lib.storeUint_length _ _
  rw [take_append_of_le_length (Nat.le_of_eq width.symm), take_of_length_le (Nat.le_of_eq width)]
  exact Lib.readInt_storeUint_mod value count

lemma byteAt_eq_readAt (data : List UInt8) {offset : Nat} (inside : offset < data.length) :
    byteAt data offset = readAt data offset 1 := by
  unfold byteAt readAt substr
  rw [getD_eq_getElem _ _ inside, drop_eq_getElem_cons inside, take_succ_cons, take_zero]
  simp [Lib.readInt]

lemma flagsByte_lt (low : info.refByteSize ≤ 4) : flagsByte info < 256 := by
  have index := Bool.toNat_le info.hasIndex
  have crc := Bool.toNat_le info.hasCrc32c
  have cache := Bool.toNat_le info.hasCacheBits
  unfold flagsByte
  omega

lemma flagsByte_fields (low : info.refByteSize ≤ 4) :
    (flagsByte info).testBit 7 = info.hasIndex ∧ (flagsByte info).testBit 6 = info.hasCrc32c ∧
      (flagsByte info).testBit 5 = info.hasCacheBits ∧ flagsByte info % 8 = info.refByteSize := by
  have index := Bool.toNat_le info.hasIndex
  have crc := Bool.toNat_le info.hasCrc32c
  have cache := Bool.toNat_le info.hasCacheBits
  have bit : ∀ flag : Bool, decide (flag.toNat = 1) = flag := by decide
  have indexBit : flagsByte info / 2 ^ 7 % 2 = info.hasIndex.toNat := by unfold flagsByte; omega
  have crcBit : flagsByte info / 2 ^ 6 % 2 = info.hasCrc32c.toNat := by unfold flagsByte; omega
  have cacheBit : flagsByte info / 2 ^ 5 % 2 = info.hasCacheBits.toNat := by
    unfold flagsByte; omega
  refine ⟨?_, ?_, ?_, ?_⟩
  · rw [testBit_eq_decide_div_mod_eq, indexBit, bit]
  · rw [testBit_eq_decide_div_mod_eq, crcBit, bit]
  · rw [testBit_eq_decide_div_mod_eq, cacheBit, bit]
  · unfold flagsByte
    omega

/-- Every field of a stored header is read back, the number of roots cut to its width. -/
lemma storeHeader_fields (rsLe : rs ≤ 4)
    (osLe : os ≤ 8) (cells : cellCount < 256 ^ rs) (size : dataSize < 256 ^ os) (rest : List UInt8) :
    let info := makeInfo mode cellCount rootCount rs os dataSize
    let data := storeHeader info ++ rest
    readAt data 0 4 = bocGeneric ∧ byteAt data 4 = flagsByte info ∧ byteAt data 5 = os ∧ readAt data 6 rs = cellCount ∧
      readAt data (6 + rs) rs = rootCount % 256 ^ rs ∧ readAt data (6 + 2 * rs) rs = 0 ∧
      readAt data (6 + 3 * rs) os = dataSize := by
  intro info data
  have fieldAt : ∀ {position offset value count : Nat}, (headerFields info)[position]? = some (value, count) →
      (((headerFields info).take position).flatMap fieldRecord).length = offset →
      readAt data offset count = value % 256 ^ count := readAt_field info rest
  have fields : headerFields info = [(bocGeneric, 4), (flagsByte info, 1), (os, 1), (cellCount, rs),
      (rootCount, rs), (0, rs), (dataSize, os)] := rfl
  rw [fields] at fieldAt
  have length : 6 + 3 * rs + os ≤ data.length := by
    rw [length_append, storeHeader_length]
    exact le_add_right _ _
  refine ⟨@fieldAt 0 0 bocGeneric 4 rfl rfl, ?_, ?_, ?_, ?_, ?_, ?_⟩
  · rw [byteAt_eq_readAt _ (by omega), @fieldAt 1 4 (flagsByte info) 1 rfl rfl]
    exact mod_eq_of_lt (flagsByte_lt rsLe)
  · rw [byteAt_eq_readAt _ (by omega), @fieldAt 2 5 os 1 rfl rfl]
    exact mod_eq_of_lt (by omega)
  · rw [@fieldAt 3 6 cellCount rs rfl rfl]
    exact mod_eq_of_lt cells
  · exact @fieldAt 4 (6 + rs) rootCount rs rfl (by simp [fieldRecord]; omega)
  · rw [@fieldAt 5 (6 + 2 * rs) 0 rs rfl (by simp [fieldRecord]; omega), zero_mod]
  · rw [@fieldAt 6 (6 + 3 * rs) dataSize os rfl (by simp [fieldRecord]; omega)]
    exact mod_eq_of_lt size

lemma parse_makeInfo
    (rsPos : 1 ≤ rs) (rsLe : rs ≤ 4) (osPos : 1 ≤ os) (osLe : os ≤ 8)
    (cells : cellCount < 256 ^ rs) (cellsPos : 1 ≤ cellCount) (roots : rootCount < 2 ^ 31)
    (size : dataSize < 256 ^ os) (cacheIndex : mode.withCacheBits = true → mode.withIndex = true) (rest : List UInt8) :
    parseSerializedHeader (storeHeader (makeInfo mode cellCount rootCount rs os dataSize) ++ rest) =
      if cellCount < 2 ^ 31 ∧ 0 < rootCount % 256 ^ rs ∧ dataSize ≤ cellCount * 2 ^ 10 ∧
          dataSize ≤ 2 ^ 40 ∧ cellCount * (2 + rs) - rs ≤ dataSize then
        .ok (makeInfo mode cellCount (rootCount % 256 ^ rs) rs os dataSize) else .error 0 := by
  obtain ⟨magic, flags, offsetSize, cellsAt, rootsAt, absentAt, sizeAt⟩ :=
    @storeHeader_fields mode cellCount rootCount rs os dataSize rsLe osLe cells size rest
  have length : 6 + 3 * rs + os ≤ (storeHeader (makeInfo mode cellCount rootCount rs os dataSize) ++ rest).length := by
    rw [length_append, storeHeader_length]
    exact le_add_right _ _
  generalize infoEq : makeInfo mode cellCount rootCount rs os dataSize = info at *
  have refByteSize : info.refByteSize = rs := by rw [← infoEq]; rfl
  obtain ⟨indexBit, crcBit, cacheBit, widthBits⟩ := flagsByte_fields (show info.refByteSize ≤ 4 by omega)
  have hasIndex : info.hasIndex = mode.withIndex := by rw [← infoEq]; rfl
  have hasCrc : info.hasCrc32c = mode.withCrc32c := by rw [← infoEq]; rfl
  have hasCache : info.hasCacheBits = mode.withCacheBits := by rw [← infoEq]; rfl
  have cacheOk : (mode.withCacheBits && !mode.withIndex) = false := by
    cases cache : mode.withCacheBits with
    | false => rfl
    | true => simp [cacheIndex cache]
  obtain ⟨sz, szEq⟩ : ∃ sz, min (storeHeader info ++ rest).length 0xffff = sz := ⟨_, rfl⟩
  have enough : 6 + 3 * rs + os ≤ sz := by
    rw [← szEq]
    exact Nat.le_min.mpr ⟨length, Nat.le_trans (show 6 + 3 * rs + os ≤ 26 by omega) (by decide)⟩
  have four : ¬ sz < 4 := by omega
  have five : ¬ sz < 5 := by omega
  have six : ¬ sz < 6 := by omega
  have rsOk : ¬ (rs > 4 ∨ rs < 1) := by omega
  have osOk : ¬ (os > 8 ∨ os < 1) := by omega
  have one : ¬ sz - 6 < rs := by omega
  have two : ¬ sz - 6 < 2 * rs := by omega
  have three : ¬ sz - 6 < 3 * rs := by omega
  have all : ¬ sz - 6 < 3 * rs + os := by omega
  unfold parseSerializedHeader
  simp only [szEq, magic, flags, offsetSize, indexBit, crcBit, cacheBit, widthBits, refByteSize,
    cellsAt, rootsAt, absentAt, sizeAt, hasIndex, hasCrc, hasCache, cacheOk, four, five, six, rsOk,
    osOk, one, two, three, all, ne_eq, not_true_eq_false, false_and, ↓reduceIte, beq_self_eq_true,
    Bool.not_true, Bool.false_or, Bool.true_and, Bool.false_and, Bool.false_eq_true, Lib.error_bind]
  have fourBytes : 256 ^ rs ≤ 2 ^ 32 := by
    calc 256 ^ rs ≤ 256 ^ 4 := Nat.pow_le_pow_right (by decide) rsLe
      _ = 2 ^ 32 := by decide
  by_cases few : cellCount < 2 ^ 31
  · have rootsSmall : rootCount % 256 ^ rs < 2 ^ 31 := Nat.lt_of_le_of_lt (Nat.mod_le _ _) roots
    rw [toInt32_eq few, toInt32_eq rootsSmall, toInt32_eq (show 0 < 2 ^ 31 by decide)]
    simp only [Int.toNat_natCast]
    rw [if_neg (by omega)]
    by_cases someRoot : 0 < rootCount % 256 ^ rs
    · rw [if_neg (by omega), if_neg (by omega)]
      by_cases bounded : dataSize ≤ cellCount * 2 ^ 10
      · rw [if_neg (Nat.not_lt.mpr bounded)]
        by_cases below : dataSize ≤ 2 ^ 40
        · rw [if_neg (Nat.not_lt.mpr below)]
          by_cases enoughData : cellCount * (2 + rs) - rs ≤ dataSize
          · have accepted := And.intro few (And.intro someRoot (And.intro bounded (And.intro below enoughData)))
            rw [if_neg (Nat.not_lt.mpr enoughData), if_pos accepted]
            rfl
          · rw [if_pos (Nat.not_le.mp enoughData), if_neg fun fits => enoughData fits.2.2.2.2]
        · rw [if_pos (Nat.not_le.mp below), if_neg fun fits => below fits.2.2.2.1]
      · rw [if_pos (Nat.not_le.mp bounded), if_neg fun fits => bounded fits.2.2.1]
    · rw [if_pos (show ((rootCount % 256 ^ rs : Nat) : Int) ≤ 0 by omega), if_neg fun fits => someRoot fits.2.1]
  · rw [if_pos (toInt32_le_zero (Nat.lt_of_lt_of_le cells fourBytes) (Nat.not_lt.mp few)), if_neg fun fits => few fits.1]

end TonNode.Vm.Boc
