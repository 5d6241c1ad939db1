import TonNode.Vm.BocImport
import TonNode.Vm.BocRoundTrip

/-!
# Bags of cells are read back
-/

namespace TonNode.Vm

open List Nat BagOfCells DataCell

namespace Boc

/-! ### Sizes -/

lemma byteWidth_pos {value : Nat} (positive : 0 < value) : 1 ≤ byteWidth value := by
  rw [byteWidth, if_neg (by omega)]
  omega

lemma lt_pow_byteWidth (value : Nat) : value < 256 ^ byteWidth value := by
  induction value using Nat.strong_induction_on with
  | _ value ih =>
    rw [byteWidth]
    split
    · subst value
      exact one_pos
    · have smaller := ih (value / 256) (by omega)
      rw [pow_succ]
      omega

lemma byteWidth_le {value width : Nat} (small : value < 256 ^ width) : byteWidth value ≤ width := by
  induction width generalizing value with
  | zero =>
    have zero : value = 0 := by
      rw [pow_zero] at small
      omega
    subst zero
    rw [byteWidth, if_pos rfl]
  | succ width ih =>
    rw [byteWidth]
    split
    · exact Nat.zero_le _
    · rw [pow_succ] at small
      exact Nat.succ_le_succ (ih (Nat.div_lt_of_lt_mul (by omega)))

end Boc

namespace BagOfCells

open Boc

variable {sha : Sha256} {roots : List DataCell} {bag : BagOfCells}

/-- The references between the cells of a bag, which `int_refs` counts. -/
def totalRefs (bag : BagOfCells) : Nat := (bag.cellList.map fun info => info.refIdx.length).sum

/-- The hashes of the cells that are marked to store them, which `int_hashes` counts. -/
def markedHashes (bag : BagOfCells) : Nat :=
  (bag.cellList.map fun info => if info.wt = 0 then LevelMask.getHashesCount info.dcRef.getLevelMask else 0).sum

structure Ready (sha : Sha256) (roots : List DataCell) (bag : BagOfCells) : Prop where
  layout : Layout sha id bag.cellList bag.roots
  rootCells : bag.roots.map (fun root => bag.cellList[root]?.map CellInfo.dcRef) = roots.map some
  inner : ∀ info ∈ bag.cellList, info.isRootCell = false
  dataBytes : bag.dataBytes = (bag.cellList.map fun info => info.dcRef.getSerializedSize false).sum
  intRefs : bag.intRefs = Lib.wrapInt bag.totalRefs
  intHashes : bag.intHashes = Lib.wrapInt bag.markedHashes
  topHashes : bag.topHashes = 0
  met : bag.cellCount ≤ roots.length + bag.totalRefs

lemma Ready.mem_cells (ready : Ready sha roots bag) {cell : DataCell}
    (within : DataCell.Within roots cell) : cell ∈ bag.cells := by
  have listed : ∀ {positions : List Nat} {found : List DataCell} {cell : DataCell},
      positions.map (fun pos => bag.cellList[pos]?.map CellInfo.dcRef) = found.map some →
      cell ∈ found → cell ∈ bag.cells := by
    intro positions found cell same member
    have place := mem_map_of_mem (f := some) member
    rw [← same] at place
    obtain ⟨pos, _, here⟩ := mem_map.mp place
    rw [← getElem?_map] at here
    exact mem_of_getElem? here
  induction within with
  | root member => exact listed ready.rootCells member
  | ref _ isRef member =>
    obtain ⟨info, infoMember, rfl⟩ := mem_map.mp member
    obtain ⟨idx, place⟩ := mem_iff_getElem?.mp infoMember
    exact listed (ready.layout.refs idx info place) isRef

lemma Ready.cellCount_pos (ready : Ready sha roots bag) (someRoot : roots ≠ []) : 0 < bag.cellCount := by
  obtain ⟨root, isRoot⟩ := exists_mem_of_ne_nil _ someRoot
  have positive := length_pos_of_mem (ready.mem_cells (.root isRoot))
  rwa [cells, length_map] at positive

lemma Ready.roots_length (ready : Ready sha roots bag) : bag.roots.length = roots.length := by
  simpa using congrArg List.length ready.rootCells

end BagOfCells

namespace Boc

variable {α : Type} {sha : Sha256} {cellOf : α → DataCell}

def CellInfo.withCell (cellOf : α → DataCell) (info : CellInfo α) : CellInfo DataCell :=
  { dcRef := cellOf info.dcRef
    refIdx := info.refIdx
    wt := info.wt
    hcnt := info.hcnt
    newIdx := info.newIdx
    shouldCache := info.shouldCache
    isRootCell := info.isRootCell }

lemma Layout.withCell {cellList : List (CellInfo α)} {roots : List Nat} (layout : Layout sha cellOf cellList roots) :
    Layout sha id (cellList.map (CellInfo.withCell cellOf)) roots := by
  have source : ∀ (idx : Nat) (entry : CellInfo DataCell),
      (cellList.map (CellInfo.withCell cellOf))[idx]? = some entry →
        ∃ before, cellList[idx]? = some before ∧ entry = before.withCell cellOf := by
    intro idx entry found
    rw [getElem?_map] at found
    obtain ⟨before, located, rfl⟩ := Option.map_eq_some_iff.mp found
    exact ⟨before, located, rfl⟩
  have refs : (cellList.map (CellInfo.withCell cellOf)).flatMap CellInfo.refIdx =
      cellList.flatMap CellInfo.refIdx := by
    rw [flatMap_map]
    rfl
  constructor
  · intro entry member
    obtain ⟨before, beforeMember, rfl⟩ := mem_map.mp member
    exact layout.created before beforeMember
  · intro idx entry found
    obtain ⟨before, located, rfl⟩ := source idx entry found
    refine Eq.trans ?_ (layout.refs idx before located)
    apply map_congr_left
    intro ref _
    rw [getElem?_map, Option.map_map]
    rfl
  · intro idx entry found
    obtain ⟨before, located, rfl⟩ := source idx entry found
    exact layout.earlier idx before located
  · rw [length_map]
    exact layout.roots_lt
  · intro idx entry found
    obtain ⟨before, located, rfl⟩ := source idx entry found
    rw [refs]
    exact layout.cache idx before located

variable {cells : List (CellInfo α)} {positions : List Nat}

lemma countTopHashes_eq (inner : ∀ info ∈ cells, info.isRootCell = false) (indices : List Nat) :
    countTopHashes cells indices = 0 := by
  unfold countTopHashes
  refine foldl_fixed' (fun idx => ?_) indices
  cases found : cells[idx]? with
  | none => rfl
  | some info => simp [inner info (mem_of_getElem? found)]

lemma storeCrc_bagBytes_ne_nil (crc32c : List UInt8 → UInt32) (cellOf : α → DataCell)
    (mode : BocMode) (info : Info) (cellList : List (CellInfo α)) (roots : List Nat) :
    storeCrc crc32c info (bagBytes cellOf mode info cellList roots) ≠ [] := by
  intro empty
  have length := congrArg List.length empty
  rw [crc_length] at length
  unfold bagBytes at length
  rw [length_append, storeHeader_length, length_nil] at length
  omega

/-- Every listed cell is a root or referred to, so there are no more cells than visits. -/
lemma Imported.length_le (imported : Imported sha cellOf cells positions) :
    cells.length ≤ positions.length + (cells.flatMap CellInfo.refIdx).length := by
  have all : (List.range cells.length).Subperm
      (positions ++ cells.flatMap CellInfo.refIdx) := by
    apply subperm_of_subset nodup_range
    intro idx member
    exact count_pos_iff.mp (imported.met idx (mem_range.mp member))
  have fewer := all.length_le
  rw [length_range, length_append] at fewer
  exact fewer

lemma specialHashes_eq {weighed : List (CellInfo α)} (same : Reweighed cells weighed)
    (hcnt : ∀ info ∈ cells, info.hcnt = LevelMask.getHashesCount (cellOf info.dcRef).getLevelMask) :
    specialHashes weighed = (weighed.map fun info => if info.wt = 0 then
      LevelMask.getHashesCount (cellOf info.dcRef).getLevelMask else 0).sum := by
  unfold specialHashes
  congr 1
  apply map_congr_left
  intro info member
  obtain ⟨idx, place⟩ := mem_iff_getElem?.mp member
  obtain ⟨before, wt, original, rfl⟩ := same.source place
  rw [hcnt before (mem_of_getElem? original)]

lemma Imported.ready {roots : List DataCell} {dataBytes : Nat} {intRefs : Int}
    (imported : Imported sha cellOf cells positions)
    (found : positions.map (fun pos => cells[pos]?.map fun info => cellOf info.dcRef) = roots.map some)
    (hcnt : ∀ info ∈ cells, info.hcnt = LevelMask.getHashesCount (cellOf info.dcRef).getLevelMask)
    (sizes : dataBytes = (cells.map fun info => (cellOf info.dcRef).getSerializedSize false).sum)
    (refs : intRefs = Lib.wrapInt (cells.flatMap CellInfo.refIdx).length) :
    ∃ weighed state order, Lighter cells weighed ∧
      computeWeights cells = .ok (weighed, Lib.wrapInt (specialHashes weighed)) ∧
      revisitRoots weighed positions = .ok state ∧ Reordering weighed order state.tmp ∧
      Numbered weighed order state.cells ∧
      Layout sha cellOf state.tmp (positions.map (newIdxAt state.cells)) ∧
      BagOfCells.Ready sha roots
        { cellList := state.tmp.map (CellInfo.withCell cellOf)
          intRefs
          intHashes := Lib.wrapInt (specialHashes weighed)
          topHashes := countTopHashes weighed positions
          dataBytes
          roots := positions.map (newIdxAt state.cells) } := by
  obtain ⟨weighed, state, order, fewer, weights, revisited, reordering, numbered, numbers⟩ := imported.reordered
  have heavy := imported.reweighed fewer.reweighed
  have rootCount : positions.length = roots.length := by simpa using congrArg List.length found
  have layout : Layout sha cellOf state.tmp (positions.map (newIdxAt state.cells)) := by
    rw [numbers]
    exact reordering.layout heavy
  have sameRefs : (cells.flatMap CellInfo.refIdx).length =
      ((state.tmp.map (CellInfo.withCell cellOf)).map fun info => info.refIdx.length).sum := by
    have moved := @Reordering.sum_eq _ _ _ _ reordering (fun info => info.refIdx.length)
      (fun info => info.refIdx.length) fun _ _ => length_map ..
    rw [map_map]
    refine Eq.trans ?_ moved.symm
    rw [fewer.reweighed.map_eq fun _ _ => rfl, ← length_flatMap]
  refine ⟨weighed, state, order, fewer, weights, revisited, reordering, numbered, layout, ?_⟩
  constructor
  · exact layout.withCell
  · simp only [numbers]
    rw [← found, map_map]
    apply map_congr_left
    intro root member
    have moved := @Reordering.cell_at _ _ _ _ _ cellOf reordering (heavy.roots_lt root member)
    rw [Function.comp_apply, getElem?_map, Option.map_map]
    refine Eq.trans moved ?_
    rw [← getElem?_map, ← getElem?_map, fewer.reweighed.map_eq fun _ _ => rfl]
  · intro info member
    obtain ⟨entry, entryMember, rfl⟩ := mem_map.mp member
    obtain ⟨new, place⟩ := mem_iff_getElem?.mp entryMember
    obtain ⟨_, before, _, original, _, rfl⟩ := reordering.source place
    exact heavy.inner before (mem_of_getElem? original)
  · have moved := @Reordering.sum_eq _ _ _ _ reordering (fun info => (cellOf info.dcRef).getSerializedSize false)
      (fun info => (cellOf info.dcRef).getSerializedSize false) fun _ _ => rfl
    rw [map_map]
    refine sizes.trans (Eq.trans ?_ moved.symm)
    rw [fewer.reweighed.map_eq fun _ _ => rfl]
  · rw [refs, sameRefs]
    rfl
  · have moved := @Reordering.sum_eq _ _ _ _ reordering
      (fun info => if info.wt = 0 then
        LevelMask.getHashesCount (cellOf info.dcRef).getLevelMask else 0)
      (fun info => if info.wt = 0 then
        LevelMask.getHashesCount (cellOf info.dcRef).getLevelMask else 0) fun _ _ => rfl
    unfold markedHashes
    rw [map_map]
    exact congrArg (fun count : Nat => Lib.wrapInt count) ((specialHashes_eq fewer.reweighed hcnt).trans moved.symm)
  · exact countTopHashes_eq heavy.inner _
  · have fewCells := imported.length_le
    have lengths : state.tmp.length = cells.length := by
      rw [reordering.length, reordering.perm.length_eq, length_range, fewer.length]
    simp only [cellCount, totalRefs, length_map]
    omega

end Boc

namespace BagOfCells

open Boc

variable {sha : Sha256} {roots : List DataCell} {bag : BagOfCells}

lemma reorderCells_ok (importing : Importing sha roots bag bag.roots 0)
    (found : bag.roots.map (fun pos => bag.cellList[pos]?.map CellInfo.dcRef) = roots.map some) :
    ∃ next, bag.reorderCells = .ok next ∧ Ready sha roots next ∧ next.cells.Perm bag.cells := by
  obtain ⟨weighed, state, order, fewer, weights, revisited, reordering, _, _, ready⟩ :=
    importing.imported.ready found importing.hcnt importing.dataBytes (importing.intRefs.trans (by rw [zero_add]))
  have plain : state.tmp.map (CellInfo.withCell id) = state.tmp := map_id _
  rw [plain] at ready
  refine ⟨_, ?_, ready, ?_⟩
  · unfold reorderCells
    rw [weights, Lib.ok_bind]
    simp only []
    rw [revisited, Lib.ok_bind]
  · have moved := @Reordering.map_perm _ _ _ _ reordering _ (.mk .ordinary [] [] ⟨0, [], []⟩)
      CellInfo.dcRef CellInfo.dcRef fun _ _ => rfl
    rw [fewer.reweighed.map_eq fun _ _ => rfl] at moved
    exact moved

section

variable (distinct : DataCell.HashesDistinct roots) (created : ∀ root ∈ roots, root.Created sha)
include distinct created

lemma importCells_eq :
    ∃ imported bag, importRoots new roots = .ok imported ∧ imported.reorderCells = .ok bag ∧
      Ready sha roots bag ∧ bag.cells.Perm imported.cells ∧ imported.cells.Nodup ∧
      (∀ cell ∈ imported.cells, DataCell.Within roots cell) ∧
      importCells roots =
        if roots = [] then .error (.check "cell_count != 0") else .ok bag := by
  obtain ⟨imported, result, importing, found⟩ :=
    importRoots_ok distinct created (fun _ member => member) (importing_new sha roots)
      (show new.roots.map _ = ([] : List DataCell).map some from rfl)
  obtain ⟨bag, reordered, ready, perm⟩ := reorderCells_ok importing found
  refine ⟨imported, bag, result, reordered, ready, perm, importing.once, ?_, ?_⟩
  · intro cell member
    obtain ⟨info, infoMember, rfl⟩ := mem_map.mp member
    exact importing.within info infoMember
  unfold importCells
  rw [result, Lib.ok_bind, reordered, Lib.ok_bind]
  cases roots with
  | nil =>
    cases result
    have empty : bag.cellList = [] := map_eq_nil_iff.mp perm.eq_nil
    simp [check, cellCount, empty]
  | cons root rest =>
    have positive := ready.cellCount_pos (cons_ne_nil root rest)
    simp [check, ne_of_gt positive]

lemma importCells_ok (some_ : roots ≠ []) : ∃ bag, importCells roots = .ok bag ∧ Ready sha roots bag := by
  obtain ⟨_, bag, _, _, ready, _, _, _, result⟩ := importCells_eq distinct created
  exact ⟨bag, result.trans (if_neg some_), ready⟩

end

/-! ### What is written -/

def refSize (bag : BagOfCells) : Nat := byteWidth bag.cellCount

/-- The bytes of the hashes that are stored in a mode. -/
def hashBytes (bag : BagOfCells) (mode : BocMode) : Nat :=
  if mode.withIntHashes then bag.markedHashes * (Cell.hashBytes + Cell.depthBytes) else 0

def dataSize (bag : BagOfCells) (mode : BocMode) : Nat :=
  bag.dataBytes + bag.totalRefs * bag.refSize + bag.hashBytes mode

/-- The data size as it is computed from counters that may have overflowed. -/
def estimatedSize (bag : BagOfCells) (mode : BocMode) : Nat :=
  (bag.dataBytes + Lib.toUInt64 (Lib.wrapInt bag.totalRefs) * bag.refSize +
    Lib.toUInt64 (Lib.wrapInt (bag.hashBytes mode))) % 2 ^ 64

def estimatedOffsetSize (bag : BagOfCells) (mode : BocMode) : Nat :=
  byteWidth (if mode.withCacheBits then bag.estimatedSize mode * 2 % 2 ^ 64 else bag.estimatedSize mode)

def offsetSize (bag : BagOfCells) (mode : BocMode) : Nat :=
  byteWidth (if mode.withCacheBits then bag.dataSize mode * 2 else bag.dataSize mode)

def header (bag : BagOfCells) (mode : BocMode) : Info :=
  makeInfo mode bag.cellCount bag.roots.length bag.refSize (bag.offsetSize mode) (bag.dataSize mode)

/-- The flags are accepted and no counter overflows. -/
structure Writable (bag : BagOfCells) (mode : BocMode) : Prop where
  indexed : mode.withCacheBits = true → mode.withIndex = true
  cells_lt : bag.cellCount < 256 ^ 4
  refs_lt : bag.totalRefs < 2 ^ 31
  hashes_lt : bag.hashBytes mode < 2 ^ 31

lemma getSerializedSize_eq (cell : DataCell) (withHashes : Bool) :
    cell.getSerializedSize withHashes = cell.getSerializedSize false + if withHashes then
        LevelMask.getHashesCount cell.getLevelMask * (Cell.hashBytes + Cell.depthBytes) else 0 := by
  unfold getSerializedSize
  simp

lemma Ready.dataSize_eq (ready : Ready sha roots bag) (mode : BocMode) : bag.dataSize mode = (bag.cellList.map fun entry =>
      entry.dcRef.getSerializedSize (withHash mode entry) + entry.refIdx.length * bag.refSize).sum := by
  have each : ∀ entry ∈ bag.cellList, entry.dcRef.getSerializedSize (withHash mode entry) +
      entry.refIdx.length * bag.refSize =
        entry.dcRef.getSerializedSize false + (entry.refIdx.length * bag.refSize +
          (if entry.wt = 0 then LevelMask.getHashesCount entry.dcRef.getLevelMask else 0) *
            (if mode.withIntHashes then Cell.hashBytes + Cell.depthBytes else 0)) := by
    intro entry member
    have hashed : withHash mode entry = (mode.withIntHashes && entry.wt == 0) := by
      unfold withHash
      rw [ready.inner entry member]
      simp
    rw [getSerializedSize_eq, hashed]
    by_cases light : entry.wt = 0
    · by_cases hashes : mode.withIntHashes = true
      · simp only [light, hashes, beq_self_eq_true, Bool.and_self, ↓reduceIte]
        omega
      · simp [light, hashes]
    · simp [light]
  have sums := map_congr_left each
  unfold dataSize hashBytes
  rw [sums, sum_map_add, sum_map_add, sum_map_mul_right, sum_map_mul_right, ← ready.dataBytes, ← totalRefs,
    ← markedHashes]
  cases mode.withIntHashes <;> simp [add_assoc]

lemma Ready.dataBytes_ge (ready : Ready sha roots bag) : bag.cellCount * 2 ≤ bag.dataBytes := by
  rw [ready.dataBytes]
  have total := card_nsmul_le_sum
    (bag.cellList.map fun info => info.dcRef.getSerializedSize false) 2 (by
      intro size member
      obtain ⟨info, _, rfl⟩ := mem_map.mp member
      unfold getSerializedSize
      simp only [Bool.false_eq_true, ↓reduceIte]
      omega)
  rw [length_map] at total
  exact total

variable {mode : BocMode} {maxRoots : Nat}

section

variable (ready : Ready sha roots bag)
include ready

lemma Ready.dataSize_lt (few : bag.cellCount < 256 ^ 4) : bag.dataSize mode < 2 ^ 42 := by
  have total : bag.dataSize mode ≤ bag.cellCount * 282 := by
    rw [ready.dataSize_eq]
    exact ready.layout.sum_le mode (byteWidth_le few)
  omega

lemma Ready.offsetSize_le (few : bag.cellCount < 256 ^ 4) : bag.offsetSize mode ≤ 8 := by
  have bound := @Ready.dataSize_lt _ _ _ mode ready few
  apply byteWidth_le
  split <;> omega

lemma Ready.dataSize_ne_zero (someRoot : roots ≠ []) (mode : BocMode) : bag.dataSize mode ≠ 0 := by
  have cells := ready.dataBytes_ge
  have positive := ready.cellCount_pos someRoot
  have least : bag.dataBytes ≤ bag.dataSize mode := by
    unfold dataSize
    omega
  omega

lemma Ready.headerFits (someRoot : roots ≠ []) (writable : bag.Writable mode) :
    HeaderFits id mode bag.cellList bag.roots (bag.header mode) bag.refSize (bag.offsetSize mode) (bag.dataSize mode) where
  info_eq := rfl
  rs_pos := byteWidth_pos (ready.cellCount_pos someRoot)
  rs_le := byteWidth_le writable.cells_lt
  os_pos := by
    apply byteWidth_pos
    have size := ready.dataSize_ne_zero someRoot mode
    split <;> omega
  os_le := ready.offsetSize_le writable.cells_lt
  cells_pos := ready.cellCount_pos someRoot
  cells_lt := lt_pow_byteWidth _
  roots_pos := by
    rw [ready.roots_length]
    exact length_pos_iff.mpr someRoot
  size_lt := lt_pow_byteWidth _
  size_eq := ready.dataSize_eq mode
  cache_index := writable.indexed

lemma Ready.computeSizes_eq (someRoot : roots ≠ []) (mode : BocMode) :
    computeSizes mode bag.cellCount bag.roots.length bag.dataBytes bag.intRefs bag.intHashes bag.topHashes =
      if bag.refSize > 4 ∨ bag.estimatedOffsetSize mode > 8 then (0, 0, 0)
      else (bag.refSize, bag.estimatedOffsetSize mode, bag.estimatedSize mode) := by
  have rootCount : 0 < bag.roots.length := by
    rw [ready.roots_length]
    exact length_pos_iff.mpr someRoot
  have positive := ready.cellCount_pos someRoot
  have least := ready.dataBytes_ge
  have hashes : Lib.wrapInt (Lib.wrapInt ((if mode.withTopHash then bag.topHashes else 0) +
      (if mode.withIntHashes then bag.intHashes else 0)) * (Cell.hashBytes + Cell.depthBytes : Nat)) =
        Lib.wrapInt (bag.hashBytes mode) := by
    rw [ready.topHashes, ready.intHashes, ite_self, zero_add, Lib.wrapInt_wrapInt_mul]
    unfold hashBytes
    split
    · rw [Lib.wrapInt_wrapInt_mul, Nat.cast_mul]
    · rw [zero_mul, Nat.cast_zero]
  unfold computeSizes
  rw [if_neg (by omega)]
  simp only [hashes, ready.intRefs]
  rfl

/-- Overflows do not make up for each other: the size is right only if neither counter overflowed. -/
lemma Ready.estimatedSize_eq_iff (someRoot : roots ≠ []) (few : bag.cellCount < 256 ^ 4) :
    bag.estimatedSize mode = bag.dataSize mode ↔ bag.totalRefs < 2 ^ 31 ∧ bag.hashBytes mode < 2 ^ 31 := by
  have bound := @Ready.dataSize_lt _ _ _ mode ready few
  have wide : 1 ≤ bag.refSize := byteWidth_pos (ready.cellCount_pos someRoot)
  have narrow : bag.refSize ≤ 4 := byteWidth_le few
  have parts : bag.dataBytes + bag.totalRefs * bag.refSize + bag.hashBytes mode = bag.dataSize mode := rfl
  have fewRefs : bag.totalRefs ≤ bag.totalRefs * bag.refSize := Nat.le_mul_of_pos_right _ wide
  constructor
  · intro same
    obtain ⟨refTurns, refFew, refNone, refs⟩ := @Lib.toUInt64_wrapInt bag.totalRefs (by omega)
    obtain ⟨hashTurns, hashFew, hashNone, hashes⟩ := @Lib.toUInt64_wrapInt (bag.hashBytes mode) (by omega)
    have whole := ((refs.mul_right bag.refSize).add_left bag.dataBytes).add hashes
    have turns : bag.dataSize mode + 2 ^ 32 * (refTurns * bag.refSize + hashTurns) ≡ bag.dataSize mode + 0 [MOD 2 ^ 64] := by
      refine Nat.ModEq.trans ?_ whole
      rw [← same, estimatedSize]
      refine ((Nat.mod_modEq _ _).add_right _).trans ?_
      rw [show ∀ bytes refs hashes : Nat, bytes + refs * bag.refSize + hashes + 2 ^ 32 * (refTurns * bag.refSize + hashTurns) =
        bytes + (refs + 2 ^ 32 * refTurns) * bag.refSize + (hashes + 2 ^ 32 * hashTurns) by intros; ring]
    have none := Nat.modEq_zero_iff_dvd.mp (turns.add_left_cancel' _)
    have small : refTurns * bag.refSize ≤ 2 ^ 10 * 4 := Nat.mul_le_mul refFew narrow
    have zero := Nat.eq_zero_of_dvd_of_lt none (by omega)
    have refZero : refTurns * bag.refSize = 0 := by omega
    have noTurn : refTurns = 0 := (Nat.mul_eq_zero.mp refZero).resolve_right (by omega)
    exact ⟨refNone noTurn, hashNone (by omega)⟩
  · rintro ⟨refs, hashes⟩
    rw [estimatedSize, Lib.wrapInt_eq refs, Lib.wrapInt_eq hashes, Lib.toUInt64_natCast (by omega),
      Lib.toUInt64_natCast (by omega), parts, Nat.mod_eq_of_lt (by omega)]

lemma Ready.computeSizes_of_writable (someRoot : roots ≠ []) (writable : bag.Writable mode) :
    computeSizes mode bag.cellCount bag.roots.length bag.dataBytes bag.intRefs bag.intHashes
      bag.topHashes = (bag.refSize, bag.offsetSize mode, bag.dataSize mode) := by
  have fits := ready.headerFits someRoot writable
  have rs := fits.rs_le
  have os := fits.os_le
  have bound := @Ready.dataSize_lt _ _ _ mode ready writable.cells_lt
  have estimated := (@Ready.estimatedSize_eq_iff _ _ _ mode ready someRoot writable.cells_lt).mpr
    ⟨writable.refs_lt, writable.hashes_lt⟩
  have offset : bag.estimatedOffsetSize mode = bag.offsetSize mode := by
    rw [estimatedOffsetSize, estimated, Nat.mod_eq_of_lt (by omega), offsetSize]
  rw [ready.computeSizes_eq someRoot, estimated, offset]
  exact if_neg (show ¬ (bag.refSize > 4 ∨ bag.offsetSize mode > 8) by omega)

end

lemma Writable.flags (writable : bag.Writable mode) : (mode.withCacheBits && !mode.withIndex) = false := by
  cases cached : mode.withCacheBits with
  | false => rfl
  | true => simp [writable.indexed cached]

lemma Ready.estimateInfo_eq (ready : Ready sha roots bag) (someRoot : roots ≠ []) (writable : bag.Writable mode) :
    bag.estimateInfo mode = some (bag.header mode) := by
  unfold estimateInfo
  rw [writable.flags, ready.computeSizes_of_writable someRoot writable]
  simp only [Bool.false_eq_true, ↓reduceIte, ready.dataSize_ne_zero someRoot mode]
  rfl

def written (crc32c : List UInt8 → UInt32) (bag : BagOfCells) (mode : BocMode) : List UInt8 :=
  storeCrc crc32c (bag.header mode) (bagBytes id mode (bag.header mode) bag.cellList bag.roots)

lemma Ready.serialize_eq (ready : Ready sha roots bag) (someRoot : roots ≠ [])
    (writable : bag.Writable mode) (crc32c : List UInt8 → UInt32) :
    bag.serializeToSlice crc32c mode = .ok (bag.written crc32c mode) ∧
      (bag.written crc32c mode).length = bag.estimateSerializedSize mode := by
  have fits := ready.headerFits someRoot writable
  have length : (bag.written crc32c mode).length = (bag.header mode).totalSize := by
    unfold written
    rw [crc_length, ready.layout.bagBytes_length fits]
    rfl
  have rsPos := fits.rs_pos
  have rsLe := fits.rs_le
  have width : (bag.header mode).refByteSize = bag.refSize := rfl
  have wrote := @Layout.writeBag_eq _ _ _ _ _ _ _ _ _ _ (fun cell => cell.dcRef.getSerializedSize)
    ready.layout fits (fun cell => .ok cell.dcRef) (fun _ _ _ => rfl) (fun _ _ => rfl) crc32c
  constructor
  · unfold serializeToSlice
    rw [ready.estimateInfo_eq someRoot writable]
    simp only []
    rw [if_neg (by omega), wrote]
    exact if_pos length
  · unfold estimateSerializedSize
    rw [ready.estimateInfo_eq someRoot writable]
    exact length

/-- A header is computed only for flags that are accepted and references of at most four bytes, and
it has the size that the counters give. -/
lemma Ready.estimateInfo_inv (ready : Ready sha roots bag) (someRoot : roots ≠ []) {info : Info}
    (estimated : bag.estimateInfo mode = some info) :
    (mode.withCacheBits = true → mode.withIndex = true) ∧ bag.cellCount < 256 ^ 4 ∧
      info.cellCount = bag.cellCount ∧ info.refByteSize = bag.refSize ∧ info.dataSize = bag.estimatedSize mode := by
  unfold estimateInfo at estimated
  rw [ready.computeSizes_eq someRoot] at estimated
  split at estimated
  · cases estimated
  next flags =>
    by_cases wide : bag.refSize > 4 ∨ bag.estimatedOffsetSize mode > 8
    · rw [if_pos wide] at estimated
      cases estimated
    · rw [if_neg wide] at estimated
      simp only [] at estimated
      split at estimated
      · cases estimated
      · cases estimated
        refine ⟨fun cached => by simpa [cached] using flags, ?_, rfl, rfl, rfl⟩
        have narrow : bag.refSize ≤ 4 := by omega
        exact (lt_pow_byteWidth bag.cellCount).trans_le (Nat.pow_le_pow_right (by decide) narrow)

lemma Ready.writable_of_serialize (ready : Ready sha roots bag) (someRoot : roots ≠ [])
    {crc32c : List UInt8 → UInt32} {bytes : List UInt8}
    (serialized : bag.serializeToSlice crc32c mode = .ok bytes) : bag.Writable mode := by
  unfold serializeToSlice at serialized
  cases estimated : bag.estimateInfo mode with
  | none =>
    rw [estimated] at serialized
    cases serialized
  | some info =>
    obtain ⟨indexed, few, counted, width, size⟩ := ready.estimateInfo_inv someRoot estimated
    simp only [estimated] at serialized
    split at serialized
    · cases serialized
    obtain ⟨bytes, wrote, _⟩ := Lib.bind_eq_ok.mp serialized
    have whole := ready.layout.size_of_writeBag counted (fun _ _ => rfl) wrote
    rw [size, width] at whole
    obtain ⟨refs, hashes⟩ := (ready.estimatedSize_eq_iff someRoot few).mp (whole.trans (ready.dataSize_eq mode).symm)
    exact ⟨indexed, few, refs, hashes⟩

/-! ### Reading it back -/

/-- What is written is also read: the numbers of cells and roots can be read, and the data is not
shorter than the reader expects. -/
structure RoundTrips (bag : BagOfCells) (mode : BocMode) : Prop where
  writable : bag.Writable mode
  accepted : HeaderAccepted bag.cellList.length bag.roots.length bag.refSize (bag.dataSize mode)

lemma Ready.deserialize_eq (ready : Ready sha roots bag) (someRoot : roots ≠ [])
    (returns : bag.RoundTrips mode) (fewRoots : roots.length < 2 ^ 31) (allowed : roots.length ≤ maxRoots)
    (crc32c : List UInt8 → UInt32) : Boc.deserialize sha crc32c (bag.written crc32c mode) maxRoots = .ok roots := by
  have fits := ready.headerFits someRoot returns.writable
  rw [← ready.roots_length] at fewRoots allowed
  exact ready.layout.deserialize_eq fits returns.accepted fewRoots allowed ready.rootCells crc32c

/-- A bag that is written is read back exactly if it `RoundTrips`. -/
lemma Ready.roundTrips_iff (ready : Ready sha roots bag) (someRoot : roots ≠ [])
    (mode : BocMode) (fewRoots : roots.length < 2 ^ 31) (allowed : roots.length ≤ maxRoots) (crc32c : List UInt8 → UInt32) :
    (∃ bytes returned, bag.serializeToSlice crc32c mode = .ok bytes ∧ Boc.deserialize sha crc32c bytes maxRoots = .ok returned ∧
      returned.map reprHash = roots.map reprHash) ↔ bag.RoundTrips mode := by
  constructor
  · intro ⟨bytes, returned, serialized, deserialized, same⟩
    have writable := ready.writable_of_serialize someRoot serialized
    have wrote := (ready.serialize_eq someRoot writable crc32c).1
    rw [serialized] at wrote
    cases wrote
    have length : returned.length = bag.roots.length := by
      rw [ready.roots_length]
      simpa using congrArg List.length same
    rw [← ready.roots_length] at fewRoots
    exact ⟨writable, ready.layout.accepted_of_deserialize (ready.headerFits someRoot writable) fewRoots deserialized length⟩
  · intro returns
    exact ⟨_, roots, (ready.serialize_eq someRoot returns.writable crc32c).1,
      ready.deserialize_eq someRoot returns fewRoots allowed crc32c, rfl⟩

lemma written_ne_nil (crc32c : List UInt8 → UInt32) (mode : BocMode) : bag.written crc32c mode ≠ [] :=
  storeCrc_bagBytes_ne_nil crc32c id mode (bag.header mode) bag.cellList bag.roots

/-- A bag with one root is never too short: all other cells are referred to. -/
lemma Ready.roundTrips_of_one {root : DataCell} (ready : Ready sha [root] bag)
    (writable : bag.Writable mode) (few : bag.cellCount < 2 ^ 31) : bag.RoundTrips mode := by
  have width : 1 ≤ bag.refSize := byteWidth_pos (ready.cellCount_pos (by simp))
  refine ⟨writable, few, ?_, ?_⟩
  · rw [ready.roots_length]
    exact Nat.one_lt_pow (by omega) (by decide)
  have data := ready.dataBytes_ge
  have met : bag.cellCount ≤ 1 + bag.totalRefs := ready.met
  have refs : bag.cellCount * bag.refSize ≤ bag.refSize + bag.totalRefs * bag.refSize := by
    calc bag.cellCount * bag.refSize ≤ (1 + bag.totalRefs) * bag.refSize :=
          Nat.mul_le_mul_right _ met
      _ = bag.refSize + bag.totalRefs * bag.refSize := by rw [add_mul, one_mul]
  have parts : bag.cellCount * (2 + bag.refSize) = bag.cellCount * 2 + bag.cellCount * bag.refSize := mul_add _ _ _
  show bag.cellCount * (2 + bag.refSize) - bag.refSize ≤ bag.dataSize mode
  unfold dataSize
  omega

end BagOfCells

/-! ### Whole serializations -/

section Serializations

variable {sha : Sha256}

lemma checkRootLevels_ok {roots : List DataCell} (levels : ∀ root ∈ roots, root.getLevel = 0) :
    checkRootLevels roots = .ok () := by
  induction roots with
  | nil => rfl
  | cons root rest ih =>
    rw [checkRootLevels, if_neg (by simpa using levels root (by simp))]
    exact ih (forall_mem_cons.mp levels).2

variable {root : DataCell} {bag : BagOfCells}

lemma stdBocDeserialize_eq {crc32c : List UInt8 → UInt32} {bytes : List UInt8}
    (nonempty : bytes ≠ []) (read : Boc.deserialize sha crc32c bytes 1 = .ok [root])
    (canBeEmpty allowNonzeroLevel : Bool) :
    stdBocDeserialize sha crc32c bytes canBeEmpty allowNonzeroLevel =
      if !allowNonzeroLevel && root.getLevel != 0 then
        .error (.status "bag of cells has a root with non-zero level")
      else .ok (some root) := by
  have full : bytes.isEmpty = false := by simpa using nonempty
  unfold stdBocDeserialize
  rw [full, Bool.false_and]
  simp only [Bool.false_eq_true, ↓reduceIte]
  rw [read, Lib.ok_bind]

lemma rootLevel_allowed {allowNonzeroLevel : Bool} (allowed : allowNonzeroLevel = true ∨ root.getLevel = 0) :
    (!allowNonzeroLevel && root.getLevel != 0) = false := by
  rcases allowed with allow | level
  · rw [allow]
    rfl
  · rw [level, bne_self_eq_false, Bool.and_false]

/-- A list of the cells below some roots, each once. -/
structure Lists (roots cells : List DataCell) : Prop where
  once : cells.Nodup
  mem : ∀ cell, cell ∈ cells ↔ DataCell.Within roots cell

def countRefs (cells : List DataCell) : Nat := (cells.map fun cell => cell.refs.length).sum

/-- The bytes that the bits of the cells take. -/
def contentBytes (cells : List DataCell) : Nat := (cells.map fun cell => (cell.bits.length + 7) / 8).sum

lemma getSerializedSize_false (cell : DataCell) : cell.getSerializedSize false = 2 + (cell.bits.length + 7) / 8 := by
  unfold getSerializedSize
  simp only [Bool.false_eq_true, ↓reduceIte]
  omega

namespace BagOfCells

variable {roots cells : List DataCell}

lemma Ready.totalRefs_eq (ready : Ready sha roots bag) : bag.totalRefs = countRefs bag.cells := by
  unfold totalRefs countRefs BagOfCells.cells
  rw [map_map]
  congr 1
  apply map_congr_left
  intro info member
  obtain ⟨idx, place⟩ := mem_iff_getElem?.mp member
  simpa using congrArg List.length (ready.layout.refs idx info place)

lemma Ready.dataBytes_eq (ready : Ready sha roots bag) :
    bag.dataBytes = 2 * bag.cellCount + contentBytes bag.cells := by
  have each : ∀ info ∈ bag.cellList, info.dcRef.getSerializedSize false = 2 + (info.dcRef.bits.length + 7) / 8 :=
    fun info _ => getSerializedSize_false info.dcRef
  rw [ready.dataBytes, map_congr_left each, sum_map_add]
  unfold contentBytes BagOfCells.cells cellCount
  simp [Function.comp_def, mul_comm]

lemma importCells_lists (distinct : DataCell.HashesDistinct roots) (created : ∀ root ∈ roots, root.Created sha)
    (listed : Lists roots cells) (someRoot : roots ≠ []) :
    ∃ bag, importCells roots = .ok bag ∧ Ready sha roots bag ∧ bag.cells.Perm cells := by
  obtain ⟨imported, bag, _, _, ready, perm, once, within, result⟩ := importCells_eq distinct created
  refine ⟨bag, result.trans (if_neg someRoot), ready, perm.trans ?_⟩
  refine (perm_ext_iff_of_nodup once listed.once).mpr fun cell => ?_
  rw [listed.mem]
  exact ⟨within cell, fun below => perm.mem_iff.mp (ready.mem_cells below)⟩

lemma cellCount_eq (listed : bag.cells.Perm cells) : bag.cellCount = cells.length := by
  rw [← listed.length_eq, BagOfCells.cells, length_map, cellCount]

end BagOfCells

section

variable (imported : importCells [root] = .ok bag) (ready : bag.Ready sha [root])
include imported ready

/-- One root is read back whatever the cells below it are; a root of a level other than zero only
if that is allowed. -/
lemma stdBocDeserialize_stdBocSerialize {mode : BocMode} (writable : bag.Writable mode) (few : bag.cellCount < 2 ^ 31)
    (crc32c : List UInt8 → UInt32) :
    ∃ bytes, stdBocSerialize crc32c root mode = .ok bytes ∧
      bytes.length = bag.estimateSerializedSize mode ∧
      ∀ canBeEmpty allowNonzeroLevel, stdBocDeserialize sha crc32c bytes canBeEmpty allowNonzeroLevel =
        if !allowNonzeroLevel && root.getLevel != 0 then
          .error (.status "bag of cells has a root with non-zero level")
        else .ok (some root) := by
  have returns := ready.roundTrips_of_one writable few
  obtain ⟨serialized, length⟩ := ready.serialize_eq (by simp) writable crc32c
  have read := ready.deserialize_eq (by simp) returns (show 1 < 2 ^ 31 by decide) (le_refl 1) crc32c
  refine ⟨_, ?_, length, stdBocDeserialize_eq (written_ne_nil crc32c mode) read⟩
  unfold stdBocSerialize
  rw [imported, Lib.ok_bind]
  exact serialized

lemma stdBocSerialize_writable {crc32c : List UInt8 → UInt32} {mode : BocMode} {bytes : List UInt8}
    (serialized : stdBocSerialize crc32c root mode = .ok bytes) : bag.Writable mode := by
  unfold stdBocSerialize at serialized
  rw [imported, Lib.ok_bind] at serialized
  exact ready.writable_of_serialize (by simp) serialized

end

/-- The cells below one root are written and read back, unless the source's counters of cells,
references and stored hashes overflow; a root of a level other than zero has to be allowed. -/
theorem stdBoc_roundTrip {root : DataCell} {cells : List DataCell} (created : root.Created sha)
    (distinct : DataCell.HashesDistinct [root])
    (listed : Lists [root] cells)
    (fewCells : cells.length < 2 ^ 31)
    (fewRefs : countRefs cells < 2 ^ 31)
    (crc32c : List UInt8 → UInt32) :
    ∃ bag, importCells [root] = .ok bag ∧ ∀ mode : BocMode, bag.hashBytes mode < 2 ^ 31 →
      ((∃ bytes, stdBocSerialize crc32c root mode = .ok bytes) ↔
        (mode.withCacheBits = true → mode.withIndex = true)) ∧
      ∀ bytes, stdBocSerialize crc32c root mode = .ok bytes →
        bytes.length = bag.estimateSerializedSize mode ∧
        ∀ canBeEmpty allowNonzeroLevel, allowNonzeroLevel = true ∨ root.getLevel = 0 →
          stdBocDeserialize sha crc32c bytes canBeEmpty allowNonzeroLevel = .ok (some root) := by
  obtain ⟨bag, imported, ready, perm⟩ := importCells_lists distinct (forall_mem_singleton.mpr created) listed (by simp)
  refine ⟨bag, imported, ?_⟩
  intro mode hashes
  have few : bag.cellCount < 2 ^ 31 := (cellCount_eq perm).trans_lt fewCells
  have fewer : bag.cellCount < 256 ^ 4 := few.trans (by decide)
  have refs : bag.totalRefs < 2 ^ 31 := (ready.totalRefs_eq.trans (perm.map _).sum_eq).trans_lt fewRefs
  refine ⟨⟨fun ⟨_, serialized⟩ => (stdBocSerialize_writable imported ready serialized).indexed, ?_⟩, ?_⟩
  · intro indexed
    obtain ⟨bytes, serialized, _⟩ :=
      stdBocDeserialize_stdBocSerialize imported ready ⟨indexed, fewer, refs, hashes⟩ few crc32c
    exact ⟨bytes, serialized⟩
  · intro bytes serialized
    have writable := stdBocSerialize_writable imported ready serialized
    obtain ⟨other, again, length, read⟩ := stdBocDeserialize_stdBocSerialize imported ready writable few crc32c
    rw [serialized] at again
    cases again
    refine ⟨length, ?_⟩
    intro canBeEmpty allowNonzeroLevel allowed
    rw [read, rootLevel_allowed allowed]
    rfl

lemma stdBocMulti_iff {roots : List DataCell}
    (imported : importCells roots = .ok bag) (ready : bag.Ready sha roots) (levels : ∀ root ∈ roots, root.getLevel = 0)
    (someRoot : 1 ≤ roots.length) (limit : roots.length ≤ 16384) (mode : BocMode) (crc32c : List UInt8 → UInt32) :
    (∃ bytes returned, stdBocSerializeMulti crc32c roots mode = .ok bytes ∧
      stdBocDeserializeMulti sha crc32c bytes defaultMaxRoots = .ok returned ∧
      returned.map reprHash = roots.map reprHash) ↔ bag.RoundTrips mode := by
  have nonempty : roots ≠ [] := length_pos_iff.mp someRoot
  have fewRoots : roots.length < 2 ^ 31 := lt_of_le_of_lt limit (by decide)
  have serializeEq : stdBocSerializeMulti crc32c roots mode =
      bag.serializeToSlice crc32c mode := by
    unfold stdBocSerializeMulti
    rw [if_neg (by simpa using nonempty), imported, Lib.ok_bind]
  rw [← ready.roundTrips_iff nonempty mode fewRoots limit crc32c, serializeEq]
  constructor
  · intro ⟨bytes, returned, serialized, read, same⟩
    unfold stdBocDeserializeMulti at read
    split at read
    · cases read
      exact absurd (map_eq_nil_iff.mp same.symm) nonempty
    · obtain ⟨cells, deserialized, read⟩ := Lib.bind_eq_ok.mp read
      obtain ⟨_, _, read⟩ := Lib.bind_eq_ok.mp read
      cases read
      exact ⟨bytes, _, serialized, deserialized, same⟩
  · intro ⟨bytes, returned, serialized, deserialized, same⟩
    have returns := (ready.roundTrips_iff nonempty mode fewRoots limit crc32c).mp
        ⟨bytes, returned, serialized, deserialized, same⟩
    have wrote := (ready.serialize_eq nonempty returns.writable crc32c).1
    rw [serialized] at wrote
    cases wrote
    have read := ready.deserialize_eq nonempty returns fewRoots (show roots.length ≤ defaultMaxRoots from limit) crc32c
    refine ⟨_, roots, serialized, ?_, rfl⟩
    have full : (bag.written crc32c mode).isEmpty = false := by
      simpa using written_ne_nil crc32c mode
    unfold stdBocDeserializeMulti
    rw [full, if_neg (by simp), read, Lib.ok_bind, checkRootLevels_ok levels, Lib.ok_bind]

/-- When the cells below some roots are read back. An index has as many bytes as the number of cells
needs; the number of roots has to fit as well, and the reader expects the bytes of an index for each
cell but one. -/
structure ReadBack (roots cells : List DataCell) (mode : BocMode) (hashBytes : Nat) : Prop where
  indexed : mode.withCacheBits = true → mode.withIndex = true
  cells_lt : cells.length < 2 ^ 31
  refs_lt : countRefs cells < 2 ^ 31
  hashes_lt : hashBytes < 2 ^ 31
  roots_lt : roots.length < 256 ^ Boc.byteWidth cells.length
  indices_le : cells.length * Boc.byteWidth cells.length ≤
    Boc.byteWidth cells.length + countRefs cells * Boc.byteWidth cells.length + contentBytes cells + hashBytes

namespace BagOfCells

variable {roots cells : List DataCell}

/-- The numbers of a bag are those of the cells below its roots. -/
lemma Ready.roundTrips_iff_readBack (ready : Ready sha roots bag) (listed : bag.cells.Perm cells) (mode : BocMode) :
    bag.RoundTrips mode ↔ ReadBack roots cells mode (bag.hashBytes mode) := by
  have count := cellCount_eq listed
  have refs : bag.totalRefs = countRefs cells := ready.totalRefs_eq.trans (listed.map _).sum_eq
  have bytes : bag.dataBytes = 2 * cells.length + contentBytes cells := by
    rw [ready.dataBytes_eq, count]
    exact congrArg _ (listed.map _).sum_eq
  have width : bag.refSize = Boc.byteWidth cells.length := by rw [refSize, count]
  have parts : cells.length * (2 + bag.refSize) = cells.length * 2 + cells.length * bag.refSize := mul_add _ _ _
  have size : bag.dataSize mode = 2 * cells.length + contentBytes cells + countRefs cells * bag.refSize + bag.hashBytes mode := by
    rw [dataSize, bytes, refs]
  constructor
  · rintro ⟨⟨indexed, _, refsLt, hashesLt⟩, ⟨cellsLt, rootsLt, sizeGe⟩⟩
    rw [ready.roots_length, width] at rootsLt
    refine ⟨indexed, count ▸ cellsLt, refs ▸ refsLt, hashesLt, rootsLt, ?_⟩
    rw [show bag.cellList.length = cells.length from count] at sizeGe
    rw [← width]
    omega
  · rintro ⟨indexed, cellsLt, refsLt, hashesLt, rootsLt, indicesLe⟩
    rw [← width] at indicesLe
    refine ⟨⟨indexed, by omega, by omega, hashesLt⟩, ⟨count.trans_lt cellsLt, ?_, ?_⟩⟩
    · rwa [ready.roots_length, width]
    · rw [show bag.cellList.length = cells.length from count]
      omega

end BagOfCells

/-- Many roots are written and read back, unless there are too many of them for the bytes that a
cell index has, or too few references and bytes for that many cells, or a counter overflows. -/
theorem stdBocMulti_roundTrip_iff {roots cells : List DataCell}
    (created : ∀ root ∈ roots, root.Created sha)
    (distinct : DataCell.HashesDistinct roots)
    (levels : ∀ root ∈ roots, root.getLevel = 0)
    (someRoot : 1 ≤ roots.length)
    (limit : roots.length ≤ 16384)
    (listed : Lists roots cells)
    (mode : BocMode) (crc32c : List UInt8 → UInt32) :
    ∃ bag, importCells roots = .ok bag ∧
      ((∃ bytes returned, stdBocSerializeMulti crc32c roots mode = .ok bytes ∧
        stdBocDeserializeMulti sha crc32c bytes defaultMaxRoots = .ok returned ∧
        returned.map reprHash = roots.map reprHash) ↔ ReadBack roots cells mode (bag.hashBytes mode)) := by
  obtain ⟨bag, imported, ready, perm⟩ := importCells_lists distinct created listed (length_pos_iff.mp someRoot)
  exact ⟨bag, imported, (stdBocMulti_iff imported ready levels someRoot limit mode crc32c).trans
    (ready.roundTrips_iff_readBack perm mode)⟩

end Serializations

/-! ### Concrete cells -/

def zeroSha : Sha256 where
  digest := fun _ => List.replicate 256 false
  length_digest := fun _ => length_replicate

def emptyCell : DataCell :=
  .mk .ordinary [] []
    { levelMask := 0
      depth := [0, 0, 0, 0]
      hash := List.replicate 4 (List.replicate 256 false) }

def prunedBits : List Bool := longBits 1 8 ++ longBits 1 8 ++ List.replicate 272 false

def prunedCell : DataCell :=
  .mk .prunnedBranch prunedBits []
    { levelMask := 1
      depth := [0, 0, 0, 0]
      hash := List.replicate 4 (List.replicate 256 false) }

def plainMode : BocMode :=
  { withIndex := false
    withCrc32c := false
    withTopHash := false
    withIntHashes := false
    withCacheBits := false }

lemma plainMode_writable {bag : BagOfCells} (cells : bag.cellCount < 256 ^ 4) (refs : bag.totalRefs < 2 ^ 31) :
    bag.Writable plainMode :=
  ⟨nofun, cells, refs, show 0 < 2 ^ 31 by decide⟩

lemma emptyCell_created : emptyCell.Created zeroSha :=
  @DataCell.Created.create zeroSha [] [] false emptyCell (by simp) rfl

set_option maxRecDepth 2000 in
lemma prunedCell_created : prunedCell.Created zeroSha :=
  @DataCell.Created.create zeroSha prunedBits [] true prunedCell (by simp) rfl

lemma DataCell.Within.mem_of_leaves {roots : List DataCell} {cell : DataCell}
    (leaves : ∀ root ∈ roots, root.refs = []) (within : DataCell.Within roots cell) : cell ∈ roots := by
  induction within with
  | root member => exact member
  | ref _ isRef member =>
    rw [leaves _ member] at isRef
    cases isRef

lemma DataCell.hashesDistinct_replicate (leaf : DataCell) (noRefs : leaf.refs = [])
    (count : Nat) : DataCell.HashesDistinct (List.replicate count leaf) := by
  have leaves : ∀ root ∈ List.replicate count leaf, root.refs = [] := by
    intro root member
    rw [eq_of_mem_replicate member]
    exact noRefs
  intro first second firstWithin secondWithin _
  rw [eq_of_mem_replicate (firstWithin.mem_of_leaves leaves), eq_of_mem_replicate (secondWithin.mem_of_leaves leaves)]

def countSha : Sha256 where
  digest := fun data => (List.replicate 256 false).set (data.countP id % 256) true
  length_digest := fun _ => by rw [length_set, length_replicate]

def createdCell (bits : List Bool) (refs : List DataCell) : DataCell :=
  (create countSha bits refs false noHint).toOption.getD emptyCell

lemma createdCell_eq {bits : List Bool} {refs : List DataCell}
    (fits : (create countSha bits refs false noHint).toOption.isSome = true) :
    create countSha bits refs false noHint = .ok (createdCell bits refs) := by
  unfold createdCell
  cases made : create countSha bits refs false noHint with
  | ok cell => rfl
  | error failure =>
    rw [made] at fits
    cases fits

/-! Four cells. The lowest is referred to from three depths, so that it is numbered before one of the
cells that refer to it when cells are numbered breadth first. -/

def leafCell : DataCell := createdCell [] []

def lowCell : DataCell := createdCell [true] [leafCell]

def middleCell : DataCell := createdCell [false] [lowCell, leafCell]

def topCell : DataCell := createdCell [true, true] [middleCell, leafCell]

def sharedCells : List DataCell := [topCell, middleCell, lowCell, leafCell]

lemma sharedCells_eq : create countSha [] [] false noHint = .ok leafCell ∧
    create countSha [true] [leafCell] false noHint = .ok lowCell ∧
    create countSha [false] [lowCell, leafCell] false noHint = .ok middleCell ∧
    create countSha [true, true] [middleCell, leafCell] false noHint = .ok topCell :=
  ⟨createdCell_eq (by decide +kernel), createdCell_eq (by decide +kernel), createdCell_eq (by decide +kernel),
    createdCell_eq (by decide +kernel)⟩

lemma sharedCells_refs : leafCell.refs = [] ∧ lowCell.refs = [leafCell] ∧ middleCell.refs = [lowCell, leafCell] ∧
    topCell.refs = [middleCell, leafCell] := by
  obtain ⟨leaf, low, middle, top⟩ := sharedCells_eq
  exact ⟨(create_fields leaf).2.1, (create_fields low).2.1, (create_fields middle).2.1, (create_fields top).2.1⟩

lemma sharedCells_created : ∀ cell ∈ sharedCells, cell.Created countSha := by
  obtain ⟨leaf, low, middle, top⟩ := sharedCells_eq
  have leafCreated : leafCell.Created countSha := .create (by simp) leaf
  have lowCreated : lowCell.Created countSha := .create (by simpa using leafCreated) low
  have middleCreated : middleCell.Created countSha := .create (by simpa using ⟨lowCreated, leafCreated⟩) middle
  have topCreated : topCell.Created countSha := .create (by simpa using ⟨middleCreated, leafCreated⟩) top
  simpa [sharedCells] using ⟨topCreated, middleCreated, lowCreated, leafCreated⟩

lemma sharedCells_nodup : (sharedCells.map reprHash).Nodup := by decide +kernel

lemma sharedCells_countRefs : countRefs sharedCells = 5 := by decide +kernel

lemma mem_sharedCells {roots : List DataCell} {cell : DataCell} (inside : ∀ root ∈ roots, root ∈ sharedCells)
    (within : DataCell.Within roots cell) : cell ∈ sharedCells := by
  obtain ⟨leaf, low, middle, top⟩ := sharedCells_refs
  induction within with
  | root member => exact inside _ member
  | ref _ isRef member =>
    have closed : ∀ cell ∈ sharedCells, ∀ ref ∈ cell.refs, ref ∈ sharedCells := by
      simp [sharedCells, top, middle, low, leaf]
    exact closed _ member _ isRef

lemma sharedCells_distinct {roots : List DataCell} (inside : ∀ root ∈ roots, root ∈ sharedCells) :
    DataCell.HashesDistinct roots := by
  intro first second firstWithin secondWithin same
  exact inj_on_of_nodup_map sharedCells_nodup (mem_sharedCells inside firstWithin) (mem_sharedCells inside secondWithin) same

lemma sharedCells_lists {roots : List DataCell} (inside : ∀ root ∈ roots, root ∈ sharedCells) (member : topCell ∈ roots) :
    Lists roots sharedCells := by
  obtain ⟨_, low, middle, top⟩ := sharedCells_refs
  have topWithin : DataCell.Within roots topCell := .root member
  have middleWithin : DataCell.Within roots middleCell := .ref topWithin (by simp [top])
  have lowWithin : DataCell.Within roots lowCell := .ref middleWithin (by simp [middle])
  have leafWithin : DataCell.Within roots leafCell := .ref lowWithin (by simp [low])
  have all : ∀ cell ∈ sharedCells, DataCell.Within roots cell := by
    simp [sharedCells, topWithin, middleWithin, lowWithin, leafWithin]
  exact ⟨.of_map _ sharedCells_nodup, fun cell => ⟨all cell, mem_sharedCells inside⟩⟩

theorem stdBoc_roundTrip_shared : topCell.Created countSha ∧ DataCell.HashesDistinct [topCell] ∧
    ∀ mode : BocMode, (mode.withCacheBits = true → mode.withIndex = true) →
      ∃ bytes, stdBocSerialize (fun _ => 0) topCell mode = .ok bytes ∧
        stdBocDeserialize countSha (fun _ => 0) bytes false false = .ok (some topCell) := by
  have created : topCell.Created countSha := sharedCells_created topCell (by simp [sharedCells])
  have distinct : DataCell.HashesDistinct [topCell] := sharedCells_distinct (by simp [sharedCells])
  have listed : Lists [topCell] sharedCells := sharedCells_lists (by simp [sharedCells]) (by simp)
  obtain ⟨bag, imported, returns⟩ :=
    stdBoc_roundTrip created distinct listed (by decide) (by rw [sharedCells_countRefs]; decide) fun _ => 0
  have marked : (importCells [topCell]).map markedHashes = .ok 0 := by decide +kernel
  rw [imported] at marked
  have none : bag.markedHashes = 0 := Except.ok.inj marked
  refine ⟨created, distinct, fun mode indexed => ?_⟩
  have hashes : bag.hashBytes mode < 2 ^ 31 := by simp [hashBytes, none]
  obtain ⟨accepts, read⟩ := returns mode hashes
  obtain ⟨bytes, serialized⟩ := accepts.mpr indexed
  refine ⟨bytes, serialized, (read bytes serialized).2 false false (.inr ?_)⟩
  decide +kernel

/-- With its default arguments the reader rejects what was written for a pruned branch. -/
theorem stdBoc_prunedCell_rejected :
    prunedCell.Created zeroSha ∧ DataCell.HashesDistinct [prunedCell] ∧
      ∃ bytes, stdBocSerialize (fun _ => 0) prunedCell plainMode = .ok bytes ∧
        stdBocDeserialize zeroSha (fun _ => 0) bytes false false =
          .error (.status "bag of cells has a root with non-zero level") := by
  have distinct : DataCell.HashesDistinct [prunedCell] := hashesDistinct_replicate prunedCell rfl 1
  obtain ⟨bag, imported, ready⟩ := importCells_ok distinct (forall_mem_singleton.mpr prunedCell_created) (by simp)
  have counts : (importCells [prunedCell]).map (fun bag => (bag.cellCount, bag.totalRefs)) = .ok (1, 0) := by
    decide +kernel
  rw [imported] at counts
  obtain ⟨one, none⟩ : bag.cellCount = 1 ∧ bag.totalRefs = 0 := by simpa [Except.map] using counts
  obtain ⟨bytes, serialized, _, read⟩ := stdBocDeserialize_stdBocSerialize imported ready (plainMode_writable (by omega) (by omega))
    (by omega) fun _ => 0
  exact ⟨prunedCell_created, distinct, bytes, serialized, read false false⟩

/-- Roots that are given twice or stand below each other. -/
theorem stdBocMulti_roundTrip_shared :
    ∃ bytes returned, stdBocSerializeMulti (fun _ => 0) [topCell, leafCell, topCell, lowCell] plainMode = .ok bytes ∧
      stdBocDeserializeMulti countSha (fun _ => 0) bytes defaultMaxRoots = .ok returned ∧
      returned.map reprHash = [topCell, leafCell, topCell, lowCell].map reprHash := by
  have inside : ∀ root ∈ [topCell, leafCell, topCell, lowCell], root ∈ sharedCells := by simp [sharedCells]
  have levels : ∀ root ∈ [topCell, leafCell, topCell, lowCell], root.getLevel = 0 := by decide +kernel
  obtain ⟨bag, _, returns⟩ := stdBocMulti_roundTrip_iff
    (fun root member => sharedCells_created root (inside root member)) (sharedCells_distinct inside) levels
    (by decide) (by decide) (sharedCells_lists inside (by simp)) plainMode fun _ => 0
  have width : Boc.byteWidth sharedCells.length = 1 := by simp [sharedCells, Boc.byteWidth]
  have refs := sharedCells_countRefs
  refine returns.mpr ⟨nofun, by decide, by rw [refs]; decide, show 0 < 2 ^ 31 by decide, ?_, ?_⟩
  · rw [width]
    decide
  · rw [width, refs]
    have four : sharedCells.length = 4 := rfl
    omega

/-- One cell given 256 times as a root: its index takes one byte, and so does the number of roots,
which is stored as zero. -/
theorem stdBocMulti_repeated_root_lost : (∀ root ∈ List.replicate 256 emptyCell, root.Created zeroSha ∧ root.getLevel = 0) ∧
      DataCell.HashesDistinct (List.replicate 256 emptyCell) ∧
      (∃ bytes, stdBocSerializeMulti (fun _ => 0) (List.replicate 256 emptyCell) plainMode = .ok bytes) ∧ ¬ ∃ bytes returned,
        stdBocSerializeMulti (fun _ => 0) (List.replicate 256 emptyCell) plainMode = .ok bytes ∧
        stdBocDeserializeMulti zeroSha (fun _ => 0) bytes defaultMaxRoots = .ok returned ∧ returned.map reprHash =
          (List.replicate 256 emptyCell).map reprHash := by
  have each : ∀ root ∈ List.replicate 256 emptyCell,
      root.Created zeroSha ∧ root.getLevel = 0 := by
    intro root member
    rw [eq_of_mem_replicate member]
    exact ⟨emptyCell_created, rfl⟩
  have distinct := hashesDistinct_replicate emptyCell rfl 256
  have length : (List.replicate 256 emptyCell).length = 256 := length_replicate
  have counts : (importCells (List.replicate 256 emptyCell)).map (fun bag => (bag.cellCount, bag.totalRefs)) =
      .ok (1, 0) := by
    decide +kernel
  obtain ⟨bag, imported, ready⟩ := importCells_ok distinct
    (fun root member => (each root member).1) (ne_nil_of_length_pos (by rw [length]; decide))
  rw [imported] at counts
  obtain ⟨one, none⟩ : bag.cellCount = 1 ∧ bag.totalRefs = 0 := by simpa [Except.map] using counts
  have width : bag.refSize = 1 := by
    unfold refSize
    rw [one]
    simp [Boc.byteWidth]
  refine ⟨each, distinct, ?_, ?_⟩
  · have writable := @plainMode_writable bag (by omega) (by omega)
    have nonempty : List.replicate 256 emptyCell ≠ [] := ne_nil_of_length_pos (by rw [length]; decide)
    have serialized := (ready.serialize_eq nonempty writable fun _ => 0).1
    refine ⟨bag.written (fun _ => 0) plainMode, ?_⟩
    unfold stdBocSerializeMulti
    rw [if_neg (by simp), imported, Lib.ok_bind]
    exact serialized
  · intro returned
    have returns := (stdBocMulti_iff imported ready (fun root member => (each root member).2)
      (by rw [length]; decide) (by rw [length]; decide) plainMode fun _ => 0).mp returned
    have fewer := returns.accepted.roots_lt
    rw [ready.roots_length, width, length] at fewer
    exact absurd fewer (by decide)

/-! ### Each cell once, references forward

Cells are numbered as they are imported and then numbered again. Serialization
counts the new numbers from the end, so that a reference points to a cell which
is written later. -/

namespace BagOfCells

open Boc Lib

variable {sha : Sha256} {roots : List DataCell} {bag : BagOfCells}

/-- What a bag is once its cells have their final numbers. -/
structure Forward (roots : List DataCell) (bag : BagOfCells) : Prop where
  once : bag.cells.Nodup
  mem : ∀ cell, cell ∈ bag.cells ↔ DataCell.Within roots cell
  few : bag.cellCount < 2 ^ 31
  roots : bag.roots.map (fun root => bag.cellList[root]?.map CellInfo.dcRef) = roots.map some
  refs : ∀ (idx : Nat) (info : CellInfo DataCell), bag.cellList[idx]? = some info →
    info.refIdx.map (fun ref => bag.cellList[ref]?.map CellInfo.dcRef) = info.dcRef.refs.map some
  forward : ∀ (index : Nat) (info : CellInfo DataCell), bag.cellList.reverse[index]? = some info → ∀ ref ∈ info.refIdx,
      index < fileIndex bag.cellCount ref ∧ fileIndex bag.cellCount ref < bag.cellCount
  intRefs : countRefs bag.cells < 2 ^ 31 → bag.intRefs = countRefs bag.cells
  intHashes : bag.markedHashes < 2 ^ 31 → bag.intHashes = bag.markedHashes

lemma Ready.forward (ready : Ready sha roots bag) (once : bag.cells.Nodup)
    (within : ∀ cell ∈ bag.cells, DataCell.Within roots cell) (few : bag.cellCount < 2 ^ 31) : Forward roots bag where
  once := once
  mem := fun cell => ⟨within cell, ready.mem_cells⟩
  few := few
  roots := ready.rootCells
  refs := ready.layout.refs
  forward := by
    intro index info found ref isRef
    obtain ⟨inside, same⟩ := List.getElem?_eq_some_iff.mp found
    rw [List.length_reverse] at inside
    rw [getElem?_reverse inside] at found
    have earlier := ready.layout.earlier _ info found ref isRef
    unfold fileIndex cellCount
    omega
  intRefs := by
    intro small
    rw [ready.intRefs, ready.totalRefs_eq, wrapInt_eq small]
  intHashes := by
    intro small
    rw [ready.intHashes, wrapInt_eq small]

/-- The cells below any roots get numbers under which every reference points forward in the
file, if an `int` can number them. Only a bag without roots is refused. -/
theorem importCells_forward {cells : List DataCell} (distinct : DataCell.HashesDistinct roots)
    (created : ∀ root ∈ roots, root.Created sha)
    (listed : Lists roots cells)
    (few : cells.length < 2 ^ 31) :
    ∃ imported bag, importRoots new roots = .ok imported ∧ imported.reorderCells = .ok bag ∧
      bag.cells.Perm imported.cells ∧ Forward roots bag ∧
      importCells roots =
        if roots = [] then .error (.check "cell_count != 0") else .ok bag := by
  obtain ⟨imported, bag, result, reordered, ready, perm, once, within, returned⟩ := importCells_eq distinct created
  have allWithin : ∀ cell ∈ bag.cells, DataCell.Within roots cell := fun cell member => within cell (perm.mem_iff.mp member)
  have bagOnce := perm.nodup_iff.mpr once
  have fewer : bag.cellCount ≤ cells.length := by
    have included : bag.cells ⊆ cells := fun cell member => (listed.mem cell).mpr (allWithin cell member)
    simpa [BagOfCells.cells, cellCount] using (subperm_of_subset bagOnce included).length_le
  exact ⟨imported, bag, result, reordered, perm, ready.forward bagOnce allWithin (fewer.trans_lt few), returned⟩

theorem importCells_forward_shared : Lists [leafCell, topCell] sharedCells ∧
    ∃ bag, importCells [leafCell, topCell] = .ok bag ∧ Forward [leafCell, topCell] bag ∧ bag.intRefs = 5 := by
  have inside : ∀ root ∈ [leafCell, topCell], root ∈ sharedCells := by simp [sharedCells]
  have listed := sharedCells_lists inside (by simp)
  obtain ⟨_, bag, _, _, _, forward, result⟩ := importCells_forward (sharedCells_distinct inside)
    (fun root member => sharedCells_created root (inside root member)) listed (by decide)
  have imported : importCells [leafCell, topCell] = .ok bag := result.trans (if_neg (by simp))
  have refs : (importCells [leafCell, topCell]).map (fun bag => countRefs bag.cells) = .ok 5 := by decide +kernel
  rw [imported] at refs
  have five : countRefs bag.cells = 5 := Except.ok.inj refs
  refine ⟨listed, bag, imported, forward, ?_⟩
  rw [forward.intRefs (by omega), five]
  rfl

def fourfold (bits : List Bool) (cell : DataCell) : Except String DataCell :=
  create countSha bits (List.replicate 4 cell) false noHint

lemma fourfold_created {bits : List Bool} {cell parent : DataCell}
    (created : cell.Created countSha) (made : fourfold bits cell = .ok parent) : parent.Created countSha :=
  .create (fun _ member => eq_of_mem_replicate member ▸ created) made

/-- Four cells over a pruned branch, each referring four times to the next. One of them is marked
to store hashes, and it has two. -/
theorem intHashes_counts_levels : ∃ root bag, root.Created countSha ∧ importCells [root] = .ok bag ∧
      (bag.cells.map reprHash).Nodup ∧ bag.cellCount = 4 ∧
      bag.cellList.countP CellInfo.isSpecial = 1 ∧ bag.intHashes = 2 := by
  have run : ((do
      let branch ← create countSha prunedBits [] true noHint
      let low ← fourfold [] branch
      let middle ← fourfold [] low
      let root ← fourfold [true] middle
      .ok ((importCells [root]).map fun bag => (decide (bag.cells.map reprHash).Nodup,
        bag.cellCount, bag.cellList.countP CellInfo.isSpecial, bag.intHashes)) :
        Except String _)) = .ok (.ok (true, 4, 1, 2)) := by
    decide +kernel
  obtain ⟨branch, branchMade, run⟩ := bind_eq_ok.mp run
  obtain ⟨low, lowMade, run⟩ := bind_eq_ok.mp run
  obtain ⟨middle, middleMade, run⟩ := bind_eq_ok.mp run
  obtain ⟨root, rootMade, run⟩ := bind_eq_ok.mp run
  have branchCreated : branch.Created countSha := .create (by simp) branchMade
  have rootCreated := fourfold_created (fourfold_created (fourfold_created branchCreated lowMade) middleMade) rootMade
  cases imported : importCells [root] with
  | error failure =>
    rw [imported] at run
    cases run
  | ok bag =>
    rw [imported] at run
    simp only [Except.map, Except.ok.injEq, Prod.mk.injEq, decide_eq_true_eq] at run
    exact ⟨root, bag, rootCreated, imported, run⟩

end BagOfCells

end TonNode.Vm
