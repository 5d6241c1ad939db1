import TonNode.Vm.BocGuarantees
import TonNode.Vm.LargeBocDepths

/-!
# What the large serializer writes is read back
-/

namespace TonNode.Vm

open Boc List Nat LargeBocSerializer LargeBoc

namespace LargeBocSerializer

def doneInfos (slots : List Slot) : List (CellInfo LargeCell) :=
  slots.mapIdx fun idx slot => slot.info idx slot.doneRefs

lemma doneInfos_getElem? (slots : List Slot) (idx : Nat) :
    (doneInfos slots)[idx]? = slots[idx]?.map fun slot => slot.info idx slot.doneRefs :=
  getElem?_mapIdx

lemma filled_map_some (cells : List (CellInfo LargeCell)) : filled (cells.map some) = .ok cells := by
  induction cells with
  | nil => rfl
  | cons info rest ih =>
    rw [map_cons, filled, ih]
    rfl

section Searched

variable {sha : Sha256} {root : DataCell} {depth : Nat} {search : Search} {slots : List Slot}
  {visits : List Nat}

section

variable (represents : Represents search 0 slots) (noCurrent : search.current = []) (noNext : search.next = [])
include represents noCurrent noNext

lemma Represents.all_done {idx : Nat} {slot : Slot} (found : slots[idx]? = some slot) : slot.status = .done slot.doneRefs := by
  cases status : slot.status with
  | done refIdx => rw [Slot.doneRefs, status]
  | waiting =>
    have member := (represents.waiting (slot.entry idx)).mpr ⟨slot, found, status, rfl⟩
    rw [noCurrent] at member
    cases member
  | next =>
    have member := (represents.next (slot.entry idx)).mpr ⟨slot, found, status, rfl⟩
    rw [noNext] at member
    cases member

lemma Represents.cellList_eq : search.boc.cellList = (doneInfos slots).map some := by
  have length : search.boc.cellList.length = slots.length := by
    have places := represents.places
    rw [noNext] at places
    exact places
  apply ext_getElem?
  intro idx
  rw [getElem?_map, doneInfos_getElem?]
  cases found : slots[idx]? with
  | none =>
    have outside := getElem?_eq_none_iff.mp found
    exact getElem?_eq_none_iff.mpr (by omega)
  | some slot =>
    exact (represents.filled idx _).mpr ⟨slot, _, found, represents.all_done noCurrent noNext found, rfl⟩

lemma Represents.dataBytes_eq : search.boc.dataBytes = (slots.map fun slot => slot.cell.getSerializedSize false).sum := by
  rw [represents.dataBytes]
  congr 1
  apply map_congr_left
  intro slot member
  obtain ⟨idx, found⟩ := mem_iff_getElem?.mp member
  rw [Slot.doneSize, represents.all_done noCurrent noNext found]

end

lemma foldl_addWeight_reweighed (cells : List (CellInfo LargeCell)) (indices : List Nat) :
    Reweighed cells (indices.foldl addWeight cells) := by
  induction indices generalizing cells with
  | nil => exact .refl cells
  | cons idx rest ih =>
    have one : Reweighed cells (addWeight cells idx) := by
      unfold addWeight
      split
      · exact .refl cells
      · exact .setWt cells idx _
    exact one.trans (ih _)

/-- What has been imported, with the slots of the search. -/
structure Collected (sha : Sha256) (root : DataCell) (boc : LargeBocSerializer)
    (cells : List (CellInfo LargeCell)) (slots : List Slot) (visits : List Nat) : Prop where
  cellList : boc.cellList = cells.map some
  reweighed : Reweighed (doneInfos slots) cells
  table : ∃ depth, Table sha root depth slots visits
  done : ∀ slot ∈ slots, slot.status = .done slot.doneRefs
  visits_perm : visits.Perm (0 :: slots.flatMap Slot.doneRefs)
  start : cellAt slots 0 = some root
  dataBytes : boc.dataBytes = (slots.map fun slot => slot.cell.getSerializedSize false).sum
  intRefs : boc.intRefs = Lib.wrapInt (slots.flatMap Slot.doneRefs).length

private lemma only_slot {start slot : Slot} {idx : Nat} (found : [start][idx]? = some slot) : idx = 0 ∧ slot = start := by
  cases idx with
  | zero => exact ⟨rfl, (Option.some.inj found).symm⟩
  | succ idx => cases found

private lemma table_start (created : root.Created sha) :
    Table sha root 0 [{ cell := root, status := .waiting, shouldCache := false }] [0] := by
  constructor
  · intro slot member
    rw [mem_singleton.mp member]
    exact created
  · intro slot member
    rw [mem_singleton.mp member]
    exact .root (by simp)
  · intro first second cell firstFound secondFound
    obtain ⟨_, firstLocated, _⟩ := Option.map_eq_some_iff.mp firstFound
    obtain ⟨_, secondLocated, _⟩ := Option.map_eq_some_iff.mp secondFound
    rw [(only_slot firstLocated).1, (only_slot secondLocated).1]
  · intro slot member refIdx done
    rw [mem_singleton.mp member] at done
    cases done
  · intro idx member
    rw [mem_singleton.mp member]
    exact one_pos
  · intro idx inside
    rw [length_singleton] at inside
    have zero : idx = 0 := by omega
    rw [zero]
    decide
  · intro idx slot found
    obtain ⟨rfl, rfl⟩ := only_slot found
    rfl
  · intro slot member _
    rw [mem_singleton.mp member, zero_add]
    exact created.wellFormed.depth_le _
  · intro slot member isNext
    rw [mem_singleton.mp member] at isNext
    cases isNext

/-- Where the import of a tree into an empty bag begins. -/
def startSearch (root : DataCell) : Search where
  boc := .new
  current := [{ hash := root.reprHash, idx := 0, shouldCache := false }]
  next := []
  nextChildIdx := 1

private lemma represents_start (root : DataCell) :
    Represents (withPlaces (startSearch root)) 0 [{ cell := root, status := .waiting, shouldCache := false }] := by
  constructor
  · rfl
  · intro idx info
    constructor
    · intro found
      cases idx <;> cases found
    · intro ⟨slot, refIdx, found, done, _⟩
      rw [mem_singleton.mp (mem_of_getElem? found)] at done
      cases done
  · intro entry
    constructor
    · intro member
      rw [mem_singleton.mp member]
      exact ⟨_, rfl, rfl, rfl⟩
    · intro ⟨slot, found, _, entryEq⟩
      obtain ⟨zero, rfl⟩ := only_slot found
      rw [entryEq, zero]
      exact mem_singleton.mpr rfl
  · intro entry
    constructor
    · intro member
      cases member
    · intro ⟨slot, found, isNext, _⟩
      rw [mem_singleton.mp (mem_of_getElem? found)] at isNext
      cases isNext
  · intro entry member
    cases member
  · exact nodup_singleton _
  · exact nodup_nil
  · rfl
  · intro entry member
    rw [mem_singleton.mp member]
    exact one_pos
  · rfl
  · rfl
  · rfl

variable {boc : LargeBocSerializer} {cells : List (CellInfo LargeCell)} {reader : CellDbReader}

lemma Collected.find_root (collected : Collected sha root boc cells slots visits)
    (distinct : DataCell.HashesDistinct [root]) : boc.find root.reprHash = some 0 := by
  obtain ⟨depth, table⟩ := collected.table
  obtain ⟨rootSlot, rootFound, rootCell⟩ := Option.map_eq_some_iff.mp collected.start
  have located : ∀ (idx : Nat) (info : CellInfo LargeCell),
      boc.cellList[idx]? = some (some info) → ∃ slot, slots[idx]? = some slot ∧
        info.dcRef.hash = slot.cell.reprHash := by
    intro idx info found
    rw [collected.cellList, getElem?_map] at found
    obtain ⟨entry, entryFound, same⟩ := Option.map_eq_some_iff.mp found
    cases same
    obtain ⟨before, wt, original, rfl⟩ := collected.reweighed.source entryFound
    rw [doneInfos_getElem?] at original
    obtain ⟨slot, slotFound, rfl⟩ := Option.map_eq_some_iff.mp original
    exact ⟨slot, slotFound, rfl⟩
  cases found : boc.find root.reprHash with
  | none =>
    have original : (doneInfos slots)[0]? = some (rootSlot.info 0 rootSlot.doneRefs) := by
      rw [doneInfos_getElem?, rootFound]
      rfl
    obtain ⟨wt, entry⟩ := collected.reweighed.entry 0 _ original
    have place : boc.cellList[0]? =
        some (some { rootSlot.info 0 rootSlot.doneRefs with wt := wt }) := by
      rw [collected.cellList, getElem?_map, entry]
      rfl
    exact absurd (congrArg DataCell.reprHash rootCell) (find_none found place)
  | some idx =>
    obtain ⟨info, place, hash⟩ := find_some found
    obtain ⟨slot, slotFound, slotHash⟩ := located idx info place
    have same := table.only distinct slotFound rootFound (by
      rw [← slotHash, hash, rootCell])
    rw [same]

lemma sum_refs_eq (same : Reweighed (doneInfos slots) cells) : ((List.range slots.length).map fun idx =>
      (cells[idx]?.map fun info => info.refIdx.length).getD 0).sum = (slots.flatMap Slot.doneRefs).length := by
  have length : cells.length = slots.length := same.length.trans length_mapIdx
  rw [← length, Reordering.range_map_getD, same.map_eq fun _ _ => rfl, length_flatMap]
  congr 1
  apply ext_getElem?
  intro idx
  rw [getElem?_map, getElem?_map, doneInfos_getElem?, Option.map_map]
  rfl

lemma importCell_ok (created : root.Created sha) (distinct : DataCell.HashesDistinct [root])
    (stores : CellDbReader.Stores reader root) : ∃ boc cells slots visits, importCell reader .new root.reprHash = .ok (0, boc) ∧
      Collected sha root boc cells slots visits := by
  obtain ⟨search, depth, ran, noCurrent, noNext, slots, visits, table, represents, perm, start⟩ :=
    @importDepths_ok sha root 0 (startSearch root) reader stores distinct (Cell.maxDepth + 3) (by omega) (by omega) rfl
      ⟨[{ cell := root, status := .waiting, shouldCache := false }], [0], table_start created, represents_start root, .refl _, rfl⟩
  have done : ∀ slot ∈ slots, slot.status = .done slot.doneRefs := by
    intro slot member
    obtain ⟨idx, found⟩ := mem_iff_getElem?.mp member
    exact represents.all_done noCurrent noNext found
  have cellList := represents.cellList_eq noCurrent noNext
  have length : (doneInfos slots).length = slots.length := length_mapIdx
  have count : search.boc.cellCount = slots.length := by
    have counted := represents.count
    rw [noCurrent, cellList, length_map, length] at counted
    exact counted
  have weights := foldl_addWeight_reweighed (doneInfos slots) (List.range slots.length).reverse
  have all : (List.range slots.length).filter (fun idx => decide (0 ≤ idx)) =
      List.range slots.length := by
    rw [filter_eq_self]
    simp
  have refs := sum_refs_eq weights
  have collected : Collected sha root
      { cellList := ((List.range slots.length).reverse.foldl addWeight (doneInfos slots)).map some
        cellCount := slots.length
        intRefs := Lib.wrapInt (slots.flatMap Slot.doneRefs).length
        dataBytes := search.boc.dataBytes }
      ((List.range slots.length).reverse.foldl addWeight (doneInfos slots)) slots visits :=
    ⟨rfl, weights, ⟨depth, table⟩, done, perm, start, represents.dataBytes_eq noCurrent noNext, rfl⟩
  refine ⟨_, _, slots, visits, ?_, collected⟩
  have found := collected.find_root distinct
  have fresh : new.find root.reprHash = none := rfl
  have start : new.cellCount = 0 := rfl
  unfold importCell
  unfold startSearch at ran
  simp only [fresh, start, zero_add]
  rw [ran]
  simp only [Lib.ok_bind, check, represents.nextChildIdx, count, beq_self_eq_true, ↓reduceIte]
  rw [cellList, filled_map_some, Lib.ok_bind]
  simp only [all, refs, represents.intRefs, zero_add]
  rw [found]

def cellOf (reader : CellDbReader) (root : DataCell) (cell : LargeCell) : DataCell :=
  match reader.loadCell cell.hash with
  | .ok loaded => loaded
  | .error _ => root

def Slot.kept (slot : Slot) : LargeCell :=
  { hash := slot.cell.reprHash, serializedSize := slot.cell.getSerializedSize false }

lemma cellOf_kept (stores : CellDbReader.Stores reader root)
    (table : Table sha root depth slots visits) {slot : Slot} (member : slot ∈ slots) :
    cellOf reader root slot.kept = slot.cell := by
  unfold cellOf
  rw [show reader.loadCell slot.kept.hash = .ok slot.cell from stores slot.cell (table.within slot member)]

def withoutNumber (info : CellInfo LargeCell) : CellInfo LargeCell := { info with newIdx := -1 }

def Slot.plain (slot : Slot) : CellInfo LargeCell := withoutNumber (slot.info 0 slot.doneRefs)

lemma doneInfos_withoutNumber (slots : List Slot) : (doneInfos slots).map withoutNumber = slots.map Slot.plain := by
  apply ext_getElem?
  intro idx
  rw [getElem?_map, getElem?_map, doneInfos_getElem?, Option.map_map]
  rfl

lemma Reweighed.withoutNumber {weighed : List (CellInfo LargeCell)} (same : Reweighed cells weighed) :
    Reweighed (cells.map withoutNumber) (weighed.map withoutNumber) where
  length := by
    rw [length_map, length_map]
    exact same.length
  entry := by
    intro idx info found
    rw [getElem?_map] at found
    obtain ⟨before, located, rfl⟩ := Option.map_eq_some_iff.mp found
    obtain ⟨wt, after⟩ := same.entry idx before located
    refine ⟨wt, ?_⟩
    rw [getElem?_map, after]
    rfl

lemma Collected.imported (collected : Collected sha root boc cells slots visits) (stores : CellDbReader.Stores reader root) :
    Imported sha (cellOf reader root) (slots.map Slot.plain) [0] := by
  obtain ⟨depth, table⟩ := collected.table
  have refs : [0] ++ (slots.map Slot.plain).flatMap CellInfo.refIdx =
      0 :: slots.flatMap Slot.doneRefs := by
    rw [flatMap_map]
    rfl
  have cellsAt : (fun ref : Nat => (slots.map Slot.plain)[ref]?.map fun child =>
      cellOf reader root child.dcRef) = cellAt slots := by
    funext ref
    unfold cellAt
    rw [getElem?_map, Option.map_map]
    cases found : slots[ref]? with
    | none => rfl
    | some slot => exact congrArg some (cellOf_kept stores table (mem_of_getElem? found))
  constructor
  · intro info member
    obtain ⟨slot, _, rfl⟩ := mem_map.mp member
    rfl
  · intro info member
    obtain ⟨slot, _, rfl⟩ := mem_map.mp member
    rfl
  · intro info member
    obtain ⟨slot, slotMember, rfl⟩ := mem_map.mp member
    have same : cellOf reader root slot.plain.dcRef = slot.cell := cellOf_kept stores table slotMember
    rw [same]
    exact table.created slot slotMember
  · intro idx info found
    rw [getElem?_map] at found
    obtain ⟨slot, located, rfl⟩ := Option.map_eq_some_iff.mp found
    have slotMember := mem_of_getElem? located
    have same : cellOf reader root slot.plain.dcRef = slot.cell := cellOf_kept stores table slotMember
    rw [same, cellsAt]
    exact table.refs slot slotMember _ (collected.done slot slotMember)
  · intro idx member
    rw [mem_singleton.mp member, length_map]
    obtain ⟨_, located, _⟩ := Option.map_eq_some_iff.mp collected.start
    exact (List.getElem?_eq_some_iff.mp located).1
  · intro idx inside
    rw [length_map] at inside
    rw [refs, ← collected.visits_perm.count_eq]
    exact table.met idx inside
  · intro idx info found
    rw [getElem?_map] at found
    obtain ⟨slot, located, rfl⟩ := Option.map_eq_some_iff.mp found
    rw [refs, ← collected.visits_perm.count_eq]
    exact table.cache idx slot located

lemma Table.hashes_nodup (table : Table sha root depth slots visits) (distinct : DataCell.HashesDistinct [root]) :
    (slots.map fun slot => slot.cell.reprHash).Nodup := by
  rw [nodup_iff_getElem?_ne_getElem?]
  intro first second before inside same
  rw [length_map] at inside
  have firstFound : slots[first]? = some slots[first] := getElem?_eq_getElem (by omega)
  have secondFound : slots[second]? = some slots[second] := getElem?_eq_getElem inside
  rw [getElem?_map, getElem?_map, firstFound, secondFound] at same
  have equal := table.only distinct firstFound secondFound (Option.some.inj same)
  omega

end Searched

end LargeBocSerializer

lemma Boc.Numbered.placeable {α : Type} {cells current result : List (CellInfo α)}
    {order : List Nat} (numbered : Numbered cells order current) (reordering : Reordering cells order result) :
    Lib.Placeable (fun info : CellInfo α => info.newIdx.toNat) result current := by
  have source : ∀ (idx : Nat) (entry : CellInfo α), current[idx]? = some entry →
      ∃ info, cells[idx]? = some info ∧ entry = renumbered order info (order.idxOf idx) := by
    intro idx entry found
    have inside := lt_of_getElem? found
    rw [numbered.length] at inside
    have original : cells[idx]? = some cells[idx] := List.getElem?_eq_getElem inside
    have same := numbered.entry idx _ original
    rw [found] at same
    exact ⟨_, original, Option.some.inj same⟩
  refine ⟨?_, ?_, ?_⟩
  · rw [numbered.length, reordering.length, reordering.perm.length_eq, length_range]
  · intro entry member
    obtain ⟨idx, found⟩ := mem_iff_getElem?.mp member
    obtain ⟨info, original, rfl⟩ := source idx entry found
    exact reordering.result_at original
  · intro first second left right leftFound rightFound same
    obtain ⟨leftInfo, leftOriginal, rfl⟩ := source first left leftFound
    obtain ⟨rightInfo, _, rfl⟩ := source second right rightFound
    have inside := lt_of_getElem? leftOriginal
    exact (idxOf_inj (reordering.mem_order inside)).mp same

namespace LargeBoc

variable {sha : Sha256} {root : DataCell} {reader : CellDbReader}

/-- The bag with the cells themselves in place of what is kept of them. -/
def withCells (reader : CellDbReader) (root : DataCell) (boc : LargeBoc) : BagOfCells :=
  { cellList := boc.cellList.map (CellInfo.withCell (cellOf reader root))
    intRefs := boc.intRefs
    intHashes := boc.intHashes
    topHashes := boc.topHashes
    dataBytes := boc.dataBytes
    roots := boc.roots }

def kept (info : CellInfo LargeCell) : LargeCell × Nat := (info.dcRef, info.hcnt)

lemma withCells_cellCount (boc : LargeBoc) : (boc.withCells reader root).cellCount = boc.cellCount :=
  length_map _

def totalRefs (boc : LargeBoc) : Nat := (boc.cellList.map fun info => info.refIdx.length).sum

/-- The bytes of the hashes that are stored in a mode. -/
def hashBytes (boc : LargeBoc) (mode : BocMode) : Nat :=
  if mode.withIntHashes then specialHashes boc.cellList * (Cell.hashBytes + Cell.depthBytes) else 0

lemma withCells_totalRefs (boc : LargeBoc) : (boc.withCells reader root).totalRefs = boc.totalRefs := by
  unfold BagOfCells.totalRefs totalRefs withCells
  rw [map_map]
  rfl

/-- A large bag whose cells are in their final order, with the slots of the search. -/
structure Final (sha : Sha256) (reader : CellDbReader) (root : DataCell) (boc : LargeBoc)
    (slots : List LargeBocSerializer.Slot) : Prop where
  ready : BagOfCells.Ready sha [root] (boc.withCells reader root)
  layout : Layout sha (cellOf reader root) boc.cellList boc.roots
  perm : (boc.cellList.map kept).Perm (slots.map fun slot =>
    (slot.kept, LevelMask.getHashesCount slot.cell.getLevelMask))
  loaded : ∀ slot ∈ slots, reader.loadCell slot.cell.reprHash = .ok slot.cell
  within : ∀ slot ∈ slots, DataCell.Within [root] slot.cell
  reached : ∀ cell, DataCell.Within [root] cell → ∃ slot ∈ slots, slot.cell = cell
  nodup : (slots.map fun slot => slot.cell.reprHash).Nodup

lemma reorderCells_ok {boc : LargeBocSerializer} {cells : List (CellInfo LargeCell)}
    {slots : List LargeBocSerializer.Slot} {visits : List Nat}
    (collected : LargeBocSerializer.Collected sha root boc cells slots visits) (distinct : DataCell.HashesDistinct [root])
    (stores : LargeBocSerializer.CellDbReader.Stores reader root) :
    ∃ next, reorderCells boc [0] = .ok next ∧ Final sha reader root next slots := by
  obtain ⟨depth, table⟩ := collected.table
  have same := Reweighed.withoutNumber collected.reweighed
  rw [doneInfos_withoutNumber] at same
  have imported := (collected.imported stores).reweighed same
  have cellOf_plain : ∀ slot ∈ slots, cellOf reader root slot.plain.dcRef = slot.cell :=
    fun slot member => cellOf_kept stores table member
  -- What does not depend on the weights can be read from the slots.
  have sizes : boc.dataBytes = ((cells.map withoutNumber).map fun info =>
      (cellOf reader root info.dcRef).getSerializedSize false).sum := by
    rw [same.map_eq fun _ _ => rfl, map_map, collected.dataBytes]
    congr 1
    apply map_congr_left
    intro slot member
    rw [Function.comp_apply, cellOf_plain slot member]
  have refs : boc.intRefs = Lib.wrapInt ((cells.map withoutNumber).flatMap CellInfo.refIdx).length := by
    rw [flatMap_def, same.map_eq fun _ _ => rfl, ← flatMap_def, flatMap_map]
    exact collected.intRefs
  have hcnt : ∀ info ∈ cells.map withoutNumber, info.hcnt =
      LevelMask.getHashesCount (cellOf reader root info.dcRef).getLevelMask := by
    intro info member
    obtain ⟨idx, found⟩ := mem_iff_getElem?.mp member
    obtain ⟨before, wt, original, rfl⟩ := same.source found
    obtain ⟨slot, slotMember, rfl⟩ := mem_map.mp (mem_of_getElem? original)
    rw [cellOf_plain slot slotMember]
    rfl
  have found : [0].map (fun pos =>
      (cells.map withoutNumber)[pos]?.map fun info =>
        cellOf reader root info.dcRef) = [root].map some := by
    obtain ⟨slot, located, rootCell⟩ := Option.map_eq_some_iff.mp collected.start
    rw [map_singleton, ← getElem?_map, same.map_eq fun _ _ => rfl, map_map,
      getElem?_map, located, Option.map_some, Function.comp_apply, cellOf_plain slot (mem_of_getElem? located), rootCell]
    rfl
  obtain ⟨weighed, state, order, fewer, weights, revisited, reordering, numbered, layout, ready⟩ :=
    imported.ready found hcnt sizes refs
  have sorted := Lib.cycleSort_eq (numbered.placeable reordering)
  have moved : (state.tmp.map kept).Perm (slots.map fun slot =>
      (slot.kept, LevelMask.getHashesCount slot.cell.getLevelMask)) := by
    refine (@Reordering.map_perm _ _ _ _ reordering _ ({ hash := [], serializedSize := 0 }, 0)
      kept kept fun _ _ => rfl).trans (List.Perm.of_eq ?_)
    rw [fewer.reweighed.map_eq fun _ _ => rfl, same.map_eq fun _ _ => rfl, map_map]
    rfl
  refine ⟨{
    cellList := state.tmp
    intRefs := boc.intRefs
    intHashes := Lib.wrapInt (specialHashes weighed)
    topHashes := countTopHashes weighed [0]
    dataBytes := boc.dataBytes
    roots := [0].map (newIdxAt state.cells) }, ?_, ready, layout, moved, ?_, table.within, ?_,
    table.hashes_nodup distinct⟩
  · unfold reorderCells
    rw [collected.cellList, filled_map_some, Lib.ok_bind]
    show computeWeights (cells.map withoutNumber) >>= _ = _
    rw [weights, Lib.ok_bind]
    simp only []
    rw [revisited, Lib.ok_bind, sorted]
  · intro slot member
    exact stores slot.cell (table.within slot member)
  · intro cell within
    obtain ⟨_, member, rfl⟩ := mem_map.mp (ready.mem_cells within)
    obtain ⟨info, infoMember, rfl⟩ := mem_map.mp member
    obtain ⟨slot, slotMember, sameKept⟩ := mem_map.mp (moved.mem_iff.mp (mem_map_of_mem infoMember))
    refine ⟨slot, slotMember, (cellOf_plain slot slotMember).symm.trans ?_⟩
    exact congrArg (fun pair => cellOf reader root pair.1) sameKept

lemma importCells_ok (created : root.Created sha) (distinct : DataCell.HashesDistinct [root])
    (stores : LargeBocSerializer.CellDbReader.Stores reader root) : ∃ boc slots, importCells reader root.reprHash = .ok boc ∧
      Final sha reader root boc slots := by
  obtain ⟨serializer, cells, slots, visits, imported, collected⟩ := importCell_ok created distinct stores
  obtain ⟨boc, reordered, final⟩ := reorderCells_ok collected distinct stores
  have positive := final.ready.cellCount_pos (by simp)
  rw [withCells_cellCount] at positive
  refine ⟨boc, slots, ?_, final⟩
  unfold importCells
  rw [imported]
  simp only [Lib.ok_bind]
  rw [reordered]
  simp [check, ne_nil_of_length_pos positive]

variable {boc : LargeBoc} {slots : List LargeBocSerializer.Slot}
variable {info : CellInfo LargeCell} {mode : BocMode}

section

variable (final : Final sha reader root boc slots) (member : info ∈ boc.cellList)
include final member

lemma Final.slot_of_mem : ∃ slot ∈ slots, info.dcRef = slot.kept ∧ info.hcnt = LevelMask.getHashesCount slot.cell.getLevelMask ∧
      cellOf reader root info.dcRef = slot.cell := by
  have listed := final.perm.mem_iff.mp (mem_map_of_mem member)
  obtain ⟨slot, slotMember, same⟩ := mem_map.mp listed
  have cell : info.dcRef = slot.kept := (congrArg Prod.fst same).symm
  refine ⟨slot, slotMember, cell, (congrArg Prod.snd same).symm, ?_⟩
  rw [cell]
  unfold cellOf
  rw [show reader.loadCell slot.kept.hash = .ok slot.cell from final.loaded slot slotMember]

lemma Final.cellSize_eq (withHashes : Bool) :
    cellSize info withHashes = (cellOf reader root info.dcRef).getSerializedSize withHashes := by
  obtain ⟨slot, _, kept, hcnt, cell⟩ := final.slot_of_mem member
  rw [cell, BagOfCells.getSerializedSize_eq]
  unfold cellSize
  rw [kept, hcnt, mul_comm]
  rfl

lemma Final.load_eq : load reader info = .ok (cellOf reader root info.dcRef) := by
  obtain ⟨slot, slotMember, kept, _, cell⟩ := final.slot_of_mem member
  unfold load
  rw [cell, kept, show reader.loadCell slot.kept.hash = .ok slot.cell from final.loaded slot slotMember]

end

lemma Final.hashBytes_eq (final : Final sha reader root boc slots) :
    (boc.withCells reader root).hashBytes mode = boc.hashBytes mode := by
  have same : (boc.withCells reader root).markedHashes = specialHashes boc.cellList := by
    unfold BagOfCells.markedHashes specialHashes withCells
    rw [map_map]
    congr 1
    apply map_congr_left
    intro info member
    obtain ⟨slot, _, _, hcnt, cell⟩ := final.slot_of_mem member
    simp only [Function.comp_apply, CellInfo.withCell, cell, hcnt]
  unfold BagOfCells.hashBytes hashBytes
  rw [same]

/-- The header is that of the bag with the cells themselves. -/
def header (boc : LargeBoc) (reader : CellDbReader) (root : DataCell) (mode : BocMode) : Info :=
  (boc.withCells reader root).header mode

section

variable (final : Final sha reader root boc slots) (writable : (boc.withCells reader root).Writable mode)
include final writable

lemma Final.headerFits : HeaderFits (cellOf reader root) mode boc.cellList boc.roots
      (boc.header reader root mode) (boc.withCells reader root).refSize ((boc.withCells reader root).offsetSize mode)
      ((boc.withCells reader root).dataSize mode) := by
  have fits := final.ready.headerFits (by simp) writable
  have length : (boc.withCells reader root).cellList.length = boc.cellList.length := withCells_cellCount boc
  exact
    { fits with
      info_eq := by rw [← length]; exact fits.info_eq
      cells_pos := length ▸ fits.cells_pos
      cells_lt := length ▸ fits.cells_lt
      size_eq := by
        refine fits.size_eq.trans ?_
        simp only [withCells]
        rw [map_map]
        rfl }

lemma Final.info_eq : boc.info mode = .ok (boc.header reader root mode) := by
  have count := @withCells_cellCount root reader boc
  have sizes := final.ready.computeSizes_of_writable (by simp) writable
  have size := final.ready.dataSize_ne_zero (by simp) mode
  rw [count] at sizes
  have sizes' : computeSizes mode boc.cellCount boc.roots.length boc.dataBytes boc.intRefs
      boc.intHashes boc.topHashes = _ := sizes
  unfold info
  rw [writable.flags, sizes']
  simp only [Bool.false_eq_true, ↓reduceIte, size]
  rw [← count]
  rfl

end

def written (crc32c : List UInt8 → UInt32) (boc : LargeBoc) (reader : CellDbReader)
    (root : DataCell) (mode : BocMode) : List UInt8 :=
  storeCrc crc32c (boc.header reader root mode)
    (bagBytes (cellOf reader root) mode (boc.header reader root mode) boc.cellList boc.roots)

lemma Final.serialize_eq (final : Final sha reader root boc slots)
    (writable : (boc.withCells reader root).Writable mode) (crc32c : List UInt8 → UInt32) :
    boc.serialize crc32c reader mode = .ok (boc.written crc32c reader root mode) ∧
      (boc.written crc32c reader root mode).length = (boc.header reader root mode).totalSize := by
  have fits := final.headerFits writable
  constructor
  · unfold serialize
    rw [final.info_eq writable, Lib.ok_bind]
    exact final.layout.writeBag_eq fits (fun _ member => final.cellSize_eq member) (fun _ member => final.load_eq member) crc32c
  · unfold written
    rw [crc_length, final.layout.bagBytes_length fits]
    rfl

lemma Final.deserialize_eq (final : Final sha reader root boc slots) (writable : (boc.withCells reader root).Writable mode)
    (few : boc.cellCount < 2 ^ 31) (crc32c : List UInt8 → UInt32) :
    Boc.deserialize sha crc32c (boc.written crc32c reader root mode) 1 = .ok [root] := by
  have count := @withCells_cellCount root reader boc
  have returns := final.ready.roundTrips_of_one writable (by rw [count]; exact few)
  have fits := final.headerFits writable
  have one : boc.roots.length = 1 := final.ready.roots_length
  have accepted : HeaderAccepted boc.cellList.length boc.roots.length
      (boc.withCells reader root).refSize ((boc.withCells reader root).dataSize mode) := by
    have length : (boc.withCells reader root).cellList.length = boc.cellList.length := count
    exact length ▸ returns.accepted
  have rootCells : boc.roots.map (fun idx => boc.cellList[idx]?.map fun entry =>
      cellOf reader root entry.dcRef) = [root].map some := by
    rw [← final.ready.rootCells]
    apply map_congr_left
    intro idx _
    simp only [withCells]
    rw [getElem?_map, Option.map_map]
    rfl
  exact final.layout.deserialize_eq fits accepted (by rw [one]; decide) (by rw [one]) rootCells
    crc32c

end LargeBoc

section Files

variable {sha : Sha256} {root : DataCell} {reader : CellDbReader}

lemma LargeBoc.serialize_flags {boc : LargeBoc} {crc32c : List UInt8 → UInt32} {mode : BocMode}
    (cached : mode.withCacheBits = true) (noIndex : mode.withIndex = false) :
    boc.serialize crc32c reader mode = .error (.status "invalid flags") := by
  unfold serialize info
  rw [cached, noIndex]
  rfl

/-- All cells below a stored root are written once, each before those it refers to, and are read
back, unless the source's counters of cells, references and stored hashes overflow. Cache bits are
only accepted with an index. -/
theorem bocSerializeToFileLarge_roundTrip {cells : List DataCell} (created : root.Created sha)
    (distinct : DataCell.HashesDistinct [root])
    (stores : LargeBocSerializer.CellDbReader.Stores reader root)
    (listed : Lists [root] cells)
    (fewCells : cells.length < 2 ^ 31)
    (crc32c : List UInt8 → UInt32) :
    ∃ boc, importCells reader root.reprHash = .ok boc ∧
      (boc.cellList.map fun info => info.dcRef.hash).Nodup ∧
      (∀ cell, DataCell.Within [root] cell ↔ ∃ info ∈ boc.cellList, load reader info = .ok cell) ∧
      (∀ (idx : Nat) (info : CellInfo LargeCell), boc.cellList[idx]? = some info →
        ∀ ref ∈ info.refIdx, fileIndex boc.cellCount idx < fileIndex boc.cellCount ref) ∧
      (∀ mode : BocMode, boc.totalRefs < 2 ^ 31 → boc.hashBytes mode < 2 ^ 31 →
        (mode.withCacheBits = true → mode.withIndex = true) →
        ∃ header bytes, boc.info mode = .ok header ∧
          bocSerializeToFileLarge crc32c reader root.reprHash mode = .ok bytes ∧
          bytes.length = header.totalSize ∧
          ∀ canBeEmpty allowNonzeroLevel, allowNonzeroLevel = true ∨ root.getLevel = 0 →
            stdBocDeserialize sha crc32c bytes canBeEmpty allowNonzeroLevel = .ok (some root)) ∧
      ∀ mode : BocMode, mode.withCacheBits = true → mode.withIndex = false →
        bocSerializeToFileLarge crc32c reader root.reprHash mode = .error (.status "invalid flags") := by
  obtain ⟨boc, slots, imported, final⟩ := importCells_ok created distinct stores
  have serializeEq : ∀ mode, bocSerializeToFileLarge crc32c reader root.reprHash mode =
      boc.serialize crc32c reader mode := by
    intro mode
    unfold bocSerializeToFileLarge
    rw [imported, Lib.ok_bind]
  have hashes := final.perm.map fun entry => entry.1.hash
  rw [map_map, map_map] at hashes
  have once : (boc.cellList.map fun info => info.dcRef.hash).Nodup := hashes.nodup_iff.mpr final.nodup
  refine ⟨boc, imported, once, ?_, ?_, ?_, ?_⟩
  · intro cell
    constructor
    · intro within
      obtain ⟨slot, member, rfl⟩ := final.reached cell within
      have listed := final.perm.mem_iff.mpr (mem_map_of_mem member)
      obtain ⟨info, infoMember, same⟩ := mem_map.mp listed
      have kept : info.dcRef = slot.kept := congrArg Prod.fst same
      refine ⟨info, infoMember, ?_⟩
      unfold load
      rw [kept, show reader.loadCell slot.kept.hash = .ok slot.cell from final.loaded slot member]
    · intro ⟨info, member, loaded⟩
      obtain ⟨slot, slotMember, _, _, same⟩ := final.slot_of_mem member
      rw [final.load_eq member, same] at loaded
      cases loaded
      exact final.within slot slotMember
  · intro idx info found ref isRef
    have inside := lt_of_getElem? found
    have lower := final.layout.earlier idx info found ref isRef
    unfold fileIndex LargeBoc.cellCount
    omega
  · intro mode refs hashBytes indexed
    have few : boc.cellCount < 2 ^ 31 := by
      have included : (boc.cellList.map fun info => info.dcRef.hash) ⊆ cells.map DataCell.reprHash := by
        intro hash member
        obtain ⟨slot, slotMember, rfl⟩ := mem_map.mp (hashes.mem_iff.mp member)
        exact mem_map_of_mem ((listed.mem _).mpr (final.within slot slotMember))
      have fewer := (subperm_of_subset once included).length_le
      rw [length_map, length_map] at fewer
      exact fewer.trans_lt fewCells
    have writable : (boc.withCells reader root).Writable mode := by
      refine ⟨indexed, ?_, ?_, ?_⟩
      · rw [withCells_cellCount]
        exact few.trans (by decide)
      · rwa [withCells_totalRefs]
      · rwa [final.hashBytes_eq]
    obtain ⟨serialized, length⟩ := final.serialize_eq writable crc32c
    refine ⟨_, _, final.info_eq writable, (serializeEq mode).trans serialized, length, ?_⟩
    intro canBeEmpty allowNonzeroLevel allowed
    have nonempty : boc.written crc32c reader root mode ≠ [] := storeCrc_bagBytes_ne_nil _ _ _ _ _ _
    rw [stdBocDeserialize_eq nonempty (final.deserialize_eq writable few crc32c), rootLevel_allowed allowed]
    rfl
  · intro mode cached noIndex
    rw [serializeEq]
    exact serialize_flags cached noIndex

def sharedReader : CellDbReader where
  loadCell := fun hash =>
    match sharedCells.find? fun cell => cell.reprHash == hash with
    | some cell => .ok cell
    | none => .error "not found"

lemma sharedReader_stores : LargeBocSerializer.CellDbReader.Stores sharedReader topCell := by
  intro cell within
  have member : cell ∈ sharedCells := mem_sharedCells (by simp [sharedCells]) within
  unfold sharedReader
  cases found : sharedCells.find? fun other => other.reprHash == cell.reprHash with
  | none => simpa using find?_eq_none.mp found cell member
  | some other =>
    have same : other.reprHash = cell.reprHash := by simpa using find?_some found
    have equal : other = cell := inj_on_of_nodup_map sharedCells_nodup (mem_of_find?_eq_some found) member same
    simp only [found, equal]

/-- The lowest cell gets a smaller number than one of the cells that refer to it. -/
theorem bocSerializeToFileLarge_roundTrip_shared : topCell.Created countSha ∧ DataCell.HashesDistinct [topCell] ∧
      LargeBocSerializer.CellDbReader.Stores sharedReader topCell ∧ ∃ boc header bytes,
        importCells sharedReader topCell.reprHash = .ok boc ∧
        (boc.cellList.map fun info => info.dcRef.hash).Nodup ∧
        boc.info plainMode = .ok header ∧
        bocSerializeToFileLarge (fun _ => 0) sharedReader topCell.reprHash plainMode = .ok bytes ∧
        bytes.length = header.totalSize ∧
        stdBocDeserialize countSha (fun _ => 0) bytes false false = .ok (some topCell) := by
  have created : topCell.Created countSha := sharedCells_created topCell (by simp [sharedCells])
  have distinct : DataCell.HashesDistinct [topCell] := sharedCells_distinct (by simp [sharedCells])
  have listed : Lists [topCell] sharedCells := sharedCells_lists (by simp [sharedCells]) (by simp)
  obtain ⟨boc, imported, once, _, _, modes, _⟩ :=
    bocSerializeToFileLarge_roundTrip created distinct sharedReader_stores listed (by decide) fun _ => 0
  have counts : (importCells sharedReader topCell.reprHash).map totalRefs = .ok 5 := by decide +kernel
  rw [imported] at counts
  have five : boc.totalRefs = 5 := Except.ok.inj counts
  obtain ⟨header, bytes, sized, serialized, length, read⟩ :=
    modes plainMode (by omega) (show 0 < 2 ^ 31 by decide) (by decide)
  refine ⟨created, distinct, sharedReader_stores, boc, header, bytes, imported, once, sized, serialized, length, ?_⟩
  exact read false false (.inr (by decide +kernel))

/-- Cache bits without an index are refused. -/
theorem bocSerializeToFileLarge_cacheBits_rejected :
    topCell.Created countSha ∧ DataCell.HashesDistinct [topCell] ∧
      LargeBocSerializer.CellDbReader.Stores sharedReader topCell ∧
      bocSerializeToFileLarge (fun _ => 0) sharedReader topCell.reprHash
        { plainMode with withCacheBits := true } = .error (.status "invalid flags") := by
  have created : topCell.Created countSha := sharedCells_created topCell (by simp [sharedCells])
  have distinct : DataCell.HashesDistinct [topCell] := sharedCells_distinct (by simp [sharedCells])
  obtain ⟨boc, _, imported, _⟩ := importCells_ok created distinct sharedReader_stores
  refine ⟨created, distinct, sharedReader_stores, ?_⟩
  unfold bocSerializeToFileLarge
  rw [imported, Lib.ok_bind]
  exact serialize_flags rfl rfl

end Files

end TonNode.Vm
