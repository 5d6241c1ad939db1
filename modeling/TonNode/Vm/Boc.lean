import TonNode.Lib.MachineInt
import TonNode.Vm.DataCell

/-!
# Bags of cells: import and serialization

The cells below the roots are imported in post-order and once each, reordered, and written after a
header, the indices of the roots and, if asked for, an index of offsets.
-/

namespace TonNode.Vm

/-! ### Reordering the cells of a bag

Both serializers of bags of cells first number the cells as they meet them, then give each cell a
weight, and renumber the cells so that a cell comes after everything it refers to. What stands for
the cell itself differs between the two and is a parameter here. -/

/-- The exceptions of cell loading and cell construction that are not turned into a status. -/
inductive CellException where
  | cellCreateError
  | vmError
deriving DecidableEq

/-- A returned error, a failed `CHECK` or `DCHECK`, or the end of the fuel that stands for the
call stack. -/
inductive BocError where
  | status (message : String)
  | exception (thrown : CellException)
  | check (condition : String)
  | outOfFuel
deriving DecidableEq

lemma lt_of_getElem? {α : Type} {list : List α} {idx : Nat} {value : α} (found : list[idx]? = some value) :
    idx < list.length :=
  (List.getElem?_eq_some_iff.mp found).1

namespace Boc

/-- The source's `CHECK` and `DCHECK`. -/
def check (condition : Bool) (text : String) : Except BocError Unit :=
  if condition then .ok () else .error (.check text)

structure CellInfo (α : Type) where
  dcRef : α
  refIdx : List Nat
  wt : Nat
  hcnt : Nat
  newIdx : Int
  shouldCache : Bool
  isRootCell : Bool

namespace CellInfo

variable {α : Type}

def isSpecial (info : CellInfo α) : Bool := info.wt == 0

end CellInfo

def maxCellWhs : Nat := 64

section Weights

variable {α : Type}

def wtAt (cells : List (CellInfo α)) (idx : Nat) : Nat := (cells[idx]?.map CellInfo.wt).getD 0

def setWt (cells : List (CellInfo α)) (idx wt : Nat) : List (CellInfo α) :=
  cells.modify idx fun info => { info with wt := wt }

def isLight (cells : List (CellInfo α)) (count : Nat) (child : Nat × Nat) : Bool :=
  wtAt cells child.1 ≤ (maxCellWhs - 1 + child.2) / count

/-- What is left for the children that weigh more than their share is divided between them. -/
def limitHeavy (count : Nat) (state : List (CellInfo α) × Int) (child : Nat × Nat) : List (CellInfo α) × Int :=
  let limit := (state.2 / count).toNat
  (if wtAt state.1 child.1 > limit then setWt state.1 child.1 limit else state.1, state.2 + 1)

def limitChildren (cells : List (CellInfo α)) (idx : Nat) : List (CellInfo α) :=
  match cells[idx]? with
  | none => cells
  | some dci =>
    let children := dci.refIdx.zipIdx
    let count := dci.refIdx.length
    let light := children.filter (isLight cells count)
    let heavy := children.filter fun child => !isLight cells count child
    let sum : Int := (maxCellWhs - 1 : Nat) - ((light.map fun child => wtAt cells child.1).sum : Nat)
    (heavy.foldl (limitHeavy heavy.length) (cells, sum)).1

/-- A cell is weighed with its children, or becomes special and has its hashes stored. -/
def settleWeight (state : List (CellInfo α) × Int) (idx : Nat) : Except BocError (List (CellInfo α) × Int) :=
  match state.1[idx]? with
  | none => .ok state
  | some dci => do
    let sum := 1 + (dci.refIdx.map (wtAt state.1)).sum
    check (sum ≤ maxCellWhs) "sum <= max_cell_whs"
    if sum ≤ dci.wt then .ok (setWt state.1 idx sum, state.2)
    else .ok (setWt state.1 idx 0, Lib.wrapInt (state.2 + dci.hcnt))

def computeWeights (cells : List (CellInfo α)) : Except BocError (List (CellInfo α) × Int) :=
  let limited := (List.range cells.length).reverse.foldl limitChildren cells
  (List.range cells.length).foldlM settleWeight (limited, 0)

/-- The hashes of root cells; no cell is ever marked as one. -/
def countTopHashes (cells : List (CellInfo α)) (roots : List Nat) : Int :=
  roots.foldl
    (fun topHashes idx =>
      match cells[idx]? with
      | some info => if info.isRootCell && info.wt != 0 then Lib.wrapInt (topHashes + info.hcnt) else topHashes
      | none => topHashes)
    0

end Weights

section Revisit

variable {α : Type}

/-- The cells under their old numbers and, in their new order, those that have a new one. -/
structure Revisit (α : Type) where
  cells : List (CellInfo α)
  tmp : List (CellInfo α)

namespace Revisit

def setNewIdx (state : Revisit α) (idx : Nat) (newIdx : Int) : Revisit α :=
  { state with cells := state.cells.modify idx fun info => { info with newIdx := newIdx } }

def setRefIdx (state : Revisit α) (idx : Nat) (refIdx : List Nat) : Revisit α :=
  { state with cells := state.cells.modify idx fun info => { info with refIdx := refIdx } }

def isSpecialAt (state : Revisit α) (idx : Nat) : Bool :=
  (state.cells[idx]?.map CellInfo.isSpecial).getD false

/-- The next number, and with it a place at the end of the new order. -/
def allocate (state : Revisit α) (idx : Nat) (dci : CellInfo α) : Int × Revisit α :=
  let newIdx : Int := state.tmp.length
  (newIdx, { (state.setNewIdx idx newIdx) with tmp := state.tmp ++ [{ dci with newIdx := newIdx }] })

end Revisit

/-- `force` is 0 to previsit a cell, 1 to visit it and give its children numbers, 2 to give it a
number itself. -/
def revisit : Nat → Revisit α → Nat → Nat → Except BocError (Int × Revisit α)
  | 0, _, _, _ => .error .outOfFuel
  | fuel + 1, state, idx, force =>
    match state.cells[idx]? with
    | none => .error (.check "cell_idx >= 0 && cell_idx < cell_count")
    | some dci =>
      if dci.newIdx ≥ 0 then .ok (dci.newIdx, state)
      else
        match force with
        | 0 =>
          if dci.newIdx ≠ -1 then .ok (dci.newIdx, state)
          else do
            let state ← dci.refIdx.reverse.foldlM
              (fun state child =>
                (revisit fuel state child (state.isSpecialAt child).toNat).map Prod.snd)
              state
            .ok (-2, state.setNewIdx idx (-2))
        | 1 =>
          if dci.newIdx = -3 then .ok (-3, state)
          else do
            let state ←
              (if dci.isSpecial then (revisit fuel state idx 0).map Prod.snd else .ok state)
            let state ← dci.refIdx.reverse.foldlM
              (fun state child => (revisit fuel state child 1).map Prod.snd) state
            let (refIdx, state) ← dci.refIdx.reverse.foldlM
              (fun (collected : List Nat × Revisit α) child =>
                (revisit fuel collected.2 child 2).map fun (newIdx, state) =>
                  (newIdx.toNat :: collected.1, state))
              ([], state)
            .ok (-3, (state.setRefIdx idx refIdx).setNewIdx idx (-3))
        | _ => .ok (state.allocate idx dci)

/-- Enough for the deepest tree of cells: a visit may previsit the same cell first. -/
def revisitFuel : Nat := 2 * Cell.maxDepth + 2

def visitRoot (state : Revisit α) (idx : Nat) : Except BocError (Revisit α) := do
  let (_, state) ← revisit revisitFuel state idx 0
  let (_, state) ← revisit revisitFuel state idx 1
  .ok state

def allocateRoot (state : Revisit α) (idx : Nat) : Except BocError (Revisit α) := do
  let (_, state) ← revisit revisitFuel state idx 2
  .ok state

def newIdxAt (cells : List (CellInfo α)) (idx : Nat) : Nat :=
  (cells[idx]?.map fun info => info.newIdx.toNat).getD 0

def revisitRoots (cells : List (CellInfo α)) (roots : List Nat) : Except BocError (Revisit α) := do
  let visited ← roots.foldlM visitRoot { cells, tmp := [] }
  let state ← roots.foldlM allocateRoot visited
  check (state.tmp.length == cells.length) "rv_idx == cell_count"
  .ok state

end Revisit

end Boc

/-! ### Import and serialization -/

namespace Cell

def maxBytes : Nat := 128

def maxSerializedBytes : Nat := 2 + maxBytes + (maxLevel + 1) * (hashBytes + depthBytes)

end Cell

namespace DataCell

def getSerializedSize (cell : DataCell) (withHashes : Bool) : Nat :=
  (cell.bits.length + 23) / 8 +
    (if withHashes then
      LevelMask.getHashesCount cell.getLevelMask * (Cell.hashBytes + Cell.depthBytes)
    else 0)

def significantLevels (cell : DataCell) : List Nat :=
  (List.range (cell.getLevel + 1)).filter (LevelMask.isSignificant cell.getLevelMask)

def constructD1 (cell : DataCell) : Nat :=
  CellChecker.descriptor1 cell.refs.length cell.isSpecial (LevelMask.apply cell.getLevelMask Cell.maxLevel)

def constructD2 (cell : DataCell) : Nat := cell.bits.length / 8 + (cell.bits.length + 7) / 8

def storedHashes (cell : DataCell) : List UInt8 :=
  cell.significantLevels.flatMap (fun level => Lib.packBytes Cell.hashBytes (cell.getHash level)) ++
    cell.significantLevels.flatMap fun level => Lib.storeUint (cell.getDepth level) Cell.depthBytes

/-- The bytes of a cell without its references; none if they would not fit the buffer. -/
def serialize (cell : DataCell) (withHashes : Bool) : List UInt8 :=
  if cell.getSerializedSize withHashes > Cell.maxSerializedBytes then []
  else
    [UInt8.ofNat (cell.constructD1 + withHashes.toNat * 16), UInt8.ofNat cell.constructD2] ++
      (if withHashes then cell.storedHashes else []) ++ Lib.packBits cell.bits

end DataCell

structure BocMode where
  withIndex : Bool
  withCrc32c : Bool
  withTopHash : Bool
  withIntHashes : Bool
  withCacheBits : Bool

namespace Boc

def byteWidth (value : Nat) : Nat := if value = 0 then 0 else byteWidth (value / 256) + 1

structure Info where
  magic : Nat
  rootCount : Nat
  cellCount : Nat
  absentCount : Nat
  refByteSize : Nat
  offsetByteSize : Nat
  hasIndex : Bool
  hasRoots : Bool
  hasCrc32c : Bool
  hasCacheBits : Bool
  rootsOffset : Nat
  indexOffset : Nat
  dataOffset : Nat
  dataSize : Nat
  totalSize : Nat

def bocIdx : Nat := 0x68ff65f3
def bocIdxCrc32c : Nat := 0xacc3a728
def bocGeneric : Nat := 0xb5ee9c72

/-- The reference size, the offset size and the data size; zeros for nothing to write. The bytes of
the hashes are a product of `int`s, which is converted afterwards. -/
def computeSizes (mode : BocMode) (cellCount rootCount dataBytes : Nat) (intRefs intHashes topHashes : Int) :
    Nat × Nat × Nat :=
  if rootCount = 0 ∨ dataBytes = 0 then (0, 0, 0)
  else
    let rs := byteWidth cellCount
    let stored := Lib.wrapInt ((if mode.withTopHash then topHashes else 0) +
      (if mode.withIntHashes then intHashes else 0))
    let hashes := Lib.toUInt64 (Lib.wrapInt (stored * (Cell.hashBytes + Cell.depthBytes : Nat)))
    let dataBytesAdj := (dataBytes + Lib.toUInt64 intRefs * rs + hashes) % 2 ^ 64
    let os := byteWidth (if mode.withCacheBits then dataBytesAdj * 2 % 2 ^ 64 else dataBytesAdj)
    if rs > 4 ∨ os > 8 then (0, 0, 0) else (rs, os, dataBytesAdj)

def makeInfo (mode : BocMode) (cellCount rootCount rs os dataSize : Nat) : Info :=
  let rootsOffset := 4 + 1 + 1 + 3 * rs + os
  let indexOffset := rootsOffset + rootCount * rs
  let dataOffset := indexOffset + if mode.withIndex then cellCount * os else 0
  { magic := bocGeneric
    rootCount
    cellCount
    absentCount := 0
    refByteSize := rs
    offsetByteSize := os
    hasIndex := mode.withIndex
    hasRoots := true
    hasCrc32c := mode.withCrc32c
    hasCacheBits := mode.withCacheBits
    rootsOffset
    indexOffset
    dataOffset
    dataSize
    totalSize := dataOffset + dataSize + if mode.withCrc32c then 4 else 0 }

section Writer

variable {α : Type}

def flagsByte (info : Info) : Nat :=
  info.hasIndex.toNat * 128 + info.hasCrc32c.toNat * 64 + info.hasCacheBits.toNat * 32 + info.refByteSize

def storeHeader (info : Info) : List UInt8 :=
  Lib.storeUint info.magic 4 ++ Lib.storeUint (flagsByte info) 1 ++
    Lib.storeUint info.offsetByteSize 1 ++ Lib.storeUint info.cellCount info.refByteSize ++
    Lib.storeUint info.rootCount info.refByteSize ++ Lib.storeUint 0 info.refByteSize ++
    Lib.storeUint info.dataSize info.offsetByteSize

def fileIndex (cellCount idx : Nat) : Nat := cellCount - 1 - idx

def storeRoots (info : Info) : List Nat → Except BocError (List UInt8)
  | [] => .ok []
  | idx :: rest => do
    check (idx < info.cellCount) "k >= 0 && k < cell_count"
    let stored ← storeRoots info rest
    .ok (Lib.storeUint (fileIndex info.cellCount idx) info.refByteSize ++ stored)

def withHash (mode : BocMode) (cell : CellInfo α) : Bool :=
  (mode.withIntHashes && cell.wt == 0) || (cell.isRootCell && mode.withTopHash)

/-- The offsets at which the cells end, and the last of them. `cellSize` is the size of a cell
without its references. -/
def storeIndex (mode : BocMode) (info : Info) (cellSize : CellInfo α → Bool → Nat) :
    Nat → List (CellInfo α) → List UInt8 × Nat
  | offs, [] => ([], offs)
  | offs, cell :: rest =>
    let offs := offs + cellSize cell (withHash mode cell) + cell.refIdx.length * info.refByteSize
    let fixed := if info.hasCacheBits then offs * 2 + cell.shouldCache.toNat else offs
    let (stored, last) := storeIndex mode info cellSize offs rest
    (Lib.storeUint fixed info.offsetByteSize ++ stored, last)

def storeRefs (info : Info) (index : Nat) : List Nat → Except BocError (List UInt8)
  | [] => .ok []
  | idx :: rest => do
    check (fileIndex info.cellCount idx > index && idx < info.cellCount) "k > i && k < cell_count"
    let stored ← storeRefs info index rest
    .ok (Lib.storeUint (fileIndex info.cellCount idx) info.refByteSize ++ stored)

def storeCells (mode : BocMode) (info : Info) (load : CellInfo α → Except BocError DataCell) :
    Nat → List (CellInfo α) → Except BocError (List UInt8)
  | _, [] => .ok []
  | index, cell :: rest => do
    let dc ← load cell
    check (dc.refs.length == cell.refIdx.length) "dc->size_refs() == dc_info.ref_num"
    let refs ← storeRefs info index cell.refIdx
    let stored ← storeCells mode info load (index + 1) rest
    .ok (dc.serialize (withHash mode cell) ++ refs ++ stored)

def bswap32 (value : Nat) : Nat :=
  ((value % 256 * 256 + value / 256 % 256) * 256 + value / 256 / 256 % 256) * 256 + value / 256 / 256 / 256 % 256

def storeCrc (crc32c : List UInt8 → UInt32) (info : Info) (bytes : List UInt8) : List UInt8 :=
  if info.hasCrc32c then bytes ++ Lib.storeUint (bswap32 (crc32c bytes).toNat) 4 else bytes

def writeBag (crc32c : List UInt8 → UInt32) (mode : BocMode) (info : Info) (roots : List Nat)
    (cellList : List (CellInfo α)) (cellSize : CellInfo α → Bool → Nat)
    (load : CellInfo α → Except BocError DataCell) : Except BocError (List UInt8) := do
  let storedRoots ← storeRoots info roots
  let header := storeHeader info ++ storedRoots
  check (header.length == info.indexOffset) "writer.position() == info.index_offset"
  check (info.cellCount == cellList.length) "cell_count == cell_list_.size()"
  let (index, offs) := storeIndex mode info cellSize 0 cellList.reverse
  check (!info.hasIndex || offs == info.dataSize) "offs == info.data_size"
  let start := header ++ if info.hasIndex then index else []
  check (start.length == info.dataOffset) "writer.position() == info.data_offset"
  let cells ← storeCells mode info load 0 cellList.reverse
  check (cells.length == info.dataSize) "writer.position() - keep_position == info.data_size"
  let written := storeCrc crc32c info (start ++ cells)
  check (written.length == info.totalSize) "writer.empty()"
  .ok written

end Writer

end Boc

/-- The source's `cell_count` is the length of the list, also an `int`: a bag of `2 ^ 31` cells or
more is none that the source can number. -/
structure BagOfCells where
  cellList : List (Boc.CellInfo DataCell)
  intRefs : Int
  intHashes : Int
  topHashes : Int
  dataBytes : Nat
  roots : List Nat

namespace BagOfCells

open Boc

def new : BagOfCells :=
  { cellList := [], intRefs := 0, intHashes := 0, topHashes := 0, dataBytes := 0, roots := [] }

def cellCount (bag : BagOfCells) : Nat := bag.cellList.length

/-- The position of the cell with this hash; the source keeps a map from hashes to positions. -/
def find (bag : BagOfCells) (hash : CellHash) : Option Nat :=
  bag.cellList.findIdx? fun info => info.dcRef.reprHash == hash

def markCached (bag : BagOfCells) (pos : Nat) : BagOfCells :=
  { bag with cellList := bag.cellList.modify pos fun info => { info with shouldCache := true } }

/-- A new cell at the end of the list; the weights of its children are not changed by importing
others. -/
def addCell (bag : BagOfCells) (cell : DataCell) (refIdx : List Nat) : BagOfCells :=
  let sumChildWt := 1 + (refIdx.map (wtAt bag.cellList)).sum
  { bag with
    cellList := bag.cellList ++
      [{ dcRef := cell
         refIdx
         wt := min 0xff sumChildWt
         hcnt := LevelMask.getHashesCount cell.getLevelMask
         newIdx := -1
         shouldCache := false
         isRootCell := false }]
    dataBytes := bag.dataBytes + cell.getSerializedSize false }

mutual

def importCell (bag : BagOfCells) (depth : Nat) : DataCell → Except BocError (Nat × BagOfCells)
  | .mk specialType bits refs info =>
    if depth > Cell.maxDepth then
      .error (.status
        "error while importing a cell into a bag of cells: cell depth too large")
    else
      match bag.find (DataCell.mk specialType bits refs info).reprHash with
      | some pos => .ok (pos, bag.markCached pos)
      | none => do
        let (refIdx, bag) ← importRefs bag (depth + 1) refs
        .ok (bag.cellCount, bag.addCell (.mk specialType bits refs info) refIdx)

def importRefs (bag : BagOfCells) (depth : Nat) :
    List DataCell → Except BocError (List Nat × BagOfCells)
  | [] => .ok ([], bag)
  | ref :: rest => do
    let (pos, bag) ← importCell bag depth ref
    let (refIdx, bag) ← importRefs { bag with intRefs := Lib.wrapInt (bag.intRefs + 1) } depth rest
    .ok (pos :: refIdx, bag)

end

def importRoots (bag : BagOfCells) : List DataCell → Except BocError BagOfCells
  | [] => .ok bag
  | root :: rest => do
    let (pos, bag) ← importCell bag 0 root
    importRoots { bag with roots := bag.roots ++ [pos] } rest

def reorderCells (bag : BagOfCells) : Except BocError BagOfCells := do
  let (cells, intHashes) ← computeWeights bag.cellList
  let state ← revisitRoots cells bag.roots
  .ok { bag with
    intHashes
    topHashes := countTopHashes cells bag.roots
    roots := bag.roots.map (newIdxAt state.cells)
    cellList := state.tmp }

def importCells (roots : List DataCell) : Except BocError BagOfCells := do
  let bag ← importRoots new roots
  let bag ← bag.reorderCells
  check (bag.cellCount != 0) "cell_count != 0"
  .ok bag

/-- The header of the bag, or nothing if it cannot be serialized in this mode. -/
def estimateInfo (bag : BagOfCells) (mode : BocMode) : Option Info :=
  if mode.withCacheBits && !mode.withIndex then none
  else
    let (rs, os, dataSize) := computeSizes mode bag.cellCount bag.roots.length bag.dataBytes
      bag.intRefs bag.intHashes bag.topHashes
    if dataSize = 0 then none
    else some (makeInfo mode bag.cellCount bag.roots.length rs os dataSize)

def estimateSerializedSize (bag : BagOfCells) (mode : BocMode) : Nat :=
  match bag.estimateInfo mode with
  | some info => info.totalSize
  | none => 0

def serializeToSlice (crc32c : List UInt8 → UInt32) (bag : BagOfCells) (mode : BocMode) : Except BocError (List UInt8) :=
  match bag.estimateInfo mode with
  | none => .error (.status "no cells to serialize to this bag of cells")
  | some info => do
    let sizeDiffers := BocError.status
      "error while serializing a bag of cells: actual serialized size differs from estimated"
    if info.refByteSize < 1 ∨ info.refByteSize > 7 then .error sizeDiffers
    let written ← writeBag crc32c mode info bag.roots bag.cellList
      (fun cell => cell.dcRef.getSerializedSize) fun cell => .ok cell.dcRef
    if written.length = info.totalSize then .ok written else .error sizeDiffers

end BagOfCells

def stdBocSerialize (crc32c : List UInt8 → UInt32) (root : DataCell) (mode : BocMode) : Except BocError (List UInt8) := do
  let bag ← BagOfCells.importCells [root]
  bag.serializeToSlice crc32c mode

def stdBocSerializeMulti (crc32c : List UInt8 → UInt32) (roots : List DataCell) (mode : BocMode) : Except BocError (List UInt8) :=
  if roots.isEmpty then .ok []
  else do
    let bag ← BagOfCells.importCells roots
    bag.serializeToSlice crc32c mode

end TonNode.Vm
