import TonNode.Lib.CycleSort
import TonNode.Vm.Boc

/-!
# Bags of cells: the serializer for large states

Cells are loaded by hash and numbered breadth first, so that only hashes, sizes and references are
kept. The cells of one depth are processed in the order of their hashes.
-/

namespace TonNode.Vm

/-- The source loads up to four million cells at a time; here they are loaded one by one. -/
structure CellDbReader where
  loadCell : CellHash → Except String DataCell

structure LargeCell where
  hash : CellHash
  serializedSize : Nat

/-- A cell that has a number and is not processed yet. -/
structure DepthHash where
  hash : CellHash
  idx : Nat
  shouldCache : Bool

namespace DepthHash

/-- The order of the source's map: by bytes, the highest bit of a byte first. -/
def hashLt : CellHash → CellHash → Bool
  | [], [] => false
  | [], _ :: _ => true
  | _ :: _, [] => false
  | false :: _, true :: _ => true
  | true :: _, false :: _ => false
  | _ :: first, _ :: second => hashLt first second

def emplace (entry : DepthHash) : List DepthHash → List DepthHash
  | [] => [entry]
  | first :: rest =>
    if hashLt entry.hash first.hash then entry :: first :: rest
    else first :: emplace entry rest

def find (entries : List DepthHash) (hash : CellHash) : Option Nat :=
  (entries.find? fun entry => entry.hash == hash).map DepthHash.idx

def markCached (hash : CellHash) (entries : List DepthHash) : List DepthHash :=
  entries.map fun entry => if entry.hash = hash then { entry with shouldCache := true } else entry

end DepthHash

/-- The serializer; places of `cellList` are filled when the cell with that number is processed.
The source's `cell_count` is an `int`, so that `2 ^ 31` cells or more have no numbers. -/
structure LargeBocSerializer where
  cellList : List (Option (Boc.CellInfo LargeCell))
  cellCount : Nat
  intRefs : Int
  dataBytes : Nat

namespace LargeBocSerializer

open Boc

def new : LargeBocSerializer := { cellList := [], cellCount := 0, intRefs := 0, dataBytes := 0 }

/-- The number of the processed cell with this hash; the source keeps a map from hashes to cells. -/
def find (boc : LargeBocSerializer) (hash : CellHash) : Option Nat :=
  boc.cellList.findIdx? fun slot => (slot.map fun info => info.dcRef.hash == hash).getD false

def markCached (boc : LargeBocSerializer) (idx : Nat) : LargeBocSerializer :=
  { boc with
    cellList := boc.cellList.modify idx (Option.map fun info => { info with shouldCache := true }) }

/-- The state of the search: the cells of the current depth and those of the next. -/
structure Search where
  boc : LargeBocSerializer
  current : List DepthHash
  next : List DepthHash
  nextChildIdx : Nat

/-- A reference is to a cell already processed, to one of the current depth, to one of the next, or
to a new one. -/
def importRef (search : Search) (childHash : CellHash) : Nat × Search :=
  match search.boc.find childHash with
  | some idx => (idx, { search with boc := search.boc.markCached idx })
  | none =>
    match DepthHash.find search.current childHash with
    | some idx => (idx, { search with current := DepthHash.markCached childHash search.current })
    | none =>
      match DepthHash.find search.next childHash with
      | some idx => (idx, { search with next := DepthHash.markCached childHash search.next })
      | none =>
        (search.nextChildIdx,
          { search with
            next := DepthHash.emplace
              { hash := childHash, idx := search.nextChildIdx, shouldCache := false }
              search.next
            nextChildIdx := search.nextChildIdx + 1 })

def importRefs : Search → List DataCell → List Nat × Search
  | search, [] => ([], search)
  | search, child :: rest =>
    let (idx, search) := importRef search child.reprHash
    let (refIdx, search) := importRefs search rest
    (idx :: refIdx, search)

def emplaceCell (search : Search) (cell : DataCell) (refIdx : List Nat) (entry : DepthHash) : Except BocError Search := do
  check (search.boc.find cell.reprHash).isNone "res.second"
  let hcnt := LevelMask.getHashesCount cell.getLevelMask
  check (hcnt ≤ 4) "dc_info.hcnt <= 4"
  let serializedSize := cell.getSerializedSize false
  if serializedSize ≥ 2 ^ 16 then .error (.status "Narrow cast failed")
  let boc := search.boc
  .ok { search with
    boc := { boc with
      cellList := boc.cellList.set entry.idx (some
        { dcRef := { hash := cell.reprHash, serializedSize }
          refIdx
          wt := 0
          hcnt
          newIdx := entry.idx
          shouldCache := entry.shouldCache
          isRootCell := false })
      dataBytes := boc.dataBytes + serializedSize
      cellCount := boc.cellCount + 1 } }

def importError (message : String) : BocError :=
  .status ("error while importing a cell into a bag of cells: " ++ message)

/-- The cell at a position of the current depth. Its flag is read after its references have been
processed. -/
def importEntry (reader : CellDbReader) (search : Search) (position : Nat) : Except BocError Search :=
  match search.current[position]? with
  | none => .ok search
  | some entry =>
    match reader.loadCell entry.hash with
    | .error message => .error (importError message)
    | .ok cell =>
      let (refIdx, search) := importRefs search cell.refs
      match search.current[position]? with
      | none => .ok search
      | some entry => emplaceCell search cell refIdx entry

/-- One depth after the other; `fuel` bounds the depths, of which no more than the check allows are
entered. -/
def importDepths (reader : CellDbReader) : Nat → Search → Nat → Except BocError Search
  | 0, _, _ => .error .outOfFuel
  | fuel + 1, search, currentDepth =>
    if search.current.isEmpty then .ok search
    else if currentDepth > Cell.maxDepth then .error (importError "cell depth too large")
    else do
      let search := { search with
        boc := { search.boc with
          cellList := search.boc.cellList ++ List.replicate search.current.length none } }
      let search ← (List.range search.current.length).foldlM (importEntry reader) search
      importDepths reader fuel { search with current := search.next, next := [] }
        (currentDepth + 1)

def addWeight (cells : List (CellInfo LargeCell)) (idx : Nat) : List (CellInfo LargeCell) :=
  match cells[idx]? with
  | none => cells
  | some info => setWt cells idx (min 0xff (1 + (info.refIdx.map (wtAt cells)).sum))

def filled : List (Option (CellInfo LargeCell)) → Except BocError (List (CellInfo LargeCell))
  | [] => .ok []
  | none :: _ => .error (.check "cell_list[idx]")
  | some info :: rest => do
    let infos ← filled rest
    .ok (info :: infos)

def importCell (reader : CellDbReader) (boc : LargeBocSerializer) (rootHash : CellHash) :
    Except BocError (Nat × LargeBocSerializer) := do
  let startInd := boc.cellCount
  let search : Search :=
    match boc.find rootHash with
    | some idx =>
      { boc := boc.markCached idx
        current := []
        next := []
        nextChildIdx := startInd + 1 }
    | none =>
      { boc
        current := [{ hash := rootHash, idx := startInd, shouldCache := false }]
        next := []
        nextChildIdx := startInd + 1 }
  let search ← importDepths reader (Cell.maxDepth + 3) search 0
  let boc := search.boc
  check (search.nextChildIdx == boc.cellCount) "next_child_idx == cell_count"
  let cells ← filled boc.cellList
  let added := (List.range boc.cellCount).filter fun idx => startInd ≤ idx
  let cells := added.reverse.foldl addWeight cells
  -- counted one by one in the source; the counter wraps as its total does
  let intRefs : Nat := (added.map fun idx => (cells[idx]?.map fun info => info.refIdx.length).getD 0).sum
  let boc := { boc with cellList := cells.map some, intRefs := Lib.wrapInt (boc.intRefs + intRefs) }
  match boc.find rootHash with
  | some idx => .ok (idx, boc)
  | none => .error (.check "root_it != cells.end()")

end LargeBocSerializer

structure LargeBoc where
  cellList : List (Boc.CellInfo LargeCell)
  intRefs : Int
  intHashes : Int
  topHashes : Int
  dataBytes : Nat
  roots : List Nat

namespace LargeBoc

open Boc

def cellCount (boc : LargeBoc) : Nat := boc.cellList.length

def reorderCells (boc : LargeBocSerializer) (roots : List Nat) : Except BocError LargeBoc := do
  let cells ← LargeBocSerializer.filled boc.cellList
  let cells := cells.map fun info => { info with newIdx := -1 }
  let (cells, intHashes) ← computeWeights cells
  let state ← revisitRoots cells roots
  .ok
    { cellList := Lib.cycleSort (fun info => info.newIdx.toNat) state.cells
      intRefs := boc.intRefs
      intHashes
      topHashes := countTopHashes cells roots
      dataBytes := boc.dataBytes
      roots := roots.map (newIdxAt state.cells) }

def importCells (reader : CellDbReader) (rootHash : CellHash) : Except BocError LargeBoc := do
  let (idx, boc) ← LargeBocSerializer.importCell reader .new rootHash
  let boc ← reorderCells boc [idx]
  check (!boc.cellList.isEmpty) "!cell_list.empty()"
  .ok boc

def load (reader : CellDbReader) (info : CellInfo LargeCell) : Except BocError DataCell :=
  match reader.loadCell info.dcRef.hash with
  | .ok cell => .ok cell
  | .error message => .error (.status message)

def cellSize (info : CellInfo LargeCell) (withHash : Bool) : Nat :=
  info.dcRef.serializedSize +
    if withHash then (Cell.hashBytes + Cell.depthBytes) * info.hcnt else 0

def info (boc : LargeBoc) (mode : BocMode) : Except BocError Info :=
  if mode.withCacheBits && !mode.withIndex then .error (.status "invalid flags")
  else
    let (rs, os, dataSize) := computeSizes mode boc.cellCount boc.roots.length boc.dataBytes
      boc.intRefs boc.intHashes boc.topHashes
    if dataSize = 0 then .error (.status "no cells to serialize")
    else .ok (makeInfo mode boc.cellCount boc.roots.length rs os dataSize)

def serialize (crc32c : List UInt8 → UInt32) (reader : CellDbReader) (boc : LargeBoc)
    (mode : BocMode) : Except BocError (List UInt8) := do
  let info ← boc.info mode
  writeBag crc32c mode info boc.roots boc.cellList cellSize (load reader)

end LargeBoc

/-- What is written to the file. -/
def bocSerializeToFileLarge (crc32c : List UInt8 → UInt32) (reader : CellDbReader)
    (rootHash : CellHash) (mode : BocMode) : Except BocError (List UInt8) := do
  let boc ← LargeBoc.importCells reader rootHash
  boc.serialize crc32c reader mode

end TonNode.Vm
