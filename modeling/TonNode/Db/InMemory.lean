import TonNode.Lib.KeyedList
import TonNode.Lib.MachineInt
import TonNode.Vm.DataCell

/-!
# The in-memory cell database

All cells stay in memory with their reference counts. Roots are added when they are prepared for a
commit and removed when their cell is erased; a database that is created from a key-value store
takes for roots the cells that are counted more often than other cells refer to them.

Reference counts and their changes are 32-bit integers. Where the source adds two of them without
a check, the sum wraps.
-/

namespace TonNode.Db

open Vm

/-! ### Cells in a key-value store

A value holds a reference count, the contents of a cell and the hashes of its references, or a
whole bag of cells. A merge adds to the count of a value that is already there. -/

structure StoredCell where
  refcnt : Int
  cell : DataCell
  storedBoc : Bool

def StoredCell.key (stored : StoredCell) : CellHash := stored.cell.reprHash

def StoredCell.addRefcnt (refcntDiff : Int) (stored : StoredCell) : StoredCell :=
  { stored with refcnt := Lib.wrapInt (stored.refcnt + refcntDiff) }

abbrev KeyValue := List StoredCell

namespace CellStorer

def erase (kv : KeyValue) (hash : CellHash) : KeyValue := Lib.discard StoredCell.key hash kv

def set (kv : KeyValue) (refcnt : Int) (cell : DataCell) (asBoc : Bool) : Except String KeyValue :=
  if !asBoc && decide (refcnt ≤ 0) then .error "refcnt_ > 0"
  else .ok (erase kv cell.reprHash ++ [{ refcnt, cell, storedBoc := asBoc }])

def merge (kv : KeyValue) (hash : CellHash) (refcntDiff : Int) : Except String KeyValue :=
  match Lib.lookup StoredCell.key kv hash with
  | none => .error "left.size() > 4"
  | some stored =>
    if Lib.wrapInt (stored.refcnt + refcntDiff) ≤ 0 then .error "new_refcnt > 0"
    else .ok (Lib.change StoredCell.key hash (StoredCell.addRefcnt refcntDiff) kv)

end CellStorer

/-! ### The database -/

/-- The sizes of the two parts of a cell in memory. -/
structure Layout where
  dataCell : Nat
  levelInfo : Nat

def getStorageSize (layout : Layout) (cell : DataCell) : Nat :=
  layout.dataCell + layout.levelInfo * (cell.getLevel + 1) + (cell.bits.length + 7) / 8

structure CellInfo where
  dbRefcnt : Int
  cell : DataCell

def CellInfo.key (info : CellInfo) : CellHash := info.cell.reprHash

def CellInfo.setRefcnt (refcnt : Int) (info : CellInfo) : CellInfo :=
  { info with dbRefcnt := refcnt }

structure Stats where
  rootsTotalCount : Int
  cellsTotalCount : Int
  cellsTotalSize : Int
deriving DecidableEq

namespace Stats

def empty : Stats := { rootsTotalCount := 0, cellsTotalCount := 0, cellsTotalSize := 0 }

def applyDiff (stats diff : Stats) : Except String Stats :=
  let next : Stats :=
    { rootsTotalCount := stats.rootsTotalCount + diff.rootsTotalCount
      cellsTotalCount := stats.cellsTotalCount + diff.cellsTotalCount
      cellsTotalSize := stats.cellsTotalSize + diff.cellsTotalSize }
  if next.rootsTotalCount < 0 then .error "roots_total_count >= 0"
  else if next.cellsTotalCount < 0 then .error "cells_total_count >= 0"
  else if next.cellsTotalSize < 0 then .error "cells_total_size >= 0"
  else .ok next

end Stats

/-- `roots` is the copy of `localRoots` for other threads. -/
structure CellStorage where
  infos : List CellInfo
  localRoots : List DataCell
  roots : List DataCell
  stats : Stats

namespace CellStorage

def getInfo (storage : CellStorage) (hash : CellHash) : Option CellInfo :=
  Lib.lookup CellInfo.key storage.infos hash

def loadRootLocal (storage : CellStorage) (hash : CellHash) : Except String DataCell :=
  match Lib.lookup DataCell.reprHash storage.localRoots hash with
  | some root => .ok root
  | none => .error "not found"

def eraseRoot (storage : CellStorage) (hash : CellHash) : Except String CellStorage :=
  match Lib.lookup DataCell.reprHash storage.localRoots hash with
  | none => .ok storage
  | some _ =>
    if (Lib.lookup DataCell.reprHash storage.roots hash).isNone then
      .error "shared_it != roots_.end()"
    else if storage.stats.rootsTotalCount ≤ 0 then .error "stats_.roots_total_count > 0"
    else .ok { storage with
      localRoots := Lib.discard DataCell.reprHash hash storage.localRoots
      roots := Lib.discard DataCell.reprHash hash storage.roots
      stats := { storage.stats with
        rootsTotalCount := storage.stats.rootsTotalCount - 1 } }

def erase (storage : CellStorage) (hash : CellHash) : Except String CellStorage :=
  match storage.getInfo hash with
  | none => .error "it != ht_.end()"
  | some _ =>
    { storage with infos := Lib.discard CellInfo.key hash storage.infos }.eraseRoot hash

/-- A set keeps the root that it already has. -/
def insertRoot (roots : List DataCell) (cell : DataCell) : List DataCell :=
  match Lib.lookup DataCell.reprHash roots cell.reprHash with
  | some _ => roots
  | none => roots ++ [cell]

def addNewRoot (storage : CellStorage) (cell : DataCell) : CellStorage :=
  match Lib.lookup DataCell.reprHash storage.localRoots cell.reprHash with
  | some _ => storage
  | none =>
    { storage with
      localRoots := insertRoot storage.localRoots cell
      roots := insertRoot storage.roots cell
      stats := { storage.stats with
        rootsTotalCount := storage.stats.rootsTotalCount + 1 } }

/-- The source also checks that a cell that is already there is the same object. -/
def set (storage : CellStorage) (refcnt : Int) (cell : DataCell) : CellStorage :=
  match storage.getInfo cell.reprHash with
  | some _ =>
    { storage with
      infos := Lib.change CellInfo.key cell.reprHash (CellInfo.setRefcnt refcnt) storage.infos }
  | none => { storage with infos := storage.infos ++ [{ dbRefcnt := refcnt, cell }] }

def applyStatsDiff (storage : CellStorage) (diff : Stats) : Except String CellStorage := do
  let stats ← storage.stats.applyDiff diff
  if stats.rootsTotalCount ≠ storage.localRoots.length then
    .error "stats_.roots_total_count == local_roots_.size()"
  else if stats.cellsTotalCount ≠ storage.infos.length then
    .error "stats_.cells_total_count == cells_count"
  else .ok { storage with stats }

end CellStorage

/-! ### Creation from a key-value store -/

def heldReferences (cells : List DataCell) (hash : CellHash) : Int :=
  (cells.map fun cell => ((cell.refs.map DataCell.reprHash).count hash : Int)).sum

namespace CellStorage

def fullCell (infos : List CellInfo) (ref : DataCell) : Except String DataCell :=
  match Lib.lookup CellInfo.key infos ref.reprHash with
  | some full => .ok full.cell
  | none => .error "full_cell_ptr"

def resetRefs (infos : List CellInfo) (info : CellInfo) : Except String CellInfo := do
  let refs ← info.cell.refs.mapM (fullCell infos)
  .ok { info with cell := .mk info.cell.specialType info.cell.bits refs info.cell.info }

/-- An object is referred to by the table of cells and by the cells that hold it. -/
def cellRefCnt (infos : List CellInfo) (info : CellInfo) : Int :=
  1 + heldReferences (infos.map CellInfo.cell) info.key

def validateInfo (layout : Layout) (infos : List CellInfo) (sofar : List DataCell × Stats)
    (info : CellInfo) : Except String (List DataCell × Stats) :=
  let extraRefcnt := Lib.wrapInt (info.dbRefcnt + 1) - cellRefCnt infos info
  if extraRefcnt < 0 then .error "it.db_refcnt + 1 >= cell_ref_cnt"
  else
    .ok (if extraRefcnt ≠ 0 then sofar.1 ++ [info.cell] else sofar.1,
      { rootsTotalCount := sofar.2.rootsTotalCount + if extraRefcnt ≠ 0 then 1 else 0
        cellsTotalCount := sofar.2.cellsTotalCount + 1
        cellsTotalSize := sofar.2.cellsTotalSize + getStorageSize layout info.cell })

def validateBucketA (layout : Layout) (infos : List CellInfo) : Except String (List DataCell × Stats) :=
  infos.foldlM (validateInfo layout infos) ([], Stats.empty)

def buildRoots (roots : List DataCell) : List DataCell := roots.foldl insertRoot []

def build (layout : Layout) (kv : KeyValue) : Except String CellStorage := do
  let scanned := kv.map fun stored => { dbRefcnt := stored.refcnt, cell := stored.cell : CellInfo }
  let infos ← scanned.mapM (resetRefs scanned)
  let (roots, stats) ← validateBucketA layout infos
  let stats ← Stats.empty.applyDiff stats
  .ok { infos, localRoots := buildRoots roots, roots := buildRoots roots, stats }

end CellStorage

/-! ### Changes -/

structure Info where
  dbRefcnt : Int
  diffRefcnt : Int
  cell : DataCell

def Info.key (info : Info) : CellHash := info.cell.reprHash

namespace Info

def emplace (infos : List Info) (info : Info) : List Info :=
  match Lib.lookup Info.key infos info.key with
  | some _ => infos
  | none => infos ++ [info]

def addRefcnt (change : Int) (info : Info) : Info :=
  { info with diffRefcnt := info.diffRefcnt + change }

def addDiff (infos : List Info) (hash : CellHash) (change : Int) : List Info :=
  Lib.change Info.key hash (addRefcnt change) infos

end Info

structure InMemory where
  storage : CellStorage
  infos : List Info
  toInc : List DataCell
  toDec : List DataCell

namespace InMemory

def createInMemory (layout : Layout) (kv : KeyValue) : Except String InMemory := do
  let storage ← CellStorage.build layout kv
  .ok { storage, infos := [], toInc := [], toDec := [] }

mutual

/-- A cell that is not known yet is built anew over the known cells it refers to. -/
def doInc (sha : Sha256) (storage : CellStorage) (infos : List Info) :
    DataCell → Except String (DataCell × List Info)
  | .mk specialType bits refs info =>
    let cell := DataCell.mk specialType bits refs info
    match Lib.lookup Info.key infos cell.reprHash with
    | some known =>
      if known.diffRefcnt = 2 ^ 31 - 1 then .error "it->diff_refcnt != std::numeric_limits<td::int32>::max()"
      else .ok (known.cell, Info.addDiff infos cell.reprHash 1)
    | none =>
      match storage.getInfo cell.reprHash with
      | some stored =>
        .ok (stored.cell, Info.emplace infos { dbRefcnt := stored.dbRefcnt, diffRefcnt := 1, cell := stored.cell })
      | none => do
        let (newRefs, infos) ← doIncRefs sha storage infos refs
        let result ← DataCell.create sha bits newRefs cell.isSpecial DataCell.noHint
        if result.reprHash ≠ cell.reprHash then .error "res->get_hash() == cell_hash"
        else .ok (result, Info.emplace infos { dbRefcnt := 0, diffRefcnt := 1, cell := result })

def doIncRefs (sha : Sha256) (storage : CellStorage) (infos : List Info) :
    List DataCell → Except String (List DataCell × List Info)
  | [] => .ok ([], infos)
  | ref :: rest => do
    let (newRef, infos) ← doInc sha storage infos ref
    let (newRefs, infos) ← doIncRefs sha storage infos rest
    .ok (newRef :: newRefs, infos)

end

/-- The entry of a cell after its count went down by one, and the entries. -/
def decInfo (storage : CellStorage) (infos : List Info) (hash : CellHash) : Except String (Info × List Info) :=
  match Lib.lookup Info.key infos hash with
  | some known =>
    if known.diffRefcnt = -2 ^ 31 then .error "it->diff_refcnt != std::numeric_limits<td::int32>::min()"
    else .ok ({ known with diffRefcnt := known.diffRefcnt - 1 }, Info.addDiff infos hash (-1))
  | none =>
    match storage.getInfo hash with
    | some stored =>
      let info : Info :=
        { dbRefcnt := stored.dbRefcnt, diffRefcnt := -1, cell := stored.cell }
      .ok (info, Info.emplace infos info)
    | none => .error "storage_->get_info(cell_hash)"

mutual

def doDec (storage : CellStorage) (infos : List Info) : DataCell → Except String (List Info)
  | .mk specialType bits refs info => do
    let (entry, infos) ← decInfo storage infos (DataCell.mk specialType bits refs info).reprHash
    if Lib.wrapInt (entry.diffRefcnt + entry.dbRefcnt) ≠ 0 then .ok infos
    else doDecRefs storage infos refs

def doDecRefs (storage : CellStorage) (infos : List Info) :
    List DataCell → Except String (List Info)
  | [] => .ok infos
  | ref :: rest => do
    let infos ← doDec storage infos ref
    doDecRefs storage infos rest

end

def inc (db : InMemory) (cell : DataCell) : InMemory := { db with toInc := db.toInc ++ [cell] }

def dec (db : InMemory) (cell : DataCell) : InMemory := { db with toDec := db.toDec ++ [cell] }

def prepareInc (sha : Sha256) (sofar : CellStorage × List Info) (cell : DataCell) : Except String (CellStorage × List Info) := do
  let (newRoot, infos) ← doInc sha sofar.1 sofar.2 cell
  .ok (sofar.1.addNewRoot newRoot, infos)

def prepareCommit (sha : Sha256) (db : InMemory) : Except String InMemory :=
  if !db.infos.isEmpty then .error "info_.empty()"
  else do
    let (storage, infos) ← db.toInc.foldlM (prepareInc sha) (db.storage, db.infos)
    let infos ← db.toDec.foldlM (doDec storage) infos
    .ok { storage, infos, toInc := [], toDec := [] }

structure Saving where
  storage : CellStorage
  kv : KeyValue
  diff : Stats

def storeCount (kv : KeyValue) (info : Info) (refcnt : Int) : Except String KeyValue :=
  if info.dbRefcnt = 0 then CellStorer.set kv refcnt info.cell false
  else CellStorer.merge kv info.key info.diffRefcnt

def saveCount (layout : Layout) (saving : Saving) (info : Info) (refcnt : Int) : Except String Saving := do
  let kv ← storeCount saving.kv info refcnt
  .ok
    { storage := saving.storage.set refcnt info.cell
      kv
      diff :=
        if info.dbRefcnt = 0 then
          { saving.diff with
            cellsTotalCount := saving.diff.cellsTotalCount + 1
            cellsTotalSize := saving.diff.cellsTotalSize + getStorageSize layout info.cell }
        else saving.diff }

def saveErased (layout : Layout) (saving : Saving) (info : Info) : Except String Saving := do
  let storage ← saving.storage.erase info.key
  .ok
    { storage
      kv := CellStorer.erase saving.kv info.key
      diff :=
        { saving.diff with
          cellsTotalCount := saving.diff.cellsTotalCount - 1
          cellsTotalSize := saving.diff.cellsTotalSize - getStorageSize layout info.cell } }

def saveInfo (layout : Layout) (saving : Saving) (info : Info) : Except String Saving :=
  if info.diffRefcnt = 0 then .ok saving
  else
    let refcnt := info.dbRefcnt + info.diffRefcnt
    if Lib.wrapInt refcnt ≠ refcnt then .error "A(r) == a"
    else if refcnt < 0 then .error "refcnt >= 0"
    else if 0 < refcnt then saveCount layout saving info refcnt
    else saveErased layout saving info

def saveDiff (layout : Layout) (db : InMemory) (kv : KeyValue) : Except String (InMemory × KeyValue) :=
  if !db.toDec.isEmpty then .error "to_dec_.empty()"
  else do
    let saved ← db.infos.foldlM (saveInfo layout) { storage := db.storage, kv, diff := Stats.empty }
    let storage ← saved.storage.applyStatsDiff saved.diff
    .ok ({ db with storage, infos := [] }, saved.kv)

def commit (sha : Sha256) (layout : Layout) (db : InMemory) (kv : KeyValue) : Except String (InMemory × KeyValue) :=
  if !db.toInc.isEmpty || !db.toDec.isEmpty then do
    let prepared ← prepareCommit sha db
    saveDiff layout prepared kv
  else saveDiff layout db kv

inductive Operation where
  | inc (cell : DataCell)
  | dec (cell : DataCell)
  | commit

def apply (sha : Sha256) (layout : Layout) (state : InMemory × KeyValue) :
    Operation → Except String (InMemory × KeyValue)
  | .inc cell => .ok (state.1.inc cell, state.2)
  | .dec cell => .ok (state.1.dec cell, state.2)
  | .commit => commit sha layout state.1 state.2

def run (sha : Sha256) (layout : Layout) (kv : KeyValue) (operations : List Operation) : Except String (InMemory × KeyValue) := do
  let db ← createInMemory layout kv
  operations.foldlM (apply sha layout) (db, kv)

end InMemory

end TonNode.Db
