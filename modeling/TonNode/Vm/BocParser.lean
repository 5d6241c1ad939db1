import TonNode.Vm.Boc

/-!
# Bags of cells: deserialization
-/

namespace TonNode.Vm

namespace Boc

/-- The source's `(int)` of an unsigned number. -/
def toInt32 (value : Nat) : Int :=
  if value % 2 ^ 32 < 2 ^ 31 then ((value % 2 ^ 32 : Nat) : Int)
  else ((value % 2 ^ 32 : Nat) : Int) - 2 ^ 32

def substr (data : List UInt8) (offset count : Nat) : List UInt8 := (data.drop offset).take count

def readAt (data : List UInt8) (offset count : Nat) : Nat := Lib.readInt (substr data offset count)

def byteAt (data : List UInt8) (offset : Nat) : Nat := (data.getD offset 0).toNat

/-- The header and the size of the bag. Instead of the size, zero stands for an invalid header
and a negative number for bytes wanted. -/
def parseSerializedHeader (data : List UInt8) : Except Int Info := do
  let sz := min data.length 0xffff
  if sz < 4 then .error (-10)
  let magic := readAt data 0 4
  if magic ≠ bocGeneric ∧ magic ≠ bocIdx ∧ magic ≠ bocIdxCrc32c then .error 0
  if sz < 5 then .error (-10)
  let byte := byteAt data 4
  let generic := magic == bocGeneric
  let hasIndex := !generic || byte.testBit 7
  let hasCrc32c := if generic then byte.testBit 6 else magic == bocIdxCrc32c
  let hasCacheBits := generic && byte.testBit 5
  if hasCacheBits && !hasIndex then .error 0
  let refByteSize := byte % 8
  if refByteSize > 4 ∨ refByteSize < 1 then .error 0
  if sz < 6 then .error (-7 - 3 * (refByteSize : Int))
  let offsetByteSize := byteAt data 5
  if offsetByteSize > 8 ∨ offsetByteSize < 1 then .error 0
  let rootsOffset := 6 + 3 * refByteSize + offsetByteSize
  let sz := sz - 6
  if sz < refByteSize then .error (-(rootsOffset : Int))
  let cellCount := toInt32 (readAt data 6 refByteSize)
  if cellCount ≤ 0 then .error 0
  if sz < 2 * refByteSize then .error (-(rootsOffset : Int))
  let rootCount := toInt32 (readAt data (6 + refByteSize) refByteSize)
  if rootCount ≤ 0 then .error 0
  if !generic && rootCount != 1 then .error 0
  let indexOffset := if generic then rootsOffset + rootCount.toNat * refByteSize else rootsOffset
  let dataOffset := indexOffset + if hasIndex then cellCount.toNat * offsetByteSize else 0
  if sz < 3 * refByteSize then .error (-(rootsOffset : Int))
  let absentCount := toInt32 (readAt data (6 + 2 * refByteSize) refByteSize)
  if absentCount < 0 ∨ absentCount > cellCount then .error 0
  if sz < 3 * refByteSize + offsetByteSize then .error (-(rootsOffset : Int))
  let dataSize := readAt data (6 + 3 * refByteSize) offsetByteSize
  if dataSize > cellCount.toNat * 2 ^ 10 then .error 0
  if dataSize > 2 ^ 40 then .error 0
  if dataSize < cellCount.toNat * (2 + refByteSize) - refByteSize then .error 0
  .ok
    { magic
      rootCount := rootCount.toNat
      cellCount := cellCount.toNat
      absentCount := absentCount.toNat
      refByteSize
      offsetByteSize
      hasIndex
      hasRoots := generic
      hasCrc32c
      hasCacheBits
      rootsOffset
      indexOffset
      dataOffset
      dataSize
      totalSize := dataOffset + dataSize + if hasCrc32c then 4 else 0 }

structure CellSerializationInfo where
  special : Bool
  levelMask : Nat
  withHashes : Bool
  hashesOffset : Nat
  depthOffset : Nat
  dataOffset : Nat
  dataLen : Nat
  dataWithBits : Bool
  refsOffset : Nat
  refsCnt : Nat
  endOffset : Nat

namespace CellSerializationInfo

def ofDescriptors (d1 d2 refByteSize : Nat) : Except BocError CellSerializationInfo :=
  let refsCnt := d1 % 8
  let levelMask := d1 / 32
  let withHashes := d1.testBit 4
  if refsCnt > 4 then
    if refsCnt ≠ 7 ∨ withHashes = false then .error (.status "Invalid first byte")
    else .error (.status "TODO: absent cells")
  else
    let count := LevelMask.getHashesCount levelMask
    let depthOffset := 2 + if withHashes then count * Cell.hashBytes else 0
    let dataOffset := depthOffset + if withHashes then count * Cell.depthBytes else 0
    let dataLen := d2 / 2 + d2 % 2
    .ok
      { special := d1.testBit 3
        levelMask
        withHashes
        hashesOffset := 2
        depthOffset
        dataOffset
        dataLen
        dataWithBits := d2 % 2 == 1
        refsOffset := dataOffset + dataLen
        refsCnt
        endOffset := dataOffset + dataLen + refsCnt * refByteSize }

def notEnoughBytes (got : Nat) (expected : String) : BocError :=
  .status ("Not enough bytes [got:" ++ toString got ++ "][expected:" ++ expected ++ "]")

def init (data : List UInt8) (refByteSize : Nat) : Except BocError CellSerializationInfo :=
  if data.length < 2 then .error (notEnoughBytes data.length "at least 2")
  else do
    let info ← ofDescriptors (byteAt data 0) (byteAt data 1) refByteSize
    if data.length < info.endOffset then
      .error (notEnoughBytes data.length (toString info.endOffset))
    else .ok info

def trailingZeroes (byte : Nat) : Nat := ((List.range 8).find? byte.testBit).getD 8

def getBits (info : CellSerializationInfo) (cell : List UInt8) : Except BocError Nat :=
  if info.dataWithBits then
    let last := byteAt cell (info.dataOffset + info.dataLen - 1)
    if last % 128 = 0 then .error (.status "overlong encoding")
    else .ok ((info.dataLen - 1) * 8 + 7 - trailingZeroes last)
  else .ok (info.dataLen * 8)

def hashAt (info : CellSerializationInfo) (cell : List UInt8) (position : Nat) : CellHash :=
  Lib.unpackBits (substr cell (info.hashesOffset + Cell.hashBytes * position) Cell.hashBytes)

def depthAt (info : CellSerializationInfo) (cell : List UInt8) (position : Nat) : Nat :=
  readAt cell (info.depthOffset + Cell.depthBytes * position) Cell.depthBytes

/-- The stored hashes and depths of the levels below that of the cell, from `position` on. -/
def checkLowerHashes (info : CellSerializationInfo) (cell : List UInt8) (created : DataCell) :
    Nat → List Nat → Except BocError Unit
  | _, [] => .ok ()
  | position, level :: rest =>
    if LevelMask.isSignificant info.levelMask level then
      if info.hashAt cell position ≠ created.getHash level then
        .error (.status "lower hash mismatch")
      else if created.getDepth level ≠ info.depthAt cell position then
        .error (.status "lower depth mismatch")
      else checkLowerHashes info cell created (position + 1) rest
    else checkLowerHashes info cell created position rest

def checkHashes (info : CellSerializationInfo) (cell : List UInt8) (created : DataCell) : Except BocError Unit :=
  let count := LevelMask.getHashesCount info.levelMask
  if created.reprHash ≠ info.hashAt cell (count - 1) then
    .error (.status "representation hash mismatch")
  else if created.getDepth Cell.maxLevel ≠ info.depthAt cell (count - 1) then
    .error (.status "depth mismatch")
  else checkLowerHashes info cell created 0 (List.range (LevelMask.getLevel info.levelMask))

def createDataCell (sha : Sha256) (info : CellSerializationInfo) (cell : List UInt8)
    (refs : List DataCell) : Except BocError DataCell := do
  let bits ← info.getBits cell
  let data := (Lib.unpackBits (cell.drop info.dataOffset)).take bits
  match DataCell.create sha data refs info.special DataCell.noHint with
  | .error message => .error (.status message)
  | .ok created =>
    if created.isSpecial ≠ info.special then .error (.status "is_special mismatch")
    else if created.getLevelMask ≠ info.levelMask then .error (.status "level mask mismatch")
    else do
      if info.withHashes then info.checkHashes cell created
      .ok created

end CellSerializationInfo

/-- How often a cell is referred to, up to two. -/
def countReference (counts : List Nat) (index : Nat) : List Nat :=
  counts.modify index fun count => if count < 2 then count + 1 else count

def statusText : BocError → String
  | .status message => "[Error : 0 : " ++ message ++ "]"
  | .exception _ => ""
  | .check condition => condition
  | .outOfFuel => ""

def inCell (text : String) (index : Nat) : BocError → BocError
  | .status message =>
    .status (text ++ toString index ++ " " ++ statusText (.status message))
  | error => error

section Reader

variable (sha : Sha256) (info : Info)

/-- The stored index or, without one, the offsets at which the cells end. -/
structure IndexTable where
  data : List UInt8
  customIndex : List Nat

def IndexTable.entryRaw (table : IndexTable) (index : Nat) : Nat :=
  if info.hasIndex then
    if index < info.cellCount then
      readAt table.data (info.indexOffset + index * info.offsetByteSize) info.offsetByteSize
    else 0
  else table.customIndex.getD index 0

def IndexTable.entry (table : IndexTable) (index : Nat) : Nat :=
  if info.hasCacheBits then table.entryRaw info index / 2 else table.entryRaw info index

def IndexTable.cacheEntry (table : IndexTable) (index : Nat) : Bool :=
  if !info.hasCacheBits || !info.hasIndex then true else table.entryRaw info index % 2 == 1

def getCellSlice (table : IndexTable) (index : Nat) (cells : List UInt8) : Except BocError (List UInt8) :=
  let offs := if index = 0 then 0 else table.entry info (index - 1)
  let offsEnd := table.entry info index
  if offs > offsEnd ∨ offsEnd > cells.length then
    .error (.status ("invalid index entry [" ++ toString offs ++ "; " ++ toString offsEnd ++ "], " ++
      "[data.size():" ++ toString cells.length ++ "]"))
  else .ok (substr cells offs (offsEnd - offs))

/-- The references of the cell at `index`, found among the cells already read, the last of the file
first. -/
def readRefs (cellInfo : CellSerializationInfo) (slice : List UInt8) (index : Nat)
    (read : List DataCell) (position : Nat) (counts : List Nat) : Except BocError (List DataCell × List Nat) :=
  if position < cellInfo.refsCnt then
    let refIdx := toInt32
      (readAt slice (cellInfo.refsOffset + position * info.refByteSize) info.refByteSize)
    if refIdx ≤ index then
      .error (.status ("bag-of-cells error: reference #" ++ toString position ++ " of cell #" ++
        toString index ++ " is to cell #" ++ toString refIdx ++ " with smaller index"))
    else if refIdx ≥ info.cellCount then
      .error (.status ("bag-of-cells error: reference #" ++ toString position ++ " of cell #" ++
        toString index ++ " is to non-existent cell #" ++ toString refIdx ++ ", only " ++
        toString info.cellCount ++ " cells are defined"))
    else
      match read[info.cellCount - refIdx.toNat - 1]? with
      | none => .error (.check "cells_span index")
      | some ref => do
        let counts := if info.hasCacheBits then countReference counts refIdx.toNat else counts
        let (refs, counts) ← readRefs cellInfo slice index read (position + 1) counts
        .ok (ref :: refs, counts)
  else .ok ([], counts)
termination_by cellInfo.refsCnt - position

def deserializeCell (table : IndexTable) (index : Nat) (cells : List UInt8)
    (read : List DataCell) (counts : List Nat) : Except BocError (DataCell × List Nat) := do
  let slice ← getCellSlice info table index cells
  let cellInfo ← CellSerializationInfo.init slice info.refByteSize
  if cellInfo.endOffset ≠ slice.length then
    .error (.status "unused space in cell serialization")
  let (refs, counts) ← readRefs info cellInfo slice index read 0 counts
  let cell ← cellInfo.createDataCell sha slice refs
  .ok (cell, counts)

/-- The cells from the one at `index - 1` of the file down to the first, after those already
read. -/
def deserializeCells (table : IndexTable) (cells : List UInt8) :
    Nat → List DataCell → List Nat → Except BocError (List DataCell × List Nat)
  | 0, read, counts => .ok (read, counts)
  | index + 1, read, counts =>
    match deserializeCell sha info table index cells read counts with
    | .error error =>
      .error (inCell "invalid bag-of-cells failed to deserialize cell #" index error)
    | .ok (cell, counts) => deserializeCells table cells index (read ++ [cell]) counts

/-- The offsets at which the cells end, found by reading their descriptors. -/
def buildCustomIndex : Nat → Nat → Nat → List UInt8 → Except BocError (List Nat)
  | 0, _, cur, rest =>
    if rest.isEmpty then .ok []
    else .error (.status ("invalid bag-of-cells last cell #" ++ toString (info.cellCount - 1) ++
      ": end offset " ++ toString cur ++ " is different from total data size " ++
      toString info.dataSize))
  | count + 1, index, cur, rest =>
    match CellSerializationInfo.init rest info.refByteSize with
    | .error error =>
      .error (inCell "invalid bag-of-cells failed to deserialize cell #" index error)
    | .ok cellInfo => do
      let cur := cur + cellInfo.endOffset
      let ends ← buildCustomIndex count (index + 1) cur (rest.drop cellInfo.endOffset)
      .ok (cur :: ends)

def readRoots (data : List UInt8) (position : Nat) (counts : List Nat) : Except BocError (List Nat × List Nat) :=
  if position < info.rootCount then
    let idx :=
      if info.hasRoots then
        toInt32 (readAt data (info.rootsOffset + position * info.refByteSize) info.refByteSize)
      else 0
    if idx < 0 ∨ idx ≥ info.cellCount then
      .error (.status ("bag-of-cells invalid root index " ++ toString idx))
    else do
      let counts := if info.hasCacheBits then countReference counts idx.toNat else counts
      let (roots, counts) ← readRoots data (position + 1) counts
      .ok (idx.toNat :: roots, counts)
  else .ok ([], counts)
termination_by info.rootCount - position

def checkCacheFlags (table : IndexTable) (counts : List Nat) :
    List Nat → Except BocError Unit
  | [] => .ok ()
  | index :: rest =>
    let stored := table.cacheEntry info index
    if decide (counts.getD index 0 > 1) ≠ stored then
      .error (.status ("invalid bag-of-cells cell #" ++ toString index ++
        " has wrong cache flag " ++ toString stored))
    else checkCacheFlags table counts rest

end Reader

def storedCrc (data : List UInt8) : Nat :=
  Lib.readInt (data.drop (data.length - 4)).reverse

def hex32 (value : Nat) : String :=
  "0x" ++ String.ofList ((List.range 8).map fun digit => Nat.digitChar (value / 16 ^ (7 - digit) % 16))

def checkCrc (crc32c : List UInt8 → UInt32) (info : Info) (data : List UInt8) : Except BocError Unit :=
  if info.hasCrc32c && (crc32c (data.take (data.length - 4))).toNat != storedCrc data then
    .error (.status ("bag-of-cells CRC32C mismatch: expected " ++
      hex32 (crc32c (data.take (data.length - 4))).toNat ++ ", found " ++ hex32 (storedCrc data)))
  else .ok ()

def readIndex (info : Info) (data : List UInt8) : Except BocError IndexTable :=
  if info.hasIndex then .ok { data, customIndex := [] }
  else do
    let customIndex ←
      buildCustomIndex info info.cellCount 0 0 (substr data info.dataOffset info.dataSize)
    .ok { data, customIndex }

def readHeader (data : List UInt8) (maxRoots : Nat) : Except BocError Info :=
  match parseSerializedHeader data with
  | .error sizeEst =>
    if sizeEst = 0 then
      .error (.status "cannot deserialize bag-of-cells: invalid header, error 0")
    else
      .error (.status ("cannot deserialize bag-of-cells: not enough bytes (" ++
        toString data.length ++ " present, " ++ toString (-sizeEst) ++ " required)"))
  | .ok info =>
    if info.totalSize > data.length then
      .error (.status ("cannot deserialize bag-of-cells: not enough bytes (" ++
        toString data.length ++ " present, " ++ toString info.totalSize ++ " required)"))
    else if info.rootCount > maxRoots then
      .error (.status "Bag-of-cells has more root cells than expected")
    else .ok info

def rootAt (info : Info) (cells : List DataCell) (idx : Nat) : Except BocError DataCell :=
  match cells[info.cellCount - idx - 1]? with
  | some cell => .ok cell
  | none => .error (.check "cell_list index")

def deserialize (sha : Sha256) (crc32c : List UInt8 → UInt32) (data : List UInt8) (maxRoots : Nat) :
    Except BocError (List DataCell) := do
  let info ← readHeader data maxRoots
  checkCrc crc32c info data
  let (roots, counts) ← readRoots info data 0 (List.replicate info.cellCount 0)
  let table ← readIndex info data
  let (cells, counts) ← deserializeCells sha info table
    (substr data info.dataOffset info.dataSize) info.cellCount [] counts
  if info.hasCacheBits then checkCacheFlags info table counts (List.range info.cellCount)
  roots.mapM (rootAt info cells)

end Boc

/-- The empty result of the source for empty data is `none`. -/
def stdBocDeserialize (sha : Sha256) (crc32c : List UInt8 → UInt32) (data : List UInt8)
    (canBeEmpty allowNonzeroLevel : Bool) : Except BocError (Option DataCell) :=
  if data.isEmpty && canBeEmpty then .ok none
  else do
    match ← Boc.deserialize sha crc32c data 1 with
    | [root] =>
      if !allowNonzeroLevel && root.getLevel != 0 then
        .error (.status "bag of cells has a root with non-zero level")
      else .ok (some root)
    | _ => .error (.status "bag of cells is expected to have exactly one root")

def defaultMaxRoots : Nat := 16384

def checkRootLevels : List DataCell → Except BocError Unit
  | [] => .ok ()
  | root :: rest =>
    if root.getLevel ≠ 0 then .error (.status "bag of cells has a root with non-zero level")
    else checkRootLevels rest

def stdBocDeserializeMulti (sha : Sha256) (crc32c : List UInt8 → UInt32) (data : List UInt8)
    (maxRoots : Nat) : Except BocError (List DataCell) :=
  if data.isEmpty then .ok []
  else do
    let roots ← Boc.deserialize sha crc32c data maxRoots
    checkRootLevels roots
    .ok roots

end TonNode.Vm
