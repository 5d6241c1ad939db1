import TonNode.Vm.BocParser

/-!
# The structure-aware form of bags of cells

The cells are sorted topologically and written without any framing: kinds and sizes, edges, and
data in separate passes. In a Merkle update the balances of the new tree may be left out where they
follow from the old tree, and the whole data of the old tree where it follows from the previous
state.
-/

namespace TonNode.Vm

namespace BocCompression

open Boc

def decompressedSizeBytes : Nat := 4

def muCellOrderInRoot : Nat := 2

def maxNodeCount : Nat := 2 ^ 20

def maxCellDataLengthBits : Nat := 1024

/-! ### Balances -/

def fetchUlong (bits : List Bool) (width : Nat) : Option (Nat × List Bool) :=
  if bits.length < width then none else some (bitsValue (bits.take width), bits.drop width)

/-- The bits of a currency collection: an amount, then a bit for the other currencies and, if it is
set, a reference. -/
def fetchCurrencyCollection (bits : List Bool) (refsCnt : Nat) : Option (List Bool × List Bool) := do
  let (length, rest) ← fetchUlong bits 4
  if rest.length < 8 * length + 1 then none
  else if (rest.drop (8 * length)).headD false && refsCnt == 0 then none
  else some (bits.take (4 + 8 * length + 1), rest.drop (8 * length + 1))

/-- An amount whose first byte is not zero. -/
def gramsAsIntegerSkip (bits : List Bool) : Option (Nat × List Bool) := do
  let (length, rest) ← fetchUlong bits 4
  if length ≠ 0 ∧ 8 ≤ rest.length ∧ bitsValue (rest.take 8) = 0 then none
  else fetchUlong rest (8 * length)

/-- The amount in a fork of the accounts of a shard: an empty label, depth zero and an amount
without other currencies. -/
def extractBalanceFromDepthBalanceInfo (cell : DataCell) : Option Nat := do
  let (label, rest) ← fetchUlong cell.bits 2
  if label ≠ 0 then none
  else do
    let (splitDepth, rest) ← fetchUlong rest 5
    if splitDepth > 30 then none
    else do
      let (balance, rest) ← fetchCurrencyCollection rest cell.refs.length
      if splitDepth ≠ 0 ∨ rest ≠ [] then none
      else do
        let (grams, balance) ← gramsAsIntegerSkip balance
        if balance = [false] then some grams else none

/-- How much more the right cell has than the left one. -/
def processShardAccountsVertex (left right : DataCell) : Option Int :=
  match extractBalanceFromDepthBalanceInfo left, extractBalanceFromDepthBalanceInfo right with
  | some leftBalance, some rightBalance => some ((rightBalance : Int) - leftBalance)
  | _, _ => none

def requiredBits (value : Nat) : Nat := if value = 0 then 0 else Nat.log2 value + 1

/-! ### Decompression -/

def decompressionError {α : Type} (text : String) : Except BocError α :=
  .error (.status ("BOC decompression failed: " ++ text))

/-- The accesses of the bit reader, which the source does not check. -/
def fetchBits (count : Nat) (bits : List Bool) : Except BocError (List Bool × List Bool) :=
  if bits.length < count then .error (.check "bit_reader")
  else .ok (bits.take count, bits.drop count)

def readUint (bits : List Bool) (width : Nat) : Except BocError (Nat × List Bool) :=
  if bits.length < width then decompressionError "not enough bits to read"
  else do
    check (width ≤ 32) "bits <= 32"
    let (value, bits) ← fetchBits width bits
    .ok (bitsValue value, bits)

/-! ### Reading -/

/-- What is known of a node before its edges and data are read. -/
structure NodeHeader where
  isSpecial : Bool
  isDepthBalance : Bool
  pbLevelMask : Nat
  refsCnt : Nat
  dataLength : Nat
  isDataSmall : Bool
deriving DecidableEq

/-- The length of data that is not small, in whole bytes. -/
def wholeLength (bytes : Nat) : Nat := if bytes * 8 = 0 then 1024 else bytes * 8

def countBits32 (value : Nat) : Nat := (List.range 32).countP value.testBit

def checkLength (header : NodeHeader) (bits : List Bool) : Except BocError (NodeHeader × List Bool) :=
  if header.dataLength > maxCellDataLengthBits then decompressionError "invalid cell data length"
  else .ok (header, bits)

/-- The length of the data, which is not stored for balances that are left out and for pruned
branches. -/
def readLength (header : NodeHeader) (bits : List Bool) : Except BocError (NodeHeader × List Bool) :=
  if header.isDepthBalance then checkLength header bits
  else if header.pbLevelMask ≠ 0 then
    if header.refsCnt = 1 then checkLength { header with refsCnt := 0, dataLength := 0 } bits
    else if header.refsCnt > 1 then decompressionError "pruned branch cannot have references"
    else checkLength { header with dataLength := (256 + 16) * countBits32 header.pbLevelMask } bits
  else if bits.length < 8 then decompressionError "not enough bits for data length"
  else do
    let (small, bits) ← fetchBits 1 bits
    let (length, bits) ← fetchBits 7 bits
    checkLength
      { header with
        isDataSmall := bitsValue small ≠ 0
        dataLength := if bitsValue small ≠ 0 then bitsValue length
          else wholeLength (bitsValue length) }
      bits

def readHeader (bits : List Bool) : Except BocError (NodeHeader × List Bool) :=
  if bits.length < 8 then decompressionError "not enough bits for cell metadata"
  else do
    let (type, bits) ← fetchBits 4 bits
    let (refs, bits) ← fetchBits 4 bits
    let cellType := bitsValue type
    let refsCnt := bitsValue refs
    let isSpecial := cellType ≠ 9 ∧ cellType ≠ 0
    if refsCnt > 4 then decompressionError "invalid cell refs count"
    else
      readLength
        { isSpecial
          isDepthBalance := cellType = 9
          pbLevelMask := if isSpecial then cellType - 1 else 0
          refsCnt
          dataLength := 0
          isDataSmall := false }
        bits

/-- Zero stands for a reference that is not known yet. -/
def readDirectEdges (entry : NodeHeader × Nat) (bits : List Bool) : Except BocError (List Nat × List Bool) :=
  Lib.readAll
    (fun _ bits => do
      let (direct, bits) ← readUint bits 1
      .ok (if direct ≠ 0 then entry.2 + 1 else 0, bits))
    (List.range entry.1.refsCnt) bits

def readPrefix (header : NodeHeader) (bits : List Bool) : Except BocError (List Bool × List Bool) :=
  if header.isDepthBalance then .ok ([], bits)
  else
    let remainder := header.dataLength % 8
    if bits.length < remainder then decompressionError "not enough bits for initial cell data"
    else fetchBits remainder bits

/-- A reference, where `known` is what the direct edges say of it. -/
def readEdge (origSize nodeCount index known : Nat) (bits : List Bool) : Except BocError (Nat × List Bool) :=
  if known ≠ 0 then .ok (known, bits)
  else if nodeCount ≤ index + 3 then .ok (index + 2, bits)
  else do
    let required := requiredBits (nodeCount - index - 3)
    if required < 8 - (origSize - bits.length + 1) % 8 + 1 then do
      let (delta, bits) ← readUint bits required
      .ok (delta + (index + 2), bits)
    else do
      let (short, bits) ← readUint bits 1
      let width := if short ≠ 0 then 8 - (origSize - bits.length) % 8 else required
      let (delta, bits) ← readUint bits width
      .ok (delta + (index + 2), bits)

def readNodeEdges (origSize nodeCount : Nat) (entry : List Nat × Nat) (bits : List Bool) :
    Except BocError (List Nat × List Bool) :=
  Lib.readAll (readEdge origSize nodeCount entry.2) entry.1 bits

def checkConnections (nodeCount : Nat) (entry : List Nat × Nat) : Except BocError Unit :=
  entry.1.forM fun child =>
    if child ≥ nodeCount then decompressionError "invalid graph connection"
    else if child ≤ entry.2 then decompressionError "circular reference in graph"
    else .ok ()

def readPadding : Nat → List Bool → Except BocError (List Bool)
  | 0, bits => .ok bits
  | count + 1, bits => do
    let (bit, bits) ← readUint bits 1
    if bit ≠ 0 then decompressionError "non-zero padding bits" else readPadding count bits

/-- The zeros and the one before data that is not small, and their number. -/
def readMarker (header : NodeHeader) (bits : List Bool) : Except BocError (Nat × List Bool) :=
  if header.pbLevelMask = 0 ∧ !header.isDataSmall then do
    let zeros := (bits.takeWhile (! ·)).length
    let (_, bits) ← readUint (bits.drop zeros) 1
    .ok (zeros + 1, bits)
  else .ok (0, bits)

def readSuffix (header : NodeHeader) (bits : List Bool) : Except BocError (List Bool × List Bool) :=
  if header.isDepthBalance then .ok ([], bits)
  else do
    let length := header.dataLength - header.dataLength % 8
    let (paddingBits, bits) ← readMarker header bits
    if length < paddingBits then decompressionError "invalid cell data length"
    else if bits.length < length - paddingBits then
      decompressionError "not enough bits for remaining cell data"
    else fetchBits (length - paddingBits) bits

structure ParsedNode where
  header : NodeHeader
  refs : List Nat
  dataPrefix : List Bool
  dataSuffix : List Bool

/-- The depth of each node from the depths of those after it, the last node first. -/
def nodeDepths (nodeCount : Nat) : List (List Nat) → Except BocError (List Nat)
  | [] => .ok []
  | refs :: rest => do
    let depths ← nodeDepths nodeCount rest
    let index := nodeCount - (rest.length + 1)
    let deepest ← refs.foldlM
      (fun depth child =>
        match depths[child - (index + 1)]? with
        | some childDepth => Except.ok (max depth childDepth)
        | none => .error (.check "node_depth"))
      0
    if refs = [] then .ok (0 :: depths)
    else if deepest ≥ Cell.maxDepth then decompressionError "cell depth too large"
    else .ok ((deepest + 1) :: depths)

def readNodes (origSize nodeCount : Nat) (bits : List Bool) : Except BocError (List ParsedNode) := do
  let (headers, bits) ← Lib.readAll (fun _ => readHeader) (List.range nodeCount) bits
  let (direct, bits) ← Lib.readAll readDirectEdges headers.zipIdx bits
  let (prefixes, bits) ← Lib.readAll readPrefix headers bits
  let (edges, bits) ← Lib.readAll (readNodeEdges origSize nodeCount) direct.zipIdx bits
  edges.zipIdx.forM (checkConnections nodeCount)
  let bits ← readPadding ((8 - (origSize - bits.length) % 8) % 8) bits
  let (suffixes, bits) ← Lib.readAll readSuffix headers bits
  if bits.length > 7 ∨ bits.any id then decompressionError "trailing unused data"
  else do
    let _ ← nodeDepths nodeCount edges
    .ok ((headers.zip (edges.zip (prefixes.zip suffixes))).map fun parts =>
      { header := parts.1
        refs := parts.2.1
        dataPrefix := parts.2.2.1
        dataSuffix := parts.2.2.2 })

structure Parsed where
  rootIndexes : List Nat
  nodes : List ParsedNode

def parse (serialized : List UInt8) : Except BocError Parsed := do
  let bits := Lib.unpackBits serialized
  let (rootCount, rest) ← readUint bits 32
  if rootCount = 0 ∨ rootCount > defaultMaxRoots then decompressionError "invalid root count"
  else if rootCount > serialized.length then decompressionError "invalid root count"
  else do
    let (rootIndexes, rest) ← Lib.readAll (fun _ bits => readUint bits 32) (List.range rootCount) rest
    let (nodeCount, rest) ← readUint rest 32
    if nodeCount = 0 ∨ nodeCount > maxNodeCount then decompressionError "invalid node count"
    else if nodeCount > serialized.length then
      decompressionError "incorrect node count provided"
    else if rootIndexes.any (· ≥ nodeCount) then decompressionError "invalid root index"
    else do
      let nodes ← readNodes bits.length nodeCount rest
      .ok { rootIndexes, nodes }

/-! ### Building the cells -/

/-- The cells that have been built, and how many cells the decompressor has tried to create. -/
structure Building where
  cells : List (Option DataCell)
  constructed : Nat

abbrev BuildM := EStateM BocError Building

namespace Building

def cell (building : Building) (index : Nat) : Option DataCell := (building.cells[index]?).join

def setCell (building : Building) (index : Nat) (cell : DataCell) : Building :=
  { building with cells := building.cells.set index (some cell) }

def countConstruction (building : Building) : Building :=
  { building with constructed := building.constructed + 1 }

end Building

def buildError {α : Type} (text : String) : BuildM α :=
  throw (.status ("BOC decompression failed: " ++ text))

def liftExcept {α : Type} : Except BocError α → BuildM α
  | .ok value => pure value
  | .error error => throw error

def storeBits (bits more : List Bool) : Except BocError (List Bool) :=
  if bits.length + more.length > Cell.maxBits then .error (.exception .cellCreateError)
  else .ok (bits ++ more)

def storeRef (refs : List DataCell) : Option DataCell → Except BocError (List DataCell)
  | some ref =>
    if refs.length < Cell.maxRefs then .ok (refs ++ [ref])
    else .error (.exception .cellCreateError)
  | none => .error (.exception .cellCreateError)

section Construction

variable (sha : Sha256)

/-- Creates the cell of a node. The source turns a failure into a status. -/
def construct (index : Nat) (bits : List Bool) (refs : List DataCell) (isSpecial : Bool) (failure : String) : BuildM Unit := do
  modify Building.countConstruction
  match DataCell.create sha bits refs isSpecial DataCell.noHint with
  | .ok cell => modify fun building => building.setCell index cell
  | .error _ => buildError failure

def finalizeNodeFromBuilder (index : Nat) (node : ParsedNode) (bits : List Bool) : BuildM Unit := do
  let building ← get
  let refs ← liftExcept (node.refs.foldlM (fun refs child => storeRef refs (building.cell child)) [])
  construct sha index bits refs node.header.isSpecial "failed to finalize node (CellWriteError)"

/-- The bits of a node's cell, which for a pruned branch start with its type and mask. -/
def ParsedNode.store (node : ParsedNode) : Except BocError (List Bool) :=
  [if node.header.pbLevelMask ≠ 0 then longBits (2 ^ 8 + node.header.pbLevelMask) 16 else [],
    node.dataPrefix, node.dataSuffix].foldlM storeBits []

def finalizeNode (index : Nat) (node : ParsedNode) : BuildM Unit := do
  if node.header.isDepthBalance then
    buildError "depth-balance node must be reconstructed under MerkleUpdate"
  else
    let bits ← liftExcept node.store
    finalizeNodeFromBuilder sha index node bits

/-- The contents that `CellBuilder::do_create_pruned_branch` writes, for a mask and a level that
allow a new level. -/
def prunedBranchBits (cell : DataCell) (newLevel : Nat) : Except BocError (List Bool) :=
  let mask := LevelMask.apply cell.getLevelMask Cell.maxLevel
  let levels := (List.range (LevelMask.getLevel mask + 1)).filter (LevelMask.isSignificant mask)
  ([longBits 1 8, longBits (LevelMask.applyOr mask (LevelMask.oneLevel newLevel)) 8] ++
      levels.map cell.getHash ++ levels.map fun level => longBits (cell.getDepth level) 16).foldlM storeBits []

def buildPrunnedBranchFromState (index pbLevelMask : Nat) (source : DataCell) : BuildM Unit := do
  let pbLevel := LevelMask.getLevel pbLevelMask
  if pbLevel = 0 ∨ pbLevel > Cell.maxLevel then
    buildError "invalid level for prunned branch under MerkleUpdate"
  else if source.getLevel = pbLevel then modify fun building => building.setCell index source
  else
    let mask := LevelMask.apply source.getLevelMask Cell.maxLevel
    if pbLevel < LevelMask.getLevel mask + 1 then
      buildError "failed to create pruned branch from state (CellWriteError)"
    else
      let bits ← liftExcept (prunedBranchBits source pbLevel)
      construct sha index bits [] true
        "failed to create pruned branch from state (CellWriteError)"

end Construction

def writeDepthBalanceGrams (grams : Int) : Option (List Bool) :=
  if grams < 0 then none
  else
    let bytes := (requiredBits grams.toNat + 7) / 8
    if requiredBits grams.toNat > 15 * 8 then none
    else some (List.replicate 7 false ++ longBits bytes 4 ++ longBits grams (8 * bytes) ++ [false])

def vertexDiff (building : Building) (left : Option Nat) (right : Nat) : Option Int := do
  let leftIndex ← left
  let leftCell ← building.cell leftIndex
  let rightCell ← building.cell right
  processShardAccountsVertex leftCell rightCell

/-- A special cell that is not a pruned branch and whose data starts with the byte 4. -/
def isMerkleUpdateNode (node : ParsedNode) : Bool :=
  node.header.isSpecial && node.header.pbLevelMask == 0 && 8 ≤ (node.dataPrefix ++ node.dataSuffix).length &&
    bitsValue ((node.dataPrefix ++ node.dataSuffix).take 8) == 4

section Building

/-! The cells of the previous state may still have to be loaded: `loads` tells of which cells
`load_cell` succeeds. -/

variable (sha : Sha256) (loads : DataCell → Bool) (nodes : List ParsedNode)

/-- The old tree, from the previous state. The recursion goes to later nodes. -/
def buildLeftUnderMu : Nat → Nat → Option DataCell → BuildM Unit
  | 0, _, _ => throw .outOfFuel
  | _, _, none => buildError "missing state subtree for MerkleUpdate left branch"
  | fuel + 1, index, some state => do
    if ((← get).cell index).isSome then pure ()
    else
      match nodes[index]? with
      | none => throw (.check "left_idx")
      | some node =>
        if !loads state then throw (.exception .vmError)
        else if node.header.pbLevelMask ≠ 0 then
          buildPrunnedBranchFromState sha index node.header.pbLevelMask state
        else if state.refs.length ≠ node.header.refsCnt then
          buildError "state subtree refs mismatch while restoring MerkleUpdate left subtree"
        else if node.header.isSpecial ≠ state.isSpecial then
          buildError
            "state subtree special flag mismatch while restoring MerkleUpdate left subtree"
        else
          node.refs.zipIdx.forM fun entry =>
            buildLeftUnderMu fuel entry.1 state.refs[entry.2]?
          let bits ← liftExcept (storeBits [] state.bits)
          finalizeNodeFromBuilder sha index node bits

def leftRefs : Option Nat → BuildM (List Nat)
  | none => pure []
  | some left =>
    match nodes[left]? with
    | none => throw (.check "left_idx")
    | some node => pure node.refs

/-- The new tree, next to the old one. -/
def buildRightUnderMu : Nat → Nat → Option Nat → BuildM Int
  | 0, _, _ => throw .outOfFuel
  | fuel + 1, right, left => do
    let building ← get
    if left.any fun index => (building.cell index).isNone then
      buildError "missing reconstructed left node under MerkleUpdate"
    else if (building.cell right).isSome then
      pure ((vertexDiff building left right).getD 0)
    else
      match nodes[right]? with
      | none => throw (.check "right_idx")
      | some node =>
        let leftRefs ← leftRefs nodes left
        let sumChildDiff ← node.refs.zipIdx.foldlM
          (fun sum entry => do
            let diff ← buildRightUnderMu fuel entry.1 leftRefs[entry.2]?
            pure (sum + diff))
          (0 : Int)
        if node.header.isDepthBalance then
          let building ← get
          match (left.bind building.cell).bind extractBalanceFromDepthBalanceInfo with
          | none => buildError "depth-balance left vertex has no grams"
          | some leftGrams =>
            match writeDepthBalanceGrams (leftGrams + sumChildDiff) with
            | none => buildError "failed to write depth-balance grams"
            | some bits =>
              finalizeNodeFromBuilder sha right node bits
              pure sumChildDiff
        else
          finalizeNode sha right node
          pure ((vertexDiff (← get) left right).getD 0)

def buildNode (state : Option DataCell) : Nat → Nat → Option Nat → BuildM Unit
  | 0, _, _ => throw .outOfFuel
  | fuel + 1, index, mainMu => do
    if ((← get).cell index).isSome then pure ()
    else
      match nodes[index]? with
      | none => throw (.check "idx")
      | some node =>
        if mainMu = some index ∧ isMerkleUpdateNode node then
          match node.refs with
          | [left, right] =>
            let buildLeft :=
              match state with
              | some state => buildLeftUnderMu sha loads nodes fuel left (some state)
              | none => buildNode state fuel left none
            buildLeft
            let _ ← buildRightUnderMu sha nodes fuel right (some left)
            finalizeNode sha index node
          | _ => buildError "MerkleUpdate node expected to have 2 references"
        else
          node.refs.forM fun child => buildNode state fuel child mainMu
          finalizeNode sha index node

def buildRootNodes (state : Option DataCell) (rootIndexes : List Nat) : BuildM Unit :=
  rootIndexes.forM fun index =>
    let mainMu := (nodes[index]?).bind fun node => node.refs[muCellOrderInRoot]?
    buildNode sha loads nodes state (nodes.length + 1) index mainMu

end Building

section Restore

variable (sha : Sha256) (loads : DataCell → Bool)

/-- The roots, given the previous state if the old tree has to be restored from it. -/
def restore (serialized : List UInt8) (state : Option DataCell) : BuildM (List DataCell) := do
  let parsed ← liftExcept (parse serialized)
  set ({ cells := List.replicate parsed.nodes.length none, constructed := 0 } : Building)
  buildRootNodes sha loads parsed.nodes state parsed.rootIndexes
  let building ← get
  parsed.rootIndexes.mapM fun index =>
    match building.cell index with
    | some cell => pure cell
    | none => throw (.check "nodes[index]")

def bocDecompressImprovedStructureLz4 (lz4Decompress : List UInt8 → Nat → Except String (List UInt8)) (compressed : List UInt8)
    (maxDecompressedSize : Nat) (decompressMerkleUpdate : Bool) (state : Option DataCell) : BuildM (List DataCell) :=
  if decompressMerkleUpdate && state.isNone then
    buildError "state is required for MU decompressing"
  else if compressed.length < decompressedSizeBytes then
    buildError "input too small for header"
  else
    let decompressedSize := Lib.readInt (compressed.take decompressedSizeBytes)
    if decompressedSize > maxDecompressedSize then buildError "invalid decompressed size"
    else if decompressedSize ≥ 2 ^ 31 then throw (.status "Narrow cast failed")
    else
      match lz4Decompress (compressed.drop decompressedSizeBytes) decompressedSize with
      | .error message => throw (.status message)
      | .ok serialized =>
        if serialized.length ≠ decompressedSize then buildError "decompressed size mismatch"
        -- the number of bits is an `unsigned`
        else if serialized.length * 8 ≥ 2 ^ 32 then throw (.check "narrow_cast")
        else restore sha loads serialized (if decompressMerkleUpdate then state else none)

end Restore

end BocCompression

end TonNode.Vm
