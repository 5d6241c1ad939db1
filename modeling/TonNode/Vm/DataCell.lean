import TonNode.Vm.Cell
import TonNode.Lib.ByteString

/-!
# Data cells with their level information

A data cell is created from its bits and references; creation computes its level mask and, for
every level, a hash and a depth. A hint may supply a hash, which is then not computed.
-/

namespace TonNode.Vm

/-- A SHA256 value, the highest bit first. -/
abbrev CellHash := List Bool

structure Sha256 where
  digest : List Bool → CellHash
  length_digest : ∀ data, (digest data).length = 256

namespace Cell

def maxLevel : Nat := 3
def hashBytes : Nat := 32
def depthBytes : Nat := 2

end Cell

/-! A level mask is the set of levels at which the hash of a cell changes, level `i + 1` at
bit `i`. -/

namespace LevelMask

def getLevel (mask : Nat) : Nat := if mask = 0 then 0 else Nat.log2 mask + 1

def getHashI (mask : Nat) : Nat := (List.range 32).countP mask.testBit

def getHashesCount (mask : Nat) : Nat := getHashI mask + 1

def apply (mask : Nat) (level : Nat) : Nat := mask % 2 ^ level

def applyOr (mask other : Nat) : Nat := mask ||| other

def shiftRight (mask : Nat) : Nat := mask / 2

def isSignificant (mask : Nat) (level : Nat) : Bool :=
  level == 0 || mask.testBit (level - 1)

def oneLevel (level : Nat) : Nat := if level = 0 then 0 else 2 ^ (level - 1)

end LevelMask

structure LevelInfo where
  levelMask : Nat
  depth : List Nat
  hash : List CellHash
deriving DecidableEq

namespace LevelInfo

def getLevel (info : LevelInfo) : Nat := LevelMask.getLevel info.levelMask

def getDepth (info : LevelInfo) (level : Nat) : Nat :=
  info.depth.getD (min info.getLevel level) 0

def getHash (info : LevelInfo) (level : Nat) : CellHash :=
  info.hash.getD (min info.getLevel level) []

end LevelInfo

inductive DataCell where
  | mk (specialType : SpecialType) (bits : List Bool) (refs : List DataCell) (info : LevelInfo)

namespace DataCell

def specialType : DataCell → SpecialType
  | .mk specialType _ _ _ => specialType

def bits : DataCell → List Bool
  | .mk _ bits _ _ => bits

def refs : DataCell → List DataCell
  | .mk _ _ refs _ => refs

def info : DataCell → LevelInfo
  | .mk _ _ _ info => info

def isSpecial (cell : DataCell) : Bool := cell.specialType != .ordinary

def getLevelMask (cell : DataCell) : Nat := cell.info.levelMask

def getLevel (cell : DataCell) : Nat := cell.info.getLevel

def getDepth (cell : DataCell) (level : Nat) : Nat := cell.info.getDepth level

def getHash (cell : DataCell) (level : Nat) : CellHash := cell.info.getHash level

def reprHash (cell : DataCell) : CellHash := cell.getHash Cell.maxLevel

/-- What is asked before a hash is computed: the level and the level mask of the cell. -/
abbrev HashHint := Nat → Nat → Option CellHash

def noHint : HashHint := fun _ _ => none

end DataCell

namespace CellChecker

def readByte (bits : List Bool) (index : Nat) : Nat := bitsValue ((bits.drop (8 * index)).take 8)

def loadDepth (bits : List Bool) (offset : Nat) : Nat :=
  bitsValue ((bits.drop (8 * offset)).take 16)

def loadHash (bits : List Bool) (offset : Nat) : CellHash := (bits.drop (8 * offset)).take 256

def specialType (isSpecial : Bool) (bits : List Bool) : Except String SpecialType :=
  if isSpecial then
    if bits.length < 8 then .error "Not enough data for a special cell"
    else
      match readByte bits 0 with
      | 1 => .ok .prunnedBranch
      | 2 => .ok .library
      | 3 => .ok .merkleProof
      | 4 => .ok .merkleUpdate
      | _ => .error "Invalid special cell type"
  else .ok .ordinary

/-- A depth for each level from `0` to the highest. -/
def depthAtLevels (depthAt : Nat → Nat) : List Nat := (List.range (Cell.maxLevel + 1)).map depthAt

def maxDepthAt (refs : List LevelInfo) (level : Nat) : Nat :=
  refs.foldl (fun depth ref => max depth (ref.getDepth level)) 0

def orMask (refs : List LevelInfo) : Nat :=
  refs.foldl (fun mask ref => LevelMask.applyOr mask ref.levelMask) 0

def checkOrdinaryCell (refs : List LevelInfo) : Nat × List Nat :=
  (orMask refs, depthAtLevels fun level => if refs.isEmpty then 0 else maxDepthAt refs level + 1)

def prunedDepths (mask : Nat) (bits : List Bool) : List Nat :=
  [2, 1, 0].foldl
    (fun depths level =>
      (if LevelMask.isSignificant mask (level + 1) then
        loadDepth bits (2 + LevelMask.getHashI mask * Cell.hashBytes +
          LevelMask.getHashI (LevelMask.apply mask level) * Cell.depthBytes)
      else depths.headD 0) :: depths)
    [0]

def checkPrunedBranch (bits : List Bool) (refs : List LevelInfo) : Except String (Nat × List Nat) :=
  if refs.length ≠ 0 then .error "Pruned branch cannot have references"
  else if bits.length < 16 then .error "Length mismatch in a pruned branch"
  else
    let mask : Nat := readByte bits 1
    if LevelMask.getLevel mask = 0 ∨ LevelMask.getLevel mask > Cell.maxLevel then
      .error "Invalid level mask in a pruned branch"
    else if bits.length ≠
        (2 + LevelMask.getHashI mask * (Cell.hashBytes + Cell.depthBytes)) * 8 then
      .error "Length mismatch in a pruned branch"
    else .ok (mask, prunedDepths mask bits)

def checkLibrary (bits : List Bool) (refs : List LevelInfo) : Except String (Nat × List Nat) :=
  if refs.length ≠ 0 then .error "Library cell cannot have references"
  else if bits.length ≠ 8 * (1 + Cell.hashBytes) then .error "Length mismatch in a library cell"
  else .ok (0, depthAtLevels fun _ => 0)

def checkMerkleChild (bits : List Bool) (child : LevelInfo) (hashOffset depthOffset : Nat) : Except String Unit :=
  if loadHash bits hashOffset ≠ child.getHash 0 then
    .error "Invalid hash in a Merkle proof or update"
  else if loadDepth bits depthOffset ≠ child.getDepth 0 then
    .error "Invalid depth in a Merkle proof or update"
  else .ok ()

/-- A Merkle cell sees its references one level higher. -/
def merkleDepths (refs : List LevelInfo) : List Nat :=
  depthAtLevels fun level => maxDepthAt refs (level + 1) + 1

def checkMerkleProof (bits : List Bool) (refs : List LevelInfo) : Except String (Nat × List Nat) :=
  match refs with
  | [child] =>
    if bits.length ≠ 8 * (1 + Cell.hashBytes + Cell.depthBytes) then
      .error "Length mismatch in a Merkle proof"
    else do
      checkMerkleChild bits child 1 (1 + Cell.hashBytes)
      .ok (LevelMask.shiftRight child.levelMask, merkleDepths refs)
  | _ => .error "Merkle proof must have exactly one reference"

def checkMerkleUpdate (bits : List Bool) (refs : List LevelInfo) : Except String (Nat × List Nat) :=
  match refs with
  | [first, second] =>
    if bits.length ≠ 8 * (1 + (Cell.hashBytes + Cell.depthBytes) * 2) then
      .error "Length mismatch in a Merkle update"
    else do
      checkMerkleChild bits first 1 (1 + 2 * Cell.hashBytes)
      checkMerkleChild bits second (1 + Cell.hashBytes) (1 + 2 * Cell.hashBytes + 2)
      .ok (LevelMask.shiftRight (LevelMask.applyOr first.levelMask second.levelMask), merkleDepths refs)
  | _ => .error "Merkle update must have exactly two references"

def checkType (type : SpecialType) (bits : List Bool) (refs : List LevelInfo) : Except String (Nat × List Nat) :=
  match type with
  | .ordinary => .ok (checkOrdinaryCell refs)
  | .prunnedBranch => checkPrunedBranch bits refs
  | .library => checkLibrary bits refs
  | .merkleProof => checkMerkleProof bits refs
  | .merkleUpdate => checkMerkleUpdate bits refs

def isMerkleNode (type : SpecialType) : Bool := type == .merkleProof || type == .merkleUpdate

/-- The level at which a cell of this type sees its references. -/
def childLevel (type : SpecialType) (level : Nat) : Nat :=
  if isMerkleNode type then min Cell.maxLevel (level + 1) else level

def descriptor1 (refsCount : Nat) (isSpecial : Bool) (mask : Nat) : Nat :=
  refsCount + isSpecial.toNat * 8 + mask * 32

def descriptor2 (bitLength : Nat) : Nat := bitLength / 8 * 2 + (decide (bitLength % 8 ≠ 0)).toNat

def dataToHash (type : SpecialType) (bitLength : Nat) (mask : Nat) (contents : List Bool)
    (refs : List LevelInfo) (level : Nat) : List Bool :=
  longBits (descriptor1 refs.length (type != .ordinary) mask) 8 ++ longBits (descriptor2 bitLength) 8 ++ contents ++
    refs.flatMap (fun ref => longBits (ref.getDepth (childLevel type level)) 16) ++
    refs.flatMap (fun ref => ref.getHash (childLevel type level))

/-- `computed` holds the hashes of the levels below, the last one computed at its end. -/
def computeHash (sha : Sha256) (type : SpecialType) (bits : List Bool) (refs : List LevelInfo)
    (mask : Nat) (level : Nat) (computed : List CellHash) : CellHash :=
  if level ≠ Cell.maxLevel ∧ type = .prunnedBranch then
    loadHash bits (2 + LevelMask.getHashI (LevelMask.apply mask level) * Cell.hashBytes)
  else
    let contents :=
      match computed.getLast? with
      | some last => if type = .prunnedBranch then Lib.completeBits bits else last
      | none => Lib.completeBits bits
    sha.digest (dataToHash type bits.length (LevelMask.apply mask level) contents refs level)

/-- One round of the loop over the levels: a level whose hash differs from the next one gets its
hash. -/
def hashLevel (sha : Sha256) (hint : DataCell.HashHint) (type : SpecialType) (bits : List Bool)
    (refs : List LevelInfo) (mask : Nat) (computed : List CellHash) (level : Nat) : List CellHash :=
  if !LevelMask.isSignificant mask (level + 1) && level != Cell.maxLevel then computed
  else
    let hash := (hint level mask).getD (computeHash sha type bits refs mask level computed)
    computed ++ List.replicate (level + 1 - computed.length) hash

def hashes (sha : Sha256) (hint : DataCell.HashHint) (type : SpecialType) (bits : List Bool)
    (refs : List LevelInfo) (mask : Nat) : List CellHash :=
  (List.range (Cell.maxLevel + 1)).foldl (hashLevel sha hint type bits refs mask) []

def checkAndComputeLevelInfo (sha : Sha256) (hint : DataCell.HashHint) (isSpecial : Bool)
    (bits : List Bool) (refs : List LevelInfo) : Except String (SpecialType × LevelInfo) := do
  let type ← specialType isSpecial bits
  let (levelMask, depth) ← checkType type bits refs
  if depth.any (· > Cell.maxDepth) then .error "Depth is too big"
  else .ok (type, { levelMask, depth, hash := hashes sha hint type bits refs levelMask })

end CellChecker

namespace DataCell

def create (sha : Sha256) (bits : List Bool) (refs : List DataCell) (isSpecial : Bool)
    (hint : HashHint) : Except String DataCell :=
  if refs.length > Cell.maxRefs then .error "Too many references"
  else if bits.length > Cell.maxBits then .error "Too many data bits"
  else do
    let (type, info) ←
      CellChecker.checkAndComputeLevelInfo sha hint isSpecial bits (refs.map DataCell.info)
    .ok (.mk type bits refs info)

/-- A cell all of whose level information, and that of the cells below it, was computed from
contents. -/
inductive Created (sha : Sha256) : DataCell → Prop where
  | create {bits : List Bool} {refs : List DataCell} {isSpecial : Bool} {cell : DataCell} :
      (∀ ref ∈ refs, Created sha ref) → DataCell.create sha bits refs isSpecial noHint = .ok cell →
      Created sha cell

end DataCell

end TonNode.Vm
