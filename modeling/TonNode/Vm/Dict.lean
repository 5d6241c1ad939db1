import TonNode.Vm.DictLabel

/-!
# Dictionaries

The operations of `Dictionary` on one key. A dictionary is a cell of references to nodes; `none`
is the empty dictionary. Keys are lists of bits, `n` is the number of key bits below a node.
-/

namespace TonNode.Vm

/-- `store_value_func_t`: appends a value to a builder, or returns false. -/
structure StoreValue where
  value : CellSlice
  run : CellBuilder → Option CellBuilder
  stores : ∀ cb stored, run cb = some stored → stored = cb.append value

namespace StoreValue

/-- `cell_builder_add_slice_bool(cb, *value)` -/
def ofSlice (value : CellSlice) : StoreValue where
  value := value
  run cb := cb.addSliceBool value
  stores cb stored := by
    unfold CellBuilder.addSliceBool
    split
    · exact fun same => (Option.some.inj same).symm
    · exact fun same => nomatch same

end StoreValue

inductive SetMode where
  | set
  | replace
  | add
deriving DecidableEq

def createLeaf (key : List Bool) (n : Nat) (storeVal : StoreValue) : Except Thrown Cell := do
  let cb ← appendDictLabel .new key n n
  let cb ← orThrow (storeVal.run cb)
    (.vmError .cellOv "cannot store new value into a dictionary cell")
  cb.finalize

def createFork (label : List Bool) (len n : Nat) (c1 c2 : Option Cell) : Except Thrown Cell := do
  let cb ← appendDictLabel .new label len n
  let cb ← cb.storeRef c1
  let cb ← cb.storeRef c2
  cb.finalize

/-- `finish_create_fork` after the label -/
def finishCreateFork (label : List Bool) (len n : Nat) (c1 c2 : Option Cell) : Except Thrown Cell := do
  let cb ← appendDictLabel .new label len n
  let stored := (cb.storeRefBool c1).bind fun cb => cb.storeRefBool c2
  let cb ← orThrow stored
    (.vmError .dictErr "cannot store branch references into a dictionary fork cell")
  cb.finalize

/-- The lower portion of an old edge, below its first `pfxLen + 1` bits. -/
def lowerEdge (label : LabelParser) (pfxLen m : Nat) : Except Thrown CellBuilder :=
  let t := label.lBits - pfxLen - 1
  if label.lSame ≠ 0 then appendDictLabelSame .new label.same t m
  else appendDictLabel .new (label.remainder.bits.drop (pfxLen + 1)) t m

/-- Inserts a fork inside an edge, with the new key on one side and the old payload on the other. -/
def splitEdge (label : LabelParser) (key : List Bool) (n pfxLen : Nat) (storeVal : StoreValue) : Except Thrown Cell := do
  let m := n - pfxLen - 1
  let c1 ← createLeaf (key.drop (pfxLen + 1)) m storeVal
  let cb ← lowerEdge label pfxLen m
  let cb ← orThrow (cb.addSliceBool label.payload)
    (.vmError .cellOv "cannot change label of an old dictionary cell (?)")
  let c2 ← cb.finalize
  if key.getD pfxLen false then createFork key pfxLen n (some c2) (some c1)
  else createFork key pfxLen n (some c1) (some c2)

/-- Joins the edge `upper` with the edge of the only child below it, which has `m`-bit keys. -/
def mergeEdge (child : Option Cell) (upper : List Bool) (m n : Nat) : Except Thrown Cell := do
  let label ← LabelParser.ofCell child m
  let joined := upper ++ label.bits
  let cb ← appendDictLabel .new joined (upper.length + label.lBits) n
  let cb ← orThrow (cb.addSliceBool label.payload)
    (.vmError .cellOv "cannot change label of an old dictionary cell while merging edges")
  cb.finalize

def joinChildren (fork : List Bool → Nat → Nat → Option Cell → Option Cell → Except Thrown Cell)
    (label : List Bool) (len n : Nat) (c1 c2 : Option Cell) : Except Thrown (Option Cell) :=
  match c1, c2 with
  | none, none => .ok none
  | some c1, some c2 => do
    let cell ← fork label len n (some c1) (some c2)
    return some cell
  | some c1, none => do
    let cell ← mergeEdge (some c1) (label.take len ++ [false]) (n - len - 1) n
    return some cell
  | none, some c2 => do
    let cell ← mergeEdge (some c2) (label.take len ++ [true]) (n - len - 1) n
    return some cell

/-- The loop of `DictionaryFixed::lookup` -/
def lookupNode (cell : Option Cell) (key : List Bool) (n : Nat) : Except Thrown (Option CellSlice) := do
  let label ← LabelParser.ofCell cell n
  if label.isPrefixOf key n then
    if _ : label.lBits < n then
      let sw := key.getD label.lBits false
      lookupNode (label.remainder.prefetchRef sw.toNat) (key.drop (label.lBits + 1)) (n - label.lBits - 1)
    else return some label.payload
  else return none
termination_by n

def dictSet (dict : Option Cell) (key : List Bool) (n : Nat) (storeVal : StoreValue)
    (mode : SetMode) : Except Thrown (Option Cell × Bool) :=
  match dict with
  | none =>
    if mode = .replace then .ok (none, false)
    else do
      let cell ← createLeaf key n storeVal
      return (some cell, true)
  | some cell => do
    let label ← LabelParser.ofCell (some cell) n
    let pfxLen := label.commonPrefixLen key n
    ensure (pfxLen ≤ label.lBits ∧ label.lBits ≤ n) .assertion
    if pfxLen < label.lBits then
      if mode = .replace then return (none, false)
      else
        let cell ← splitEdge label key n pfxLen storeVal
        return (some cell, true)
    else if _ : label.lBits < n then
      let c1 := label.remainder.prefetchRef 0
      let c2 := label.remainder.prefetchRef 1
      if key.getD label.lBits false then
        let res ← dictSet c2 (key.drop (label.lBits + 1)) (n - label.lBits - 1) storeVal mode
        if res.2 then
          let cell ← createFork key label.lBits n c1 res.1
          return (some cell, true)
        else return (none, false)
      else
        let res ← dictSet c1 (key.drop (label.lBits + 1)) (n - label.lBits - 1) storeVal mode
        if res.2 then
          let cell ← createFork key label.lBits n res.1 c2
          return (some cell, true)
        else return (none, false)
    else
      -- the edge leads to a leaf, which holds a value for the key already
      if mode = .add then return (none, false)
      else
        let cell ← createLeaf key n storeVal
        return (some cell, true)
termination_by n

def dictLookupSet (dict : Option Cell) (key : List Bool) (n : Nat) (storeVal : StoreValue)
    (mode : SetMode) : Except Thrown (Option CellSlice × Option Cell × Bool) :=
  match dict with
  | none =>
    if mode = .replace then .ok (none, none, false)
    else do
      let cell ← createLeaf key n storeVal
      return (none, some cell, true)
  | some cell => do
    let label ← LabelParser.ofCell (some cell) n
    let pfxLen := label.commonPrefixLen key n
    ensure (pfxLen ≤ label.lBits ∧ label.lBits ≤ n) .assertion
    if pfxLen < label.lBits then
      if mode = .replace then return (none, none, false)
      else
        let cell ← splitEdge label key n pfxLen storeVal
        return (none, some cell, true)
    else if _ : label.lBits < n then
      let c1 := label.remainder.prefetchRef 0
      let c2 := label.remainder.prefetchRef 1
      if key.getD label.lBits false then
        let (oldVal, child, changed) ←
          dictLookupSet c2 (key.drop (label.lBits + 1)) (n - label.lBits - 1) storeVal mode
        if changed then
          let cell ← createFork key label.lBits n c1 child
          return (oldVal, some cell, true)
        else return (oldVal, none, false)
      else
        let (oldVal, child, changed) ←
          dictLookupSet c1 (key.drop (label.lBits + 1)) (n - label.lBits - 1) storeVal mode
        if changed then
          let cell ← createFork key label.lBits n child c2
          return (oldVal, some cell, true)
        else return (oldVal, none, false)
    else
      if mode = .add then return (some label.payload, none, false)
      else
        let cell ← createLeaf key n storeVal
        return (some label.payload, some cell, true)
termination_by n

def dictLookupDelete (dict : Option Cell) (key : List Bool) (n : Nat) : Except Thrown (Option CellSlice × Option Cell) :=
  match dict with
  | none => .ok (none, none)
  | some cell => do
    let label ← LabelParser.ofCell (some cell) n
    let pfxLen := label.commonPrefixLen key n
    ensure (pfxLen ≤ label.lBits ∧ label.lBits ≤ n) .assertion
    if pfxLen < label.lBits then return (none, none)
    else if _ : label.lBits < n then
      let c1 := label.remainder.prefetchRef 0
      let c2 := label.remainder.prefetchRef 1
      let m := n - label.lBits - 1
      let swBit := key.getD label.lBits false
      let (oldVal, child) ←
        dictLookupDelete (if swBit then c2 else c1) (key.drop (label.lBits + 1)) m
      match oldVal with
      | none => return (none, none)
      | some oldVal =>
        ensure ((if swBit then c1 else c2).isSome) .assertion
        let root ← joinChildren finishCreateFork key label.lBits n
          (if swBit then c1 else child) (if swBit then child else c2)
        return (some oldVal, root)
    else return (some label.payload, none)
termination_by n

/-- The loop of `dict_lookup_minmax`; `keyBuffer` holds the bits of the key found so far. -/
def minmaxLoop (dict : Option Cell) (keyBuffer : List Bool) (n : Nat) (mode : BitVec 32) :
    Except Thrown (List Bool × CellSlice) := do
  let label ← LabelParser.ofCell dict n
  let keyBuffer := keyBuffer ++ label.bits
  ensure (label.lBits ≤ n) .assertion
  if _ : label.lBits < n then
    let mode := if label.lBits ≠ 0 then mode.sshiftRight 1 else mode
    let bit := mode.getLsbD 0
    minmaxLoop (label.remainder.prefetchRef bit.toNat) (keyBuffer ++ [bit]) (n - label.lBits - 1) (mode.sshiftRight 1)
  else return (keyBuffer, label.payload)
termination_by n

def dictLookupMinmax (dict : Option Cell) (n : Nat) (mode : BitVec 32) : Except Thrown (Option (List Bool × CellSlice)) :=
  match dict with
  | none => .ok none
  | some cell => do
    let found ← minmaxLoop (some cell) [] n mode
    return some found

/-- The key buffer after a search for an extreme key below its first bits. -/
def minmaxBuffer (above below : List Bool) :
    Option (List Bool × CellSlice) → List Bool × Option CellSlice
  | none => (above ++ below, none)
  | some (key, value) => (above ++ key, some value)

/-- Returns the key buffer and the value found; `keyBuffer` holds the bits of the start key below
`dict`. -/
def dictLookupNearest (dict : Option Cell) (keyBuffer : List Bool) (n : Nat) (allowEq : Bool)
    (mode : BitVec 32) : Except Thrown (List Bool × Option CellSlice) :=
  match dict with
  | none => .ok (keyBuffer, none)
  | some cell => do
    let label ← LabelParser.ofCell (some cell) n
    let pfxLen := label.commonPrefixLen keyBuffer n
    ensure (pfxLen ≤ label.lBits ∧ label.lBits ≤ n) .assertion
    if pfxLen < label.lBits then
      if keyBuffer.getD pfxLen false =
          (if pfxLen ≠ 0 then mode.sshiftRight 1 else mode).getLsbD 0 then
        return (keyBuffer, none)
      else
        let found ← dictLookupMinmax (some cell) n (~~~mode)
        return minmaxBuffer [] keyBuffer found
    else
      let mode := if label.lBits ≠ 0 then mode.sshiftRight 1 else mode
      let above := keyBuffer.take label.lBits
      if _ : label.lBits < n then
        let m := n - label.lBits - 1
        let bit := keyBuffer.getD label.lBits false
        let (below, found) ← dictLookupNearest (label.remainder.prefetchRef bit.toNat)
          (keyBuffer.drop (label.lBits + 1)) m allowEq (mode.sshiftRight 1)
        let side := mode.getLsbD 0
        if found.isSome ∨ bit = side then return (above ++ bit :: below, found)
        else
          let found ← dictLookupMinmax (label.remainder.prefetchRef side.toNat) m
            ((~~~mode).sshiftRight 1)
          return minmaxBuffer (above ++ [side]) below found
      else return (keyBuffer, if allowEq then some label.payload else none)
termination_by n

/-- `-(fetch_max ? 1 : 0) ^ (invert_first ? 1 : 0)` -/
def minmaxMode (fetchMax invertFirst : Bool) : BitVec 32 :=
  (if fetchMax then -1#32 else 0#32) ^^^ (if invertFirst then 1#32 else 0#32)

structure Dictionary where
  rootCell : Option Cell
  keyBits : Nat

namespace Dictionary

def maxKeyBits : Nat := 1023

def new (n : Nat) : Dictionary := { rootCell := none, keyBits := n }

def forceValidate (dict : Dictionary) : Except Thrown Unit :=
  ensure (dict.keyBits ≤ maxKeyBits) (.vmError .dictErr "invalid dictionary")

def lookup (dict : Dictionary) (key : List Bool) : Except Thrown (Option CellSlice) := do
  dict.forceValidate
  match dict.rootCell with
  | none => return none
  | some cell =>
    if key.length ≠ dict.keyBits then return none
    else lookupNode (some cell) key key.length

def setGen (dict : Dictionary) (key : List Bool) (storeVal : StoreValue) (mode : SetMode) :
    Except Thrown (Bool × Dictionary) := do
  dict.forceValidate
  if key.length ≠ dict.keyBits then return (false, dict)
  else
    let (root, changed) ← dictSet dict.rootCell key key.length storeVal mode
    if changed then return (true, { dict with rootCell := root })
    else return (false, dict)

def set (dict : Dictionary) (key : List Bool) (value : CellSlice) (mode : SetMode) : Except Thrown (Bool × Dictionary) :=
  dict.setGen key (.ofSlice value) mode

def lookupSetGen (dict : Dictionary) (key : List Bool) (storeVal : StoreValue) (mode : SetMode) :
    Except Thrown (Option CellSlice × Dictionary) := do
  dict.forceValidate
  if key.length ≠ dict.keyBits then return (none, dict)
  else
    let (oldVal, root, changed) ← dictLookupSet dict.rootCell key key.length storeVal mode
    if changed then return (oldVal, { dict with rootCell := root })
    else return (oldVal, dict)

def lookupSet (dict : Dictionary) (key : List Bool) (value : CellSlice) (mode : SetMode) :
    Except Thrown (Option CellSlice × Dictionary) :=
  dict.lookupSetGen key (.ofSlice value) mode

def lookupDelete (dict : Dictionary) (key : List Bool) : Except Thrown (Option CellSlice × Dictionary) := do
  dict.forceValidate
  if key.length ≠ dict.keyBits then return (none, dict)
  else
    let (oldVal, root) ← dictLookupDelete dict.rootCell key key.length
    match oldVal with
    | some oldVal => return (some oldVal, { dict with rootCell := root })
    | none => return (none, dict)

/-- Overwrites the key buffer, which holds the start key. -/
def lookupNearestKey (dict : Dictionary) (keyBuffer : List Bool)
    (fetchNext allowEq invertFirst : Bool) : Except Thrown (List Bool × Option CellSlice) := do
  dict.forceValidate
  if keyBuffer.length ≠ dict.keyBits then return (keyBuffer, none)
  else
    dictLookupNearest dict.rootCell keyBuffer keyBuffer.length allowEq (minmaxMode fetchNext invertFirst)

def getMinmaxKey (dict : Dictionary) (keyLen : Nat) (fetchMax invertFirst : Bool) :
    Except Thrown (Option (List Bool × CellSlice)) := do
  dict.forceValidate
  if keyLen ≠ dict.keyBits then return none
  else dictLookupMinmax dict.rootCell keyLen (minmaxMode fetchMax invertFirst)

def extractMinmaxKey (dict : Dictionary) (fetchMax invertFirst : Bool) :
    Except Thrown (Option (List Bool × CellSlice) × Dictionary) := do
  dict.forceValidate
  let found ← dictLookupMinmax dict.rootCell dict.keyBits (minmaxMode fetchMax invertFirst)
  match found with
  | none => return (none, dict)
  | some (key, value) =>
    let (oldVal, root) ← dictLookupDelete dict.rootCell key dict.keyBits
    ensure (oldVal.isSome) .assertion
    return (some (key, value), { dict with rootCell := root })

end Dictionary

end TonNode.Vm
