import TonNode.Lib.CallLog
import TonNode.Vm.Dict

/-!
# Operations on whole dictionaries

Mapping, filtering, prefix subdictionaries, several keys at once and the combination of two
dictionaries. The key buffer of the source is the list of the key bits above the current node.
-/

namespace TonNode.Vm

/-- A function of the caller that appends a value to a builder, returns false or throws. -/
structure LeafFunc (Args : Type) where
  run : Args → CellBuilder → Except Thrown (Option CellBuilder)
  appends : ∀ args cb stored, run args cb = .ok (some stored) → ∃ value, stored = cb.append value
  asserts : ∀ args cb, run args cb ≠ .error .assertion

/-- `filter_func_t`: a caller's decision on a value and its key -/
structure FilterFunc where
  run : CellSlice → List Bool → Except Thrown Int
  asserts : ∀ value key, run value key ≠ .error .assertion

/-- `map_func_t`, on the value and the key -/
abbrev MapFunc := LeafFunc (CellSlice × List Bool)

/-- What `combine_func_t` is called with: the two values and the key. -/
abbrev CombineCall := CellSlice × CellSlice × List Bool

/-- `combine_func_t`, whose answer may depend on the earlier calls -/
abbrev CombineFunc := LeafFunc (List CombineCall × CombineCall)

abbrev CombineM := Lib.CallM Thrown CombineCall

def createLeafWith {Args : Type} (func : LeafFunc Args) (args : Args) (label : List Bool)
    (len n : Nat) : Except Thrown (Option Cell) := do
  let cb ← appendDictLabel .new label len n
  match ← func.run args cb with
  | none => return none
  | some cb =>
    let cell ← cb.finalize
    return some cell

def dictMap (dict : Option Cell) (keyBuffer : List Bool) (n : Nat) (mapFunc : MapFunc) : Except Thrown (Option Cell) :=
  match dict with
  | none => .ok none
  | some cell => do
    let label ← LabelParser.ofCell (some cell) n
    let l := label.lBits
    let key := keyBuffer ++ label.bits
    if _ : label.lBits < n then
      let c1 ← dictMap (label.remainder.prefetchRef 0) (key ++ [false]) (n - label.lBits - 1)
        mapFunc
      let c2 ← dictMap (label.remainder.prefetchRef 1) (key ++ [true]) (n - label.lBits - 1)
        mapFunc
      joinChildren createFork label.bits l n c1 c2
    else createLeafWith mapFunc (label.payload, key) label.bits l n
termination_by n

/-- The answer of `check_leaf` as the number of changes and the new `skip_rest`. -/
def leafChanges (res skipRest : Int) : Int × Int :=
  if 2 ^ 30 ≤ res then
    -- skip all, or retain all
    let res := res % 2 ^ 30
    (if res = 0 then 1 else 0, if res = 0 then 2 ^ 30 else 0)
  else (if res < 0 then res else if res = 0 then 1 else 0, skipRest)

/-- The number of changes in both branches; `2 ^ 30` stands for a whole branch that was dropped. -/
def totalChanges (left right : Int) : Int :=
  if (left.toNat ||| right.toNat).testBit 30 then 2 ^ 30 else left + right

/-- Returns the new subtree, the number of changes (0 leaves the subtree as it was, a negative one
is an error) and the new `skip_rest`. -/
def dictFilter (dict : Option Cell) (keyBuffer : List Bool) (n : Nat) (checkLeaf : FilterFunc) (skipRest : Int) :
    Except Thrown (Option Cell × Int × Int) :=
  match dict with
  | none => .ok (none, 0, skipRest)
  | some cell =>
    if 0 ≤ skipRest then .ok (none, skipRest, skipRest)
    else do
      let label ← LabelParser.ofCell (some cell) n
      ensure (label.lBits ≤ n) .assertion
      let key := keyBuffer ++ label.bits
      if _ : label.lBits < n then
        let m := n - label.lBits - 1
        let c1 := label.remainder.prefetchRef 0
        let c2 := label.remainder.prefetchRef 1
        let (left, leftChanges, skipRest) ← dictFilter c1 (key ++ [false]) m checkLeaf skipRest
        if leftChanges < 0 then return (left, leftChanges, skipRest)
        else
          let (right, rightChanges, skipRest) ← dictFilter c2 (key ++ [true]) m checkLeaf skipRest
          if rightChanges < 0 ∨ (leftChanges = 0 ∧ rightChanges = 0) then
            return (right, rightChanges, skipRest)
          else
            let root ← joinChildren finishCreateFork label.bits label.lBits n
              (if leftChanges ≠ 0 then left else c1) (if rightChanges ≠ 0 then right else c2)
            return (root, totalChanges leftChanges rightChanges, skipRest)
      else
        let res ← checkLeaf.run label.payload key
        let (changes, skipRest) := leafChanges res skipRest
        return (none, changes, skipRest)
termination_by n

/-- The root of the subdictionary below a node that ends the prefix. -/
def prefixSubdictRoot (label : LabelParser) (pfx : List Bool) (keyBits m : Nat)
    (removePrefix : Bool) : Except Thrown CellBuilder :=
  let rest := m + label.lBits - pfx.length
  if removePrefix then
    if label.lSame = 0 then
      appendDictLabel .new (label.bits.drop (label.lBits - rest)) rest (keyBits - pfx.length)
    else appendDictLabelSame .new label.same rest (keyBits - pfx.length)
  else appendDictLabel .new (pfx.take m ++ label.bits) (m + label.lBits) keyBits

/-- The loop of `extract_prefix_subdict_internal`; `m` bits of the prefix lead to `dict`. -/
def prefixSubdictLoop (dict : Option Cell) (pfx : List Bool) (keyBits m : Nat)
    (removePrefix : Bool) : Except Thrown (Option Cell × Bool) := do
  let label ← LabelParser.ofCell dict (keyBits - m)
  let l := min (pfx.length - m) label.lBits
  if label.commonPrefixLen (pfx.drop m) l < l then return (none, true)
  else if _ : m + label.lBits < pfx.length then
    let sw := pfx.getD (m + label.lBits) false
    prefixSubdictLoop (label.remainder.prefetchRef sw.toNat) pfx keyBits (m + label.lBits + 1)
      removePrefix
  else if !removePrefix && m = 0 then return (none, false)
  else
    let cb ← prefixSubdictRoot label pfx keyBits m removePrefix
    let cb ← orThrow (cb.addSliceBool label.payload) (.vmError .cellOv
      "cannot create new dictionary root while constructing prefix subdictionary")
    let cell ← cb.finalize
    return (some cell, true)
termination_by pfx.length - m

/-- Returns the new root, or false if the dictionary is unchanged. -/
def extractPrefixSubdictInternal (dict : Option Cell) (pfx : List Bool) (keyBits : Nat)
    (removePrefix : Bool) : Except Thrown (Option Cell × Bool) :=
  if dict = none ∨ pfx.length = 0 then .ok (none, false)
  else if keyBits < pfx.length then .ok (none, true)
  else prefixSubdictLoop dict pfx keyBits 0 removePrefix

/-! ### Several keys at once -/

/-- A key with its new value, or with none to remove the key. -/
abbrev NewValue := List Bool × Option CellBuilder

def CellBuilder.asSlice (cb : CellBuilder) : CellSlice := { bits := cb.bits, refs := cb.refs }

/-- The keys are sorted, so those that have the bit 0 at `pos` come first. -/
def valuesLeft (values : List NewValue) (pos : Nat) : List NewValue :=
  values.takeWhile fun value => !value.1.getD pos false

def valuesRight (values : List NewValue) (pos : Nat) : List NewValue :=
  values.dropWhile fun value => !value.1.getD pos false

/-- The length of the common prefix of all (sorted) keys after `pfxLen` bits. -/
def valuesPrefixLen (first : NewValue) (rest : List NewValue) (pfxLen : Nat) : Nat :=
  Lib.commonPrefixLen (first.1.drop pfxLen) (((first :: rest).getLastD first).1.drop pfxLen)

def dictBuild (values : List NewValue) (totalKeyLen pfxLen : Nat) : Except Thrown (Option Cell) :=
  match values with
  | [] => .ok none
  | [(_, none)] => .error .combineError
  | [(key, some value)] => do
    let cell ← createLeaf (key.drop pfxLen) (totalKeyLen - pfxLen) (.ofSlice value.asSlice)
    return some cell
  | first :: second :: rest =>
    let c := valuesPrefixLen first (second :: rest) pfxLen
    if _ : pfxLen + c < totalKeyLen then do
      let left ← dictBuild (valuesLeft (first :: second :: rest) (pfxLen + c)) totalKeyLen
        (pfxLen + c + 1)
      let right ← dictBuild (valuesRight (first :: second :: rest) (pfxLen + c)) totalKeyLen
        (pfxLen + c + 1)
      let cell ← finishCreateFork (first.1.drop pfxLen) c (totalKeyLen - pfxLen) left right
      return some cell
    else .error .assertion
termination_by totalKeyLen - pfxLen

/-- Removes the first bits of the label of a node, `rest` of the label stays. -/
def pruneLabel (label : LabelParser) (rest : List Bool) (n : Nat) (message : String) : Except Thrown Cell := do
  let cb ← appendDictLabel .new rest rest.length n
  let cb ← orThrow (cb.addSliceBool label.payload) (.vmError .cellOv message)
  cb.finalize

def forkBySide (bit : Bool) (label : List Bool) (len n : Nat) (other own : Option Cell) : Except Thrown Cell :=
  if bit then finishCreateFork label len n other own else finishCreateFork label len n own other

def pruneMessage : String :=
  "cannot prune label of an old dictionary cell while merging dictionaries"

/-- `combine_func` of `dict_multiset` -/
def replaceLeaf (value : Option CellBuilder) (label : List Bool) (len n : Nat) : Except Thrown (Option Cell) := do
  let cb ← appendDictLabel .new label len n
  match value with
  | none => return none
  | some value =>
    let cb ← orThrow (cb.addSliceBool value.asSlice) .cellCreateError
    let cell ← cb.finalize
    return some cell

/-- `skip1` bits are to be removed from all keys of `dict1`, whose keys have `n + skip1` bits. -/
def dictMultiset (dict1 : Option Cell) (values2 : List NewValue) (keyBuffer : List Bool)
    (n totalKeyLen skip1 : Nat) : Except Thrown (Option Cell) := do
  let pfxLen := totalKeyLen - n
  ensure (∀ value ∈ values2, value.1.take pfxLen = keyBuffer) .assertion
  match dict1, values2 with
  | none, _ => dictBuild values2 totalKeyLen pfxLen
  | some cell, [] =>
    ensure (skip1 = 0) .assertion
    return some cell
  | some cell, first :: rest =>
    let l2 := valuesPrefixLen first rest pfxLen
    ensure (pfxLen + l2 < totalKeyLen ∨ rest = []) .assertion
    let label1 ← LabelParser.ofCell (some cell) (n + skip1)
    let l1 := label1.lBits - skip1
    ensure (skip1 ≤ label1.lBits) .assertion
    ensure (skip1 = 0 ∨ label1.commonPrefixLen (keyBuffer.drop (keyBuffer.length - skip1)) skip1 = skip1) .assertion
    let c := label1.commonPrefixLen (first.1.drop (pfxLen - skip1)) (skip1 + l2) - skip1
    let key1 := label1.bits.drop skip1
    ensure (c ≤ l1 ∧ c ≤ l2) .assertion
    if c < l1 ∧ c < l2 then
      -- the two dictionaries have disjoint keys
      let pruned ← pruneLabel label1 (key1.drop (c + 1)) (n - c - 1) pruneMessage
      let built ← dictBuild values2 totalKeyLen (pfxLen + c + 1)
      let cell ← forkBySide (first.1.getD (pfxLen + c) false) key1 c n (some pruned) built
      return some cell
    else if _ : c < n then
      let left := valuesLeft (first :: rest) (pfxLen + l2)
      let right := valuesRight (first :: rest) (pfxLen + l2)
      let c1 := label1.remainder.prefetchRef 0
      let c2 := label1.remainder.prefetchRef 1
      if c = l1 ∧ c = l2 then
        let _ ← appendDictLabel .new key1 c n
        let c1 ← dictMultiset c1 left (keyBuffer ++ key1.take c ++ [false]) (n - c - 1)
          totalKeyLen 0
        let c2 ← dictMultiset c2 right (keyBuffer ++ key1.take c ++ [true]) (n - c - 1)
          totalKeyLen 0
        joinChildren finishCreateFork key1 c n c1 c2
      else if c = l1 then
        -- the new values go to one of the children of the root
        let key2 := (first.1.drop pfxLen).take l2
        let sw := key2.getD c false
        let child ← dictMultiset (if sw then c2 else c1) (first :: rest)
          (keyBuffer ++ key2.take (c + 1)) (n - c - 1) totalKeyLen 0
        ensure ((if sw then c1 else c2).isSome) .assertion
        joinChildren finishCreateFork key2 c n (if sw then c1 else child) (if sw then child else c2)
      else
        -- the dictionary goes to one side of the new values
        let sw := key1.getD c false
        let child ← dictMultiset (some cell) (if sw then right else left)
          (keyBuffer ++ key1.take (c + 1)) (n - c - 1) totalKeyLen (skip1 + c + 1)
        let built ← dictBuild (if sw then left else right) totalKeyLen (pfxLen + l2 + 1)
        ensure built.isSome .assertion
        joinChildren finishCreateFork key1 c n (if sw then built else child) (if sw then child else built)
    else replaceLeaf first.2 key1 c n
termination_by n

/-! ### Two dictionaries -/

/-- `mode`: 1 forbids keys of `dict2` that `dict1` lacks, 2 those of `dict1` that `dict2` lacks. -/
def forbids (mode bits : Nat) : Bool := mode &&& bits ≠ 0

/-- The labels at the roots of two dictionaries, `key1` and `key2` without the bits to be skipped
and `c` bits of them in common. -/
structure LabelPair where
  label1 : LabelParser
  label2 : LabelParser
  l1 : Nat
  l2 : Nat
  c : Nat
  key1 : List Bool
  key2 : List Bool

/-- `skip1` bits are to be removed from all keys of `dict1`, `skip2` from those of `dict2`. -/
def LabelPair.parse (label : Option Cell → Nat → Except Thrown LabelParser) (dict1 dict2 : Cell)
    (keyBuffer : List Bool) (n skip1 skip2 : Nat) : Except Thrown LabelPair := do
  let label1 ← label (some dict1) (n + skip1)
  let label2 ← label (some dict2) (n + skip2)
  let l1 := label1.lBits - skip1
  let l2 := label2.lBits - skip2
  ensure (skip1 ≤ label1.lBits ∧ skip2 ≤ label2.lBits) .assertion
  let above (skip : Nat) := keyBuffer.drop (keyBuffer.length - skip)
  ensure (skip1 = 0 ∨ label1.commonPrefixLen (above skip1) skip1 = skip1) .assertion
  ensure (skip2 = 0 ∨ label2.commonPrefixLen (above skip2) skip2 = skip2) .assertion
  let key1 := label1.bits.drop skip1
  let c := label2.commonPrefixLen (above skip2 ++ key1) (skip2 + l1) - skip2
  ensure (c ≤ l1 ∧ c ≤ l2) .assertion
  return { label1, label2, l1, l2, c, key1, key2 := label2.bits.drop skip2 }

def combineLeaf (combineFunc : CombineFunc) (args : CombineCall) (label : List Bool) (len n : Nat) : CombineM (Option Cell) := do
  let cb ← appendDictLabel .new label len n
  match ← Lib.call (fun calls args => combineFunc.run (calls, args) cb) args with
  | none => return none
  | some cb =>
    let cell ← cb.finalize
    return some cell

def dictCombineWith (dict1 dict2 : Option Cell) (keyBuffer : List Bool) (n : Nat)
    (combineFunc : CombineFunc) (mode skip1 skip2 : Nat) : CombineM (Option Cell) :=
  match dict1, dict2 with
  | none, dict2 => do
    ensure (skip2 = 0) .assertion
    if forbids mode 1 && dict2.isSome then throw .combineError
    else return dict2
  | some dict1, none => do
    ensure (skip1 = 0) .assertion
    if forbids mode 2 then throw .combineError
    else return some dict1
  | some dict1, some dict2 => do
    let labels ← LabelPair.parse LabelParser.ofCell dict1 dict2 keyBuffer n skip1 skip2
    let c := labels.c
    if c < labels.l1 ∧ c < labels.l2 then
      -- the two dictionaries have disjoint keys
      if forbids mode 3 then throw .combineError
      else
        let pruned1 ← pruneLabel labels.label1 (labels.key1.drop (c + 1)) (n - c - 1) pruneMessage
        let pruned2 ← pruneLabel labels.label2 (labels.key2.drop (c + 1)) (n - c - 1)
          "cannot change label of an old dictionary cell while merging edges"
        let cell ← forkBySide (labels.key2.getD c false) labels.key2 c n (some pruned1)
          (some pruned2)
        return some cell
    else if _ : c < n then
      let left1 := labels.label1.remainder.prefetchRef 0
      let right1 := labels.label1.remainder.prefetchRef 1
      let left2 := labels.label2.remainder.prefetchRef 0
      let right2 := labels.label2.remainder.prefetchRef 1
      if c = labels.l1 ∧ c = labels.l2 then
        let _ ← appendDictLabel .new labels.key1 c n
        let c1 ← dictCombineWith left1 left2 (keyBuffer ++ labels.key1 ++ [false]) (n - c - 1)
          combineFunc mode 0 0
        let c2 ← dictCombineWith right1 right2 (keyBuffer ++ labels.key1 ++ [true]) (n - c - 1)
          combineFunc mode 0 0
        joinChildren finishCreateFork labels.key1 c n c1 c2
      else if c = labels.l1 then
        -- the second dictionary goes to one of the children of the first
        if forbids mode 2 then throw .combineError
        else
          let sw := labels.key2.getD c false
          let child ← dictCombineWith (if sw then right1 else left1) (some dict2)
            (keyBuffer ++ labels.key2.take (c + 1)) (n - c - 1) combineFunc mode 0 (skip2 + c + 1)
          ensure ((if sw then left1 else right1).isSome) .assertion
          joinChildren finishCreateFork labels.key2 c n (if sw then left1 else child) (if sw then child else right1)
      else if forbids mode 1 then throw .combineError
      else
        let sw := labels.key1.getD c false
        let child ← dictCombineWith (some dict1) (if sw then right2 else left2)
          (keyBuffer ++ labels.key1.take (c + 1)) (n - c - 1) combineFunc mode (skip1 + c + 1) 0
        ensure ((if sw then left2 else right2).isSome) .assertion
        joinChildren finishCreateFork labels.key1 c n (if sw then left2 else child) (if sw then child else right2)
    else
      combineLeaf combineFunc (labels.label1.payload, labels.label2.payload, keyBuffer ++ labels.key1) labels.key1 c n
termination_by n

namespace Dictionary

def map (dict : Dictionary) (mapFunc : MapFunc) : Except Thrown Dictionary := do
  dict.forceValidate
  let root ← dictMap dict.rootCell [] dict.keyBits mapFunc
  return { dict with rootCell := root }

def filter (dict : Dictionary) (checkLeaf : FilterFunc) : Except Thrown (Int × Dictionary) := do
  dict.forceValidate
  let (root, changes, _) ← dictFilter dict.rootCell [] dict.keyBits checkLeaf (-1)
  if 0 < changes then return (changes, { dict with rootCell := root })
  else return (changes, dict)

def cutPrefixSubdict (dict : Dictionary) (pfx : List Bool) (removePrefix : Bool) : Except Thrown (Bool × Dictionary) := do
  dict.forceValidate
  if dict.keyBits < pfx.length ∧ removePrefix then return (false, dict)
  else
    let (root, changed) ←
      extractPrefixSubdictInternal dict.rootCell pfx dict.keyBits removePrefix
    let keyBits := if removePrefix then dict.keyBits - pfx.length else dict.keyBits
    return (true, { rootCell := if changed then root else dict.rootCell, keyBits })

def keyLe (first second : NewValue) : Prop := ¬ second.1 < first.1

instance : DecidableRel keyLe := fun first second =>
  inferInstanceAs (Decidable (¬ second.1 < first.1))

def catchCombineError (result : Except Thrown (Option Cell)) (dict : Dictionary) : Except Thrown (Bool × Dictionary) :=
  match result with
  | .ok root => .ok (true, { dict with rootCell := root })
  | .error .combineError => .ok (false, dict)
  | .error thrown => .error thrown

def multiset (dict : Dictionary) (newValues : List NewValue) : Except Thrown (Bool × Dictionary) := do
  dict.forceValidate
  let sorted := newValues.insertionSort keyLe
  if (sorted.map Prod.fst).Nodup then
    catchCombineError (dictMultiset dict.rootCell sorted [] dict.keyBits dict.keyBits 0) dict
  else return (false, dict)

def combineWith (dict dict2 : Dictionary) (combineFunc : CombineFunc) (mode : Nat) : CombineM (Bool × Dictionary) := do
  dict.forceValidate
  dict2.forceValidate
  if dict.keyBits ≠ dict2.keyBits then
    throw (.vmError .dictErr "cannot combine dictionaries with different key lengths")
  else
    ExceptT.mk do
      let result ← (dictCombineWith dict.rootCell dict2.rootCell [] dict.keyBits combineFunc mode
        0 0).run
      return catchCombineError result dict

end Dictionary

/-! ### The comparison of two dictionaries

`scan_diff` calls a function of its caller for every key whose values differ. Subtrees with equal
hashes are not entered. -/

def CellSlice.contentsEqual {Hash : Type} [DecidableEq Hash] (getHash : Cell → Hash) (cs cs2 : CellSlice) : Bool :=
  cs.bits = cs2.bits && cs.refs.map getHash = cs2.refs.map getHash

/-- `label_mode`: how much the constructor of a label checks -/
inductive LabelMode where
  | chkSize
  | chkAll

namespace LabelParser

/-- `validate_simple`: a fork may hold more than its two references -/
def validateSimple (label : LabelParser) (n : Nat) : Except Thrown Unit :=
  if n < label.lBits then .error (.vmError .dictErr "invalid dictionary node")
  else if label.lBits < n ∧
      (label.remainder.bits.length < label.sBits ∨ label.remainder.refs.length < 2) then
    .error (.vmError .dictErr "invalid dictionary fork node")
  else .ok ()

def ofCellWith (mode : LabelMode) (cell : Option Cell) (maxLabelLen : Nat) : Except Thrown LabelParser :=
  match mode with
  | .chkAll => ofCell cell maxLabelLen
  | .chkSize => do
    let cs ← loadCellSlice cell
    let label ← orThrow (parseLabel cs maxLabelLen)
      (.vmError .cellUnd "error while parsing a dictionary node label")
    label.validateSimple maxLabelLen
    return label

end LabelParser

/-- What plain and augmented dictionaries do in their own ways. -/
structure DictionaryKind where
  labelMode : LabelMode
  checkLeaf : CellSlice → List Bool → Except Thrown Bool
  checkFork : CellSlice → Cell → Cell → Nat → Except Thrown Bool

namespace DictionaryKind

def plain : DictionaryKind where
  labelMode := .chkAll
  checkLeaf _ _ := .ok true
  checkFork _ _ _ _ := .ok true

def checkForkRaw (kind : DictionaryKind) (cs : CellSlice) (n : Nat) : Except Thrown Bool :=
  match cs.refs with
  | c1 :: c2 :: refs => kind.checkFork ⟨cs.bits, refs⟩ c1 c2 n
  | _ => .ok false

end DictionaryKind

inductive Side where
  | first
  | second

namespace Side

/-- The bit of `mode` that asks for the checks of this dictionary. -/
def bit : Side → Nat
  | .first => 1
  | .second => 2

def pair {α : Type} (own other : α) : Side → α × α
  | .first => (own, other)
  | .second => (other, own)

def invalidLeaf : Side → Thrown
  | .first => .vmError .dictErr "invalid leaf in the first dictionary being compared"
  | .second => .vmError .dictErr "invalid leaf in the second dictionary being compared"

def invalidFork : Side → Thrown
  | .first => .vmError .dictErr "invalid fork in the first dictionary being compared"
  | .second => .vmError .dictErr "invalid fork in the second dictionary being compared"

end Side

/-- What `scan_diff_func_t` is called with: the key and its two values. -/
abbrev DiffCall := List Bool × Option CellSlice × Option CellSlice

/-- `scan_diff_func_t`, whose answer may depend on the earlier calls -/
abbrev DiffFunc := List DiffCall → DiffCall → Except Thrown Bool

abbrev DiffM := Lib.CallM Thrown DiffCall

section Scan

variable (kind : DictionaryKind) (mode : Nat)

/-- A check that `mode` may ask for. -/
def accept (side : Side) (check : Except Thrown Bool) (invalid : Thrown) : Except Thrown Unit :=
  if forbids mode side.bit then do
    let valid ← check
    ensure valid invalid
  else .ok ()

def acceptLeaf (side : Side) (value : CellSlice) (key : List Bool) : Except Thrown Unit :=
  accept mode side (kind.checkLeaf value key) side.invalidLeaf

def acceptFork (side : Side) (fork : CellSlice) (n : Nat) : Except Thrown Unit :=
  accept mode side (kind.checkForkRaw fork n) side.invalidFork

/-- One dictionary is not empty and the other one is. -/
def scanSide (diffFunc : DiffFunc) (side : Side) (dict : Option Cell) (keyBuffer : List Bool) (n : Nat) : DiffM Bool :=
  match dict with
  | none => return true
  | some cell => do
    let label ← LabelParser.ofCellWith kind.labelMode (some cell) n
    let key := keyBuffer ++ label.bits
    if _ : label.lBits < n then
      acceptFork kind mode side label.payload (n - label.lBits)
      scanSide diffFunc side (label.payload.prefetchRef 0) (key ++ [false]) (n - label.lBits - 1) <&&>
      scanSide diffFunc side (label.payload.prefetchRef 1) (key ++ [true]) (n - label.lBits - 1)
    else
      ensure (label.lBits = n) .assertion
      acceptLeaf kind mode side label.payload key
      Lib.call diffFunc (key, side.pair (some label.payload) none)
termination_by n

/-- Where a dictionary goes on below either bit after `c` bits, and how much is to be skipped
there. -/
def branches (side : Side) (dict : Cell) (label : LabelParser) (key : List Bool)
    (n l c skip : Nat) : Except Thrown ((Option Cell × Nat) × Option Cell × Nat) :=
  if c = l then do
    acceptFork kind mode side label.payload (n - c)
    return ((label.payload.prefetchRef 0, 0), label.payload.prefetchRef 1, 0)
  else if key.getD c false then return ((none, 0), some dict, skip + c + 1)
  else return ((some dict, skip + c + 1), none, 0)

/-- `skip1` bits are to be removed from all keys of `dict1`, `skip2` from those of `dict2`. -/
def dictScanDiff {Hash : Type} [DecidableEq Hash] (getHash : Cell → Hash) (diffFunc : DiffFunc)
    (dict1 dict2 : Option Cell) (keyBuffer : List Bool) (n skip1 skip2 : Nat) : DiffM Bool :=
  match dict1, dict2 with
  | none, none => return true
  | none, some dict2 => do
    ensure (skip2 = 0) .assertion
    scanSide kind mode diffFunc .second (some dict2) keyBuffer n
  | some dict1, none => do
    ensure (skip1 = 0) .assertion
    scanSide kind mode diffFunc .first (some dict1) keyBuffer n
  | some dict1, some dict2 =>
    if skip1 = skip2 ∧ getHash dict1 = getHash dict2 then return true
    else do
      let labels ← LabelPair.parse (LabelParser.ofCellWith kind.labelMode) dict1 dict2 keyBuffer n
        skip1 skip2
      let c := labels.c
      if c < labels.l1 ∧ c < labels.l2 then
        -- the two dictionaries have disjoint keys
        let scan1 := scanSide kind mode diffFunc .first (some dict1)
          (keyBuffer.take (keyBuffer.length - skip1)) (n + skip1)
        let scan2 := scanSide kind mode diffFunc .second (some dict2)
          (keyBuffer.take (keyBuffer.length - skip2)) (n + skip2)
        if labels.key1.getD c false then scan2 <&&> scan1 else scan1 <&&> scan2
      else if _ : c < n then
        let (left1, right1) ← branches kind mode .first dict1 labels.label1 labels.key1 n
          labels.l1 c skip1
        let (left2, right2) ← branches kind mode .second dict2 labels.label2 labels.key2 n
          labels.l2 c skip2
        let key := keyBuffer ++ labels.key1.take c
        dictScanDiff getHash diffFunc left1.1 left2.1 (key ++ [false]) (n - c - 1) left1.2 left2.2 <&&>
        dictScanDiff getHash diffFunc right1.1 right2.1 (key ++ [true]) (n - c - 1) right1.2 right2.2
      else
        let key := keyBuffer ++ labels.key1
        acceptLeaf kind mode .first labels.label1.payload key
        acceptLeaf kind mode .second labels.label2.payload key
        if labels.label1.payload.contentsEqual getHash labels.label2.payload then return true
        else Lib.call diffFunc (key, some labels.label1.payload, some labels.label2.payload)
termination_by n

end Scan

def falseOnCombineError : Except Thrown Bool → Except Thrown Bool
  | .error .combineError => .ok false
  | result => result

def Dictionary.scanDiff {Hash : Type} [DecidableEq Hash] (kind : DictionaryKind)
    (getHash : Cell → Hash) (dict dict2 : Dictionary) (diffFunc : DiffFunc) (checkAugm : Nat) : DiffM Bool := do
  dict.forceValidate
  dict2.forceValidate
  if dict.keyBits ≠ dict2.keyBits then
    throw (.vmError .dictErr "cannot compare dictionaries with different key lengths")
  else
    ExceptT.mk do
      let result ← (dictScanDiff kind checkAugm getHash diffFunc dict.rootCell dict2.rootCell []
        dict.keyBits 0 0).run
      return falseOnCombineError result

end TonNode.Vm
