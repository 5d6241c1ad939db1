import TonNode.Vm.DictCombineProperties
import TonNode.Vm.DictGuarantees

/-!
# Roots of dictionaries are canonical

A dictionary built from the empty one by any operations has the root that its map determines.
-/

namespace TonNode.Vm

open Lib List

variable {n : Nat} {map : BitMap CellSlice} {first second : Option Cell} {labels : Labelling}

lemma Node.eq_of_map {first second : Cell} (firstNode : Node .canonical n first map)
    (secondNode : Node .canonical n second map) : first = second := by
  induction firstNode generalizing second with
  | @leaf n label encoded value allowed length =>
    generalize same : BitMap.under label (BitMap.point value) = map at secondNode
    cases secondNode with
    | @leaf _ label' encoded' value' allowed' length' =>
      obtain ⟨rfl, rfl⟩ := BitMap.point_under_injective same
      rw [allowed.2, allowed'.2]
    | @fork _ m label' encoded' c1 c2 left right allowed' length' leftNode rightNode =>
      obtain ⟨_, _, inLeft⟩ := leftNode.nonempty
      obtain ⟨_, _, inRight⟩ := rightNode.nonempty
      exact absurd same (BitMap.point_under_ne_branch inLeft inRight)
  | @fork n m label encoded c1 c2 left right allowed length leftNode rightNode leftIH rightIH =>
    obtain ⟨_, _, inLeft⟩ := leftNode.nonempty
    obtain ⟨_, _, inRight⟩ := rightNode.nonempty
    generalize same : BitMap.under label (BitMap.branch left right) = map at secondNode
    cases secondNode with
    | @leaf _ label' encoded' value' allowed' length' =>
      exact absurd same.symm (BitMap.point_under_ne_branch inLeft inRight)
    | @fork _ m' label' encoded' c1' c2' left' right' allowed' length' leftNode' rightNode' =>
      obtain ⟨_, _, inLeft'⟩ := leftNode'.nonempty
      obtain ⟨_, _, inRight'⟩ := rightNode'.nonempty
      obtain ⟨rfl, rfl, rfl⟩ := BitMap.branch_under_injective same inLeft inRight inLeft' inRight'
      obtain rfl : m = m' := by omega
      rw [allowed.2, allowed'.2, leftIH leftNode', rightIH rightNode']

lemma Root.eq_of_map (firstRoot : Root .canonical n first map)
    (secondRoot : Root .canonical n second map) : first = second := by
  cases first with
  | none =>
    cases second with
    | none => rfl
    | some cell =>
      obtain rfl : map = .empty := firstRoot
      obtain ⟨_, _, found⟩ := Node.nonempty secondRoot
      cases found
  | some cell =>
    obtain ⟨_, _, found⟩ := Node.nonempty firstRoot
    obtain ⟨other, rfl, otherNode⟩ := secondRoot.exists_node found
    rw [Node.eq_of_map firstRoot otherNode]

private lemma Root.map_eq {one two : BitMap CellSlice} (firstRoot : Root labels n first one)
    (secondRoot : Root labels n second two) (same : ∀ key, key.length = n → one key = two key) : one = two := by
  have outside : ∀ {root : Option Cell} {map : BitMap CellSlice}, Root labels n root map →
      ∀ key, key.length ≠ n → map key = none := by
    intro root map denotes key wrong
    cases found : map key with
    | none => rfl
    | some value =>
      obtain ⟨cell, _, node⟩ := denotes.exists_node found
      exact absurd (node.key_length found) wrong
  funext key
  by_cases length : key.length = n
  · exact same key length
  · rw [outside firstRoot key length, outside secondRoot key length]

/-- A node whose labels are shortest encodings and whose forks have two non-empty children. -/
inductive WellBuilt : Nat → Cell → Prop where
  | leaf {n : Nat} {label encoded : List Bool} {value : CellSlice} :
      LabelEncoding n label encoded →
      (∀ other, LabelEncoding n label other → encoded.length ≤ other.length) →
      n = label.length → WellBuilt n (.mk .ordinary (encoded ++ value.bits) value.refs)
  | fork {n m : Nat} {label encoded : List Bool} {c1 c2 : Cell} :
      LabelEncoding n label encoded →
      (∀ other, LabelEncoding n label other → encoded.length ≤ other.length) →
      n = label.length + (m + 1) → WellBuilt m c1 → WellBuilt m c2 →
      WellBuilt n (.mk .ordinary encoded [c1, c2])

lemma Node.wellBuilt {cell : Cell} (node : Node .canonical n cell map) : WellBuilt n cell := by
  induction node with
  | @leaf n label encoded value allowed length =>
    obtain ⟨fits, rfl⟩ := allowed
    exact .leaf (dictLabel_encoding fits) (fun _ => dictLabel_shortest) length
  | @fork n m label encoded c1 c2 left right allowed length leftNode rightNode leftIH rightIH =>
    obtain ⟨fits, rfl⟩ := allowed
    exact .fork (dictLabel_encoding fits) (fun _ => dictLabel_shortest) length leftIH rightIH

namespace Dictionary

/-- The dictionaries obtained from the empty ones. `set` and `lookup_set` in all their variants
are `setGen` and `lookupSetGen`. -/
inductive Reachable : Dictionary → Prop where
  | new (n : Nat) : n ≤ 1023 → Reachable (.new n)
  | setGen {dict next : Dictionary} {key : List Bool} {storeVal : StoreValue} {mode : SetMode}
      {success : Bool} :
      Reachable dict → dict.setGen key storeVal mode = .ok (success, next) → Reachable next
  | lookupSetGen {dict next : Dictionary} {key : List Bool} {storeVal : StoreValue}
      {mode : SetMode} {oldVal : Option CellSlice} :
      Reachable dict → dict.lookupSetGen key storeVal mode = .ok (oldVal, next) → Reachable next
  | lookupDelete {dict next : Dictionary} {key : List Bool} {oldVal : Option CellSlice} :
      Reachable dict → dict.lookupDelete key = .ok (oldVal, next) → Reachable next
  | map {dict next : Dictionary} {mapFunc : MapFunc} :
      Reachable dict → dict.map mapFunc = .ok next → Reachable next
  | filter {dict next : Dictionary} {checkLeaf : FilterFunc} {changes : Int} :
      Reachable dict → dict.filter checkLeaf = .ok (changes, next) → Reachable next
  | multiset {dict next : Dictionary} {newValues : List NewValue} {success : Bool} :
      Reachable dict → (∀ value ∈ newValues, value.1.length = dict.keyBits) →
      dict.multiset newValues = .ok (success, next) → Reachable next
  | combineWith {dict dict2 next : Dictionary} {combineFunc : CombineFunc} {mode : Nat}
      {success : Bool} {calls : List CombineCall} :
      Reachable dict → Reachable dict2 →
      (dict.combineWith dict2 combineFunc mode).run.run [] = (.ok (success, next), calls) →
      Reachable next
  | cutPrefixSubdict {dict next : Dictionary} {pfx : List Bool} {removePrefix success : Bool} :
      Reachable dict → dict.cutPrefixSubdict pfx removePrefix = .ok (success, next) →
      Reachable next

def Canonical (dict : Dictionary) : Prop :=
  dict.keyBits ≤ 1023 ∧ WellFormed .canonical dict.keyBits dict.rootCell

variable {dict next : Dictionary}

private lemma Canonical.valid (canonical : dict.Canonical) : dict.forceValidate = .ok () :=
  ensure_eq canonical.1 _

private lemma Denotes.canonical {n : Nat} {map : BitMap CellSlice}
    (denotes : dict.Denotes .canonical n map) (bound : n ≤ 1023) : dict.Canonical := by
  obtain ⟨rfl, root⟩ := denotes
  exact ⟨bound, map, root⟩

lemma Canonical.denotes (canonical : dict.Canonical) : ∃ map, dict.Denotes .canonical dict.keyBits map := by
  obtain ⟨_, map, root⟩ := canonical
  exact ⟨map, rfl, root⟩

variable {key : List Bool} {mode : SetMode} {success : Bool} {oldVal : Option CellSlice} {dict2 : Dictionary}
variable {newValues : List NewValue}

section

variable (canonical : dict.Canonical) {storeVal : StoreValue}
include canonical

private lemma setGen_canonical (stored : dict.setGen key storeVal mode = .ok (success, next)) : next.Canonical := by
  obtain ⟨map, denotes⟩ := canonical.denotes
  by_cases length : key.length = dict.keyBits
  · have yields := (setGen_yields denotes canonical.1 length storeVal mode).of_ok stored
    exact yields.2.1.canonical canonical.1
  · rw [setGen, canonical.valid, ok_bind, if_pos length] at stored
    cases stored
    exact canonical

private lemma lookupSetGen_canonical (stored : dict.lookupSetGen key storeVal mode = .ok (oldVal, next)) : next.Canonical := by
  obtain ⟨map, denotes⟩ := canonical.denotes
  by_cases length : key.length = dict.keyBits
  · have yields := (lookupSetGen_yields denotes canonical.1 length storeVal mode).of_ok stored
    exact yields.2.1.canonical canonical.1
  · rw [lookupSetGen, canonical.valid, ok_bind, if_pos length] at stored
    cases stored
    exact canonical

private lemma lookupDelete_canonical (deleted : dict.lookupDelete key = .ok (oldVal, next)) : next.Canonical := by
  obtain ⟨map, denotes⟩ := canonical.denotes
  by_cases length : key.length = dict.keyBits
  · have yields := (lookupDelete_yields denotes canonical.1 length).of_ok deleted
    exact yields.2.1.canonical canonical.1
  · rw [lookupDelete, canonical.valid, ok_bind, if_pos length] at deleted
    cases deleted
    exact canonical

private lemma map_canonical {mapFunc : MapFunc} (mapped : dict.map mapFunc = .ok next) : next.Canonical := by
  rw [map, canonical.valid, ok_bind] at mapped
  have completes := dictMap_wellFormed canonical.2 [] mapFunc canonical.1
  obtain ⟨root, isRoot, isNext⟩ := bind_eq_ok.mp mapped
  cases isNext
  exact ⟨canonical.1, completes.of_ok isRoot⟩

private lemma filter_canonical {checkLeaf : FilterFunc} {changes : Int}
    (filtered : dict.filter checkLeaf = .ok (changes, next)) : next.Canonical := by
  rw [filter, canonical.valid, ok_bind] at filtered
  have completes := dictFilter_wellFormed canonical.2 [] checkLeaf (-1) canonical.1
  obtain ⟨⟨root, changed, skipRest⟩, isRoot, isNext⟩ := bind_eq_ok.mp filtered
  simp only at isNext
  split at isNext
  next positive =>
    cases isNext
    exact ⟨canonical.1, completes.of_ok isRoot positive⟩
  · cases isNext
    exact canonical

private lemma cutPrefixSubdict_canonical {pfx : List Bool} {removePrefix : Bool}
    (cut : dict.cutPrefixSubdict pfx removePrefix = .ok (success, next)) : next.Canonical := by
  rw [cutPrefixSubdict, canonical.valid, ok_bind] at cut
  split at cut
  · cases cut
    exact canonical
  next fits =>
    have completes := extractPrefixSubdictInternal_wellFormed canonical.2 pfx canonical.1
      removePrefix (by intro removes; simp_all)
    obtain ⟨⟨root, changed⟩, isRoot, isNext⟩ := bind_eq_ok.mp cut
    cases isNext
    refine ⟨?_, completes.of_ok isRoot⟩
    have bound := canonical.1
    simp only
    split <;> omega

private lemma catchCombineError_canonical {result : Except Thrown (Option Cell)}
    (built : ∀ root, result = .ok root → WellFormed .canonical dict.keyBits root)
    (caught : catchCombineError result dict = .ok (success, next)) : next.Canonical := by
  unfold catchCombineError at caught
  split at caught
  · cases caught
    exact ⟨canonical.1, built _ rfl⟩
  · cases caught
    exact canonical
  · cases caught

end

lemma combineWith_run {n : Nat} {map map2 : BitMap CellSlice} (denotes : dict.Denotes labels n map)
    (denotes2 : dict2.Denotes labels n map2) (bound : n ≤ 1023) (combineFunc : CombineFunc) (mode : Nat) :
    ∃ result calls, (dict.combineWith dict2 combineFunc mode).run.run [] = (catchCombineError result dict, calls) ∧
      Combines combineFunc mode labels [] n map map2 [] result calls := by
  obtain ⟨result, calls, ran, combines⟩ := dictCombineWith_combines (denotes.root.skipped [])
    (denotes2.root.skipped []) (fun _ => rfl) (fun _ => rfl) combineFunc mode bound []
  refine ⟨result, calls, ?_, combines⟩
  rw [combineWith, denotes.valid bound, lift_ok_bind, denotes2.valid bound, lift_ok_bind,
    denotes.keyBits, denotes2.keyBits, if_neg (by simp), ExceptT.run_mk, StateT.run_bind, ran]
  rfl

private lemma combineWith_canonical (canonical : dict.Canonical)
    (canonical2 : dict2.Canonical) {combineFunc : CombineFunc} {mode : Nat} {calls : List CombineCall}
    (combined : (dict.combineWith dict2 combineFunc mode).run.run [] = (.ok (success, next), calls)) : next.Canonical := by
  obtain ⟨map, denotes⟩ := canonical.denotes
  obtain ⟨map2, denotes2⟩ := canonical2.denotes
  by_cases lengths : dict.keyBits = dict2.keyBits
  · rw [← lengths] at denotes2
    obtain ⟨result, calls, ran, _, ensures⟩ := combineWith_run denotes denotes2 canonical.1 combineFunc mode
    rw [ran] at combined
    refine catchCombineError_canonical canonical ?_ (Prod.mk.inj combined).1
    intro root isRoot
    obtain ⟨new, denotesNew, _⟩ := ensures.of_ok isRoot
    exact ⟨new, denotesNew⟩
  · rw [combineWith, canonical.valid, lift_ok_bind, canonical2.valid, lift_ok_bind, if_pos lengths] at combined
    cases combined

private instance : Std.Total keyLe where
  total first second := (List.le_total first.1 second.1).imp List.not_lt.mpr List.not_lt.mpr

private instance : IsTrans NewValue keyLe where
  trans _ _ _ before after := List.not_lt.mpr (List.le_trans (List.not_lt.mp before) (List.not_lt.mp after))

lemma insertionSort_sorted {total : Nat} (lengths : ∀ value ∈ newValues, value.1.length = total)
    (distinct : ((newValues.insertionSort keyLe).map Prod.fst).Nodup) : Sorted total [] (newValues.insertionSort keyLe) where
  keys value _ := ⟨value.1, rfl⟩
  lengths value member := lengths value ((perm_insertionSort keyLe newValues).mem_iff.mp member)
  ordered := by
    have sorted := pairwise_insertionSort keyLe newValues
    refine sorted.imp₂ ?_ (pairwise_map.mp distinct)
    intro first second lessEq differ
    by_contra notLess
    exact differ (List.le_antisymm (List.not_lt.mp lessEq) (List.not_lt.mp notLess))

private lemma multiset_canonical (canonical : dict.Canonical) (lengths : ∀ value ∈ newValues, value.1.length = dict.keyBits)
    (stored : dict.multiset newValues = .ok (success, next)) : next.Canonical := by
  rw [multiset, canonical.valid, ok_bind] at stored
  simp only at stored
  split at stored
  next distinct =>
    obtain ⟨map, root⟩ := canonical.2
    have updates := dictMultiset_updates (root.skipped []) (fun _ => rfl)
      (insertionSort_sorted lengths distinct) (by simp) canonical.1
    refine catchCombineError_canonical canonical ?_ stored
    intro root isRoot
    obtain ⟨new, denotesNew, _⟩ := updates.of_ok isRoot
    exact ⟨new, denotesNew⟩
  · cases stored
    exact canonical

lemma Reachable.canonical (reachable : dict.Reachable) : dict.Canonical := by
  induction reachable with
  | new n bound => exact ⟨bound, .none n⟩
  | setGen _ stored ih => exact setGen_canonical ih stored
  | lookupSetGen _ stored ih => exact lookupSetGen_canonical ih stored
  | lookupDelete _ deleted ih => exact lookupDelete_canonical ih deleted
  | map _ mapped ih => exact map_canonical ih mapped
  | filter _ filtered ih => exact filter_canonical ih filtered
  | multiset _ lengths stored ih => exact multiset_canonical ih lengths stored
  | combineWith _ _ combined ih ih2 => exact combineWith_canonical ih ih2 combined
  | cutPrefixSubdict _ cut ih => exact cutPrefixSubdict_canonical ih cut

private lemma Canonical.root_eq {other : Dictionary} (canonical : dict.Canonical)
    (otherCanonical : other.Canonical) (sameBits : dict.keyBits = other.keyBits)
    (sameMap : ∀ key, key.length = dict.keyBits → dict.lookup key = other.lookup key) : dict.rootCell = other.rootCell := by
  obtain ⟨map, denotes⟩ := canonical.denotes
  obtain ⟨otherMap, otherDenotes⟩ := otherCanonical.denotes
  rw [← sameBits] at otherDenotes
  have agree : ∀ key, key.length = dict.keyBits → map key = otherMap key := by
    intro key length
    have looked := sameMap key length
    rw [lookup_eq denotes canonical.1 length, lookup_eq otherDenotes canonical.1 length] at looked
    exact Except.ok.inj looked
  obtain rfl := Root.map_eq denotes.root otherDenotes.root agree
  exact denotes.root.eq_of_map otherDenotes.root

private lemma Canonical.set_delete {stored removed : Dictionary} {value : CellSlice}
    (canonical : dict.Canonical) (length : key.length = dict.keyBits)
    (fresh : dict.lookup key = .ok none) (sets : dict.set key value mode = .ok (success, stored))
    (deletes : stored.lookupDelete key = .ok (oldVal, removed)) : removed.rootCell = dict.rootCell := by
  obtain ⟨map, denotes⟩ := canonical.denotes
  have absent : map key = none := by
    rw [lookup_eq denotes canonical.1 length] at fresh
    exact Except.ok.inj fresh
  obtain ⟨_, afterSet, _⟩ := (setGen_yields denotes canonical.1 length (.ofSlice value) mode).of_ok sets
  obtain ⟨_, afterDelete, _⟩ := (lookupDelete_yields afterSet canonical.1 length).of_ok deletes
  have restored : Function.update (assign map key value mode) key none = map := by
    unfold assign
    split
    · rw [Function.update_idem, ← absent, Function.update_eq_self]
    · rw [← absent, Function.update_eq_self]
  have root := afterDelete.root
  change Root .canonical dict.keyBits removed.rootCell (Function.update (assign map key value mode) key none) at root
  rw [restored] at root
  exact root.eq_of_map denotes.root

/-- Reachable dictionaries that denote the same map have the same root, with shortest labels and
full forks; storing a fresh key and deleting it restores the root. -/
theorem roots_canonical :
    (∀ first second : Dictionary, first.Reachable → second.Reachable →
      first.keyBits = second.keyBits →
      (∀ key, key.length = first.keyBits → first.lookup key = second.lookup key) →
      first.rootCell = second.rootCell) ∧
    (∀ (dict : Dictionary) (cell : Cell), dict.Reachable →
      dict.rootCell = some cell →
      WellBuilt dict.keyBits cell) ∧
    (∀ (dict stored removed : Dictionary) (key : List Bool) (value : CellSlice) (mode : SetMode)
      (success : Bool) (oldVal : Option CellSlice), dict.Reachable →
      key.length = dict.keyBits →
      dict.lookup key = .ok none →
      dict.set key value mode = .ok (success, stored) →
      stored.lookupDelete key = .ok (oldVal, removed) →
      removed.rootCell = dict.rootCell) := by
  refine ⟨?_, ?_, ?_⟩
  · intro first second firstReachable secondReachable sameBits sameMap
    exact firstReachable.canonical.root_eq secondReachable.canonical sameBits sameMap
  · intro dict cell reachable isRoot
    obtain ⟨_, map, root⟩ := reachable.canonical
    rw [isRoot] at root
    exact Node.wellBuilt root
  · intro dict stored removed key value mode success oldVal reachable length fresh sets deletes
    exact reachable.canonical.set_delete length fresh sets deletes

def toyDict : Dictionary :=
  (((new 2).set [true, false] ⟨[true], []⟩ .set).toOption.map Prod.snd).getD (new 2)

private lemma toyDict_reachable : toyDict.Reachable := by
  have start : (new 2).Reachable := .new 2 (by decide)
  cases stored : (new 2).set [true, false] ⟨[true], []⟩ .set with
  | error thrown =>
    have same : toyDict = new 2 := by simp [toyDict, stored, Except.toOption]
    rw [same]
    exact start
  | ok result =>
    have same : toyDict = result.2 := by simp [toyDict, stored, Except.toOption]
    rw [same]
    exact .setGen start stored

theorem toy_roots_canonical : ∃ stored removed success oldVal,
      toyDict.set [true, true] ⟨[false], []⟩ .add = .ok (success, stored) ∧
      stored.lookupDelete [true, true] = .ok (oldVal, removed) ∧
      removed.rootCell = toyDict.rootCell ∧ toyDict.rootCell.isSome := by
  have fresh : toyDict.lookup [true, true] = .ok none := by
    have absent : (toyDict.lookup [true, true]).toOption.map Option.isNone = some true := by
      decide +kernel
    cases looked : toyDict.lookup [true, true] with
    | error thrown => simp [looked, Except.toOption] at absent
    | ok found =>
      cases found with
      | none => rfl
      | some value => simp [looked, Except.toOption] at absent
  have succeeds : (toyDict.set [true, true] ⟨[false], []⟩ .add >>= fun stored =>
      stored.2.lookupDelete [true, true]).isOk = true := by decide +kernel
  cases ran : toyDict.set [true, true] ⟨[false], []⟩ .add >>= fun stored => stored.2.lookupDelete [true, true] with
  | error thrown =>
    rw [ran] at succeeds
    cases succeeds
  | ok result =>
    obtain ⟨⟨success, stored⟩, sets, deletes⟩ := bind_eq_ok.mp ran
    exact ⟨stored, result.2, success, result.1, sets, deletes,
      roots_canonical.2.2 toyDict stored result.2 [true, true] ⟨[false], []⟩ .add success
        result.1 toyDict_reachable (by decide +kernel) fresh sets deletes, by decide +kernel⟩

end Dictionary

end TonNode.Vm
