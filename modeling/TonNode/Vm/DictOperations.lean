import TonNode.Vm.DictNodes

/-!
# Operations on one key

Each operation on a dictionary that denotes a map overflows a cell or has the result of the same
operation on the map, and leaves a dictionary that denotes the changed map.
-/

namespace TonNode.Vm

open Lib List BitMap

variable {labels : Labelling}

lemma LabelParser.Reads.prefetchRef_eq {parser : LabelParser} {label : List Bool}
    {rest : CellSlice} (reads : parser.Reads label rest) (offset : Nat) :
    parser.remainder.prefetchRef offset = rest.refs[offset]? := by
  rw [CellSlice.prefetchRef, reads.refs]

private lemma not_prefix_apart (common labelRest keyRest : List Bool) (bit : Bool) :
    ¬ (common ++ bit :: labelRest) <+: (common ++ (!bit) :: keyRest) := by
  rw [prefix_append_right_inj, cons_prefix_cons]
  rintro ⟨same, _⟩
  cases bit <;> cases same

private lemma exists_bit {n m : Nat} {label : List Bool} (rest : List Bool) (split : n = label.length + (m + 1))
    (length : label.length + rest.length = n) :
    ∃ bit below, rest = bit :: below ∧ below.length = m ∧ n - label.length - 1 = m ∧ m < n := by
  cases rest with
  | nil =>
    rw [length_nil] at length
    omega
  | cons bit below =>
    rw [length_cons] at length
    exact ⟨bit, below, rfl, by omega⟩

variable {n : Nat} {map : BitMap CellSlice} {key : List Bool} {value : CellSlice} {mode : SetMode}
variable {dict : Option Cell} {old : Option CellSlice} {childMap : BitMap CellSlice} {below : List Bool}

lemma lookupNode_eq {cell : Cell} (node : Node labels n cell map) (length : key.length = n) :
    lookupNode (some cell) key n = .ok (map key) := by
  induction n using Nat.strongRecOn generalizing cell map key with
  | _ n ih =>
    obtain ⟨parser, label, rest, inner, m, parsed, reads, payload, split, rfl⟩ := node.parse
    rw [lookupNode, parsed, ok_bind]
    rcases commonPrefix_cases label key (by omega) with
      ⟨below, rfl, _⟩ | ⟨common, bit, labelRest, keyRest, rfl, rfl, _⟩
    · rw [if_pos ((reads.isPrefixOf_iff (by omega)).mpr (prefix_append _ _)), under_apply_append]
      rw [length_append] at length
      cases payload with
      | leaf value =>
        obtain rfl : below = [] := eq_nil_of_length_eq_zero (by omega)
        rw [dif_neg (by rw [reads.length]; omega), reads.payload_eq]
        rfl
      | @fork m c1 c2 left right leftNode rightNode =>
        obtain ⟨bit, below, rfl, belowLength, descend, smaller⟩ := exists_bit below split length
        rw [dif_pos (by rw [reads.length]; omega), branch_cons]
        simp only [reads.length, reads.prefetchRef_eq, descend, getD_after, drop_after]
        cases bit with
        | false => exact ih m smaller leftNode belowLength
        | true => exact ih m smaller rightNode belowLength
    · have apart : parser.isPrefixOf (common ++ (!bit) :: keyRest) n ≠ true := by
        rw [Ne, reads.isPrefixOf_iff (by omega)]
        exact not_prefix_apart common labelRest keyRest bit
      rw [if_neg apart, under_apart]
      rfl

/-- Whether an operation in this mode stores its value over the old one. -/
def SetMode.applies (mode : SetMode) (old : Option CellSlice) : Bool :=
  match mode with
  | .set => true
  | .replace => old.isSome
  | .add => old.isNone

/-- The answer of `dict_lookup_set`: the old value, and the new root if the mode applies. -/
structure Assigned (labels : Labelling) (n : Nat) (map : BitMap CellSlice) (key : List Bool)
    (value : CellSlice) (mode : SetMode) (result : Option CellSlice × Option Cell × Bool) :
    Prop where
  old : result.1 = map key
  changed : result.2.2 = mode.applies (map key)
  root : result.2.2 = true → Root labels n result.2.1 (Function.update map key (some value))

private lemma created_assigned {create : Except Thrown Cell}
    (applies : mode.applies (map key) = true) (isOld : old = map key)
    (created : Yields create (fun cell => Node labels n cell (Function.update map key (some value)))) :
    Yields (do let cell ← create; return (old, some cell, true))
      (Assigned labels n map key value mode) := by
  refine created.bind ?_
  intro cell node
  exact ⟨isOld, applies.symm, fun _ => node⟩

private lemma refused_assigned {root : Option Cell} (refuses : mode.applies (map key) = false) (isOld : old = map key) :
    Yields (.ok (old, root, false)) (Assigned labels n map key value mode) :=
  ⟨isOld, refuses.symm, fun changed => nomatch changed⟩

private lemma child_assigned {m : Nat}
    {childResult : Except Thrown (Option CellSlice × Option Cell × Bool)}
    (fork : Option Cell → Except Thrown Cell)
    (child : Yields childResult (Assigned labels m childMap below value mode))
    (here : map key = childMap below)
    (forked : ∀ cell, Node labels m cell (Function.update childMap below (some value)) → Yields (fork (some cell))
        (fun cell => Node labels n cell (Function.update map key (some value)))) :
    Yields (do
        let result ← childResult
        if result.2.2 then
          let cell ← fork result.2.1
          return (result.1, some cell, true)
        else return (result.1, none, false))
      (Assigned labels n map key value mode) := by
  refine child.bind ?_
  rintro ⟨old, child, changed⟩ assigned
  have isOld : old = map key := by rw [here]; exact assigned.old
  have isChanged : changed = mode.applies (map key) := by rw [here]; exact assigned.changed
  cases changed with
  | false => exact refused_assigned isChanged.symm isOld
  | true =>
    obtain ⟨cell, rfl, node⟩ := (assigned.root rfl).exists_node (Function.update_self _ _ _)
    exact created_assigned isChanged.symm isOld (forked cell node)

lemma dictLookupSet_yields (storeVal : StoreValue) (mode : SetMode)
    (root : Root labels n dict map) (length : key.length = n) (bound : n ≤ 1023) : Yields (dictLookupSet dict key n storeVal mode)
      (Assigned labels n map key storeVal.value mode) := by
  induction n using Nat.strongRecOn generalizing dict map key with
  | _ n ih =>
    rw [dictLookupSet.eq_def]
    cases dict with
    | none =>
      obtain rfl : map = .empty := root
      simp only
      split
      · rename_i replaces
        subst replaces
        exact refused_assigned rfl rfl
      · rename_i notReplaces
        refine created_assigned ?_ rfl ?_
        · cases mode <;> simp_all [SetMode.applies]
        · rw [update_empty]
          exact createLeaf_yields labels storeVal length bound
    | some cell =>
      obtain ⟨parser, label, rest, inner, m, parsed, reads, payload, split, rfl⟩ := Node.parse root
      have taken : key.take n = key := take_of_length_le (by omega)
      simp only [parsed, ok_bind, reads.commonPrefixLen_eq, taken, reads.length]
      rcases commonPrefix_cases label key (by omega) with
        ⟨below, rfl, whole⟩ | ⟨common, bit, labelRest, keyRest, rfl, rfl, part⟩
      · rw [whole, ensure_eq (by omega), ok_bind, if_neg (by omega)]
        rw [length_append] at length
        cases payload with
        | leaf value =>
          obtain rfl : below = [] := eq_nil_of_length_eq_zero (by omega)
          rw [dif_neg (by omega), reads.payload_eq]
          simp only [append_nil] at length ⊢
          have present : under label (point rest) label = some rest := by simp
          split
          next adds =>
            subst adds
            exact refused_assigned (by rw [present]; rfl) present.symm
          next notAdds =>
            refine created_assigned ?_ present.symm ?_
            · rw [present]
              cases mode <;> simp_all [SetMode.applies]
            · have replaced := update_under label [] (point rest) (some storeVal.value)
              rw [append_nil, update_point] at replaced
              rw [replaced]
              exact createLeaf_yields labels storeVal (by omega) bound
        | @fork m c1 c2 left right leftNode rightNode =>
          obtain ⟨bit, below, rfl, belowLength, descend, smaller⟩ := exists_bit below split length
          rw [dif_pos (by omega)]
          simp only [reads.prefetchRef_eq, descend, getD_after, drop_after]
          have here : under label (branch left right) (label ++ bit :: below) =
              if bit then right below else left below := by simp
          have moved := update_under label (bit :: below) (branch left right) (some storeVal.value)
          rw [update_branch] at moved
          cases bit with
          | false =>
            rw [if_neg Bool.false_ne_true]
            refine child_assigned (createFork _ label.length n · (some c2)) (ih m smaller leftNode belowLength (by omega)) here ?_
            intro child childNode
            rw [moved]
            exact createFork_yields _ childNode rightNode split bound
          | true =>
            rw [if_pos rfl]
            refine child_assigned (createFork _ label.length n (some c1) ·)
              (ih m smaller rightNode belowLength (by omega)) here ?_
            intro child childNode
            rw [moved]
            exact createFork_yields _ leftNode childNode split bound
      · rw [part, ensure_eq (by simp at split ⊢; omega), ok_bind, if_pos (by simp)]
        have absent := under_apart common labelRest keyRest bit inner
        split
        next replaces =>
          subst replaces
          exact refused_assigned (by rw [absent]; rfl) absent.symm
        next notReplaces =>
          refine created_assigned ?_ absent.symm (splitEdge_yields storeVal reads payload split length bound)
          rw [absent]
          cases mode <;> simp_all [SetMode.applies]

lemma dictSet_eq (dict : Option Cell) (key : List Bool) (n : Nat) (storeVal : StoreValue) (mode : SetMode) :
    dictSet dict key n storeVal mode = (fun result => (result.2.1, result.2.2)) <$> dictLookupSet dict key n storeVal mode := by
  induction n using Nat.strongRecOn generalizing dict key with
  | _ n ih =>
    rw [dictSet.eq_def, dictLookupSet.eq_def]
    cases dict with
    | none =>
      simp only
      split
      · rfl
      · rw [map_bind]
        rfl
    | some cell =>
      simp only [map_bind]
      congr 1
      funext label
      congr 1
      funext _
      split
      · split
        · rfl
        · rw [map_bind]
          rfl
      · split
        next inner =>
          have smaller : n - label.lBits - 1 < n := by omega
          simp only [ih _ smaller, bind_map_left]
          split
          all_goals
            rw [map_bind]
            congr 1
            funext result
            split
            · rw [map_bind]
              rfl
            · rfl
        · split
          · rfl
          · rw [map_bind]
            rfl

lemma dictSet_yields (storeVal : StoreValue) (mode : SetMode) (root : Root labels n dict map)
    (length : key.length = n) (bound : n ≤ 1023) : Yields (dictSet dict key n storeVal mode)
      (fun result => Assigned labels n map key storeVal.value mode (map key, result)) := by
  rw [dictSet_eq]
  refine (dictLookupSet_yields storeVal mode root length bound).bind ?_
  intro result assigned
  rw [← assigned.old]
  exact assigned

/-- The answer of `dict_lookup_delete`: the old value, and the new root if there was one. -/
structure Deleted (labels : Labelling) (n : Nat) (map : BitMap CellSlice) (key : List Bool)
    (result : Option CellSlice × Option Cell) : Prop where
  old : result.1 = map key
  root : result.1.isSome → Root labels n result.2 (Function.update map key none)

private lemma child_deleted {m : Nat}
    {other : Option Cell} {childResult : Except Thrown (Option CellSlice × Option Cell)}
    (join : Option Cell → Except Thrown (Option Cell))
    (child : Yields childResult (Deleted labels m childMap below)) (here : map key = childMap below)
    (present : other.isSome)
    (joined : ∀ root, Root labels m root (Function.update childMap below none) →
      Yields (join root) (fun root => Root labels n root (Function.update map key none))) :
    Yields (do
        let result ← childResult
        match result.1 with
        | none => return (none, none)
        | some oldVal =>
          ensure other.isSome .assertion
          let root ← join result.2
          return (some oldVal, root))
      (Deleted labels n map key) := by
  refine child.bind ?_
  rintro ⟨old, child⟩ deleted
  have isOld : old = map key := by rw [here]; exact deleted.old
  cases old with
  | none => exact ⟨isOld, fun some => nomatch some⟩
  | some value =>
    simp only [ensure_eq present, ok_bind]
    refine (joined child (deleted.root rfl)).bind ?_
    intro root denotes
    exact ⟨isOld, fun _ => denotes⟩

lemma dictLookupDelete_yields (root : Root labels n dict map) (length : key.length = n) (bound : n ≤ 1023) :
    Yields (dictLookupDelete dict key n) (Deleted labels n map key) := by
  induction n using Nat.strongRecOn generalizing dict map key with
  | _ n ih =>
    rw [dictLookupDelete.eq_def]
    cases dict with
    | none =>
      obtain rfl : map = .empty := root
      exact ⟨rfl, fun some => nomatch some⟩
    | some cell =>
      obtain ⟨parser, label, rest, inner, m, parsed, reads, payload, split, rfl⟩ := Node.parse root
      have taken : key.take n = key := take_of_length_le (by omega)
      simp only [parsed, ok_bind, reads.commonPrefixLen_eq, taken, reads.length]
      rcases commonPrefix_cases label key (by omega) with
        ⟨below, rfl, whole⟩ | ⟨common, bit, labelRest, keyRest, rfl, rfl, part⟩
      · rw [whole, ensure_eq (by omega), ok_bind, if_neg (by omega)]
        rw [length_append] at length
        cases payload with
        | leaf value =>
          obtain rfl : below = [] := eq_nil_of_length_eq_zero (by omega)
          rw [dif_neg (by omega), reads.payload_eq]
          refine ⟨by simp, fun _ => ?_⟩
          rw [update_under, update_point_none, under_empty]
          rfl
        | @fork m c1 c2 left right leftNode rightNode =>
          obtain ⟨bit, below, rfl, belowLength, descend, smaller⟩ := exists_bit below split length
          rw [dif_pos (by omega)]
          simp only [reads.prefetchRef_eq, descend, getD_after, drop_after]
          have here : under label (branch left right) (label ++ bit :: below) =
              if bit then right below else left below := by simp
          have moved := update_under label (bit :: below) (branch left right) none
          rw [update_branch] at moved
          cases bit with
          | false =>
            refine child_deleted (joinChildren finishCreateFork _ label.length n · (some c2))
              (ih m smaller leftNode belowLength (by omega)) here rfl ?_
            intro child childRoot
            rw [moved]
            exact joinChildren_yields (fun _ _ one two => finishCreateFork_yields _ one two split bound)
              childRoot rightNode split bound
          | true =>
            refine child_deleted (joinChildren finishCreateFork _ label.length n (some c1) ·)
              (ih m smaller rightNode belowLength (by omega)) here rfl ?_
            intro child childRoot
            rw [moved]
            exact joinChildren_yields (fun _ _ one two => finishCreateFork_yields _ one two split bound)
              leftNode childRoot split bound
      · rw [part, ensure_eq (by simp at split ⊢; omega), ok_bind, if_pos (by simp)]
        exact ⟨(under_apart common labelRest keyRest bit inner).symm, fun some => nomatch some⟩

end TonNode.Vm
