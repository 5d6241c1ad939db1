import TonNode.Lib.StateRun
import TonNode.Vm.BocDecompressionParse
import TonNode.Vm.BocGuarantees

/-!
# Decompression of arbitrary bytes

The decompressor always ends, with roots or with a status, and tries to create at most one cell for
each node of the graph it has read.
-/

namespace TonNode.Vm.BocCompression

open Boc Lib List Runs LevelMask

namespace Building

/-- Every construction so far has filled a place of the table. -/
structure Sound (count : Nat) (building : Building) : Prop where
  length : building.cells.length = count
  constructed : building.constructed ≤ building.cells.countP Option.isSome

lemma cell_setCell (building : Building) {index : Nat} (inside : index < building.cells.length)
    (cell : DataCell) (other : Nat) : (building.setCell index cell).cell other =
      if index = other then some cell else building.cell other := by
  unfold Building.cell setCell
  by_cases same : index = other
  · subst same
    rw [if_pos rfl, getElem?_set_self inside]
    rfl
  · rw [if_neg same, getElem?_set_ne same]

lemma countP_setCell (building : Building) {index : Nat} (inside : index < building.cells.length)
    (empty : building.cell index = none) (cell : DataCell) : (building.setCell index cell).cells.countP Option.isSome =
      building.cells.countP Option.isSome + 1 := by
  unfold Building.cell at empty
  rw [getElem?_eq_getElem inside] at empty
  have unset : building.cells[index] = none := by
    cases slot : building.cells[index] with
    | none => rfl
    | some value =>
      rw [slot] at empty
      cases empty
  unfold setCell
  rw [countP_set inside, unset]
  rfl

lemma Sound.room {building : Building} {count index : Nat} (sound : building.Sound count)
    (inside : index < count) (empty : building.cell index = none) : building.constructed + 1 ≤ count := by
  have place : index < building.cells.length := sound.length ▸ inside
  have filled := building.countP_setCell place empty (.mk .ordinary [] [] ⟨0, [], []⟩)
  have bound := countP_le_length (p := Option.isSome) (l := (building.setCell index (.mk .ordinary [] [] ⟨0, [], []⟩)).cells)
  have length : (building.setCell index (.mk .ordinary [] [] ⟨0, [], []⟩)).cells.length = count := by
    unfold setCell
    rw [length_set, sound.length]
  have := sound.constructed
  omega

/-- Building a node fills its place and changes no place before it. -/
structure Extends (count index : Nat) (before after : Building) : Prop where
  sound : after.Sound count
  grows : ∀ i, (before.cell i).isSome = true → (after.cell i).isSome = true
  frame : ∀ i, i < index → after.cell i = before.cell i

namespace Extends

variable {count index : Nat} {first second third : Building}

lemma refl (sound : first.Sound count) : Extends count index first first :=
  ⟨sound, fun _ filled => filled, fun _ _ => rfl⟩

lemma trans (left : Extends count index first second) (right : Extends count index second third) :
    Extends count index first third where
  sound := right.sound
  grows := fun i filled => right.grows i (left.grows i filled)
  frame := fun i below => (right.frame i below).trans (left.frame i below)

lemma weaken {lower : Nat} (extends_ : Extends count index first second) (le : lower ≤ index) :
    Extends count lower first second where
  sound := extends_.sound
  grows := extends_.grows
  frame := fun i below => extends_.frame i (Nat.lt_of_lt_of_le below le)

end Extends

end Building

open Building

def Fails (count : Nat) (error : BocError) (building : Building) : Prop :=
  IsStatus error ∧ building.cells.length = count ∧ building.constructed ≤ count

lemma Building.Sound.fails {building : Building} {count : Nat} (sound : building.Sound count)
    (message : String) : Fails count (.status message) building := by
  refine ⟨⟨message, rfl⟩, sound.length, ?_⟩
  have bound := countP_le_length (p := Option.isSome) (l := building.cells)
  have := sound.constructed
  have := sound.length
  omega

abbrev Builds {α : Type} (count index : Nat) (action : BuildM α) (start : Building) : Prop :=
  Runs action start (fun _ finish => Extends count index start finish ∧ (finish.cell index).isSome = true) (Fails count)

section Construction

variable {sha : Sha256} {count index : Nat} {building : Building} {node : ParsedNode}

lemma runs_buildError {α : Type} {good : α → Building → Prop} (sound : building.Sound count)
    (text : String) : Runs (buildError text : BuildM α) building good (Fails count) :=
  throw (sound.fails _)

lemma builds_setCell (sound : building.Sound count) (inside : index < count)
    (empty : building.cell index = none) (cell : DataCell) (constructed : Nat)
    (counted : constructed ≤ building.constructed + 1) :
    Extends count index building
        { building.setCell index cell with constructed := constructed } ∧
      (({ building.setCell index cell with constructed := constructed } : Building).cell
        index).isSome = true := by
  have place : index < building.cells.length := sound.length ▸ inside
  have cells := building.cell_setCell place cell
  have filled := building.countP_setCell place empty cell
  refine ⟨⟨⟨?_, ?_⟩, ?_, ?_⟩, ?_⟩
  · show (building.cells.set index (some cell)).length = count
    rw [length_set, sound.length]
  · have := sound.constructed
    show constructed ≤ (building.setCell index cell).cells.countP Option.isSome
    omega
  · intro i before
    show ((building.setCell index cell).cell i).isSome = true
    rw [cells i]
    split
    next => rfl
    next => exact before
  · intro i below
    show (building.setCell index cell).cell i = building.cell i
    rw [cells i, if_neg (by omega)]
  · show ((building.setCell index cell).cell index).isSome = true
    rw [cells index, if_pos rfl]
    rfl

lemma builds_construct (sound : building.Sound count) (inside : index < count)
    (empty : building.cell index = none) (bits : List Bool) (refs : List DataCell) (isSpecial : Bool) (failure : String) :
    Builds count index (construct sha index bits refs isSpecial failure) building := by
  unfold construct
  apply Runs.bind
  apply Runs.modify
  cases DataCell.create sha bits refs isSpecial DataCell.noHint with
  | ok cell =>
    apply Runs.modify
    exact builds_setCell sound inside empty cell (building.constructed + 1) (Nat.le_refl _)
  | error message =>
    apply Runs.throw
    exact ⟨⟨_, rfl⟩, sound.length, sound.room inside empty⟩

lemma runs_liftExcept {α β : Type} {result : Except BocError α} {next : α → BuildM β}
    {holds : α → Prop} {good : β → Building → Prop} {bad : BocError → Building → Prop}
    (ensures : Ensures (fun _ => False) result holds) (run : ∀ value, holds value → Runs (next value) building good bad) :
    Runs (liftExcept result >>= next) building good bad := by
  cases result with
  | ok value => exact run value ensures
  | error error => exact ensures.elim

lemma storeBits_ok {start more : List Bool} (fits : start.length + more.length ≤ Cell.maxBits) :
    Ensures (fun _ => False) (storeBits start more) fun stored => stored = start ++ more := by
  rw [storeBits, if_neg (by omega)]
  rfl

lemma storeBits_foldlM (parts : List (List Bool)) (start : List Bool)
    (fits : start.length + (parts.map List.length).sum ≤ Cell.maxBits) :
    Ensures (fun _ => False) (parts.foldlM storeBits start) fun _ => True := by
  induction parts generalizing start with
  | nil => exact trivial
  | cons part rest ih =>
    rw [map_cons, sum_cons] at fits
    rw [foldlM_cons]
    apply (storeBits_ok (by omega)).bind
    intro stored same
    apply ih stored
    rw [same, length_append]
    omega

lemma storeRef_foldlM {refs : List Nat} {start : List DataCell} (filled : ∀ child ∈ refs, (building.cell child).isSome = true)
    (few : start.length + refs.length ≤ 4) : Ensures (fun _ => False)
      (refs.foldlM (fun refs child => storeRef refs (building.cell child)) start) fun _ => True := by
  induction refs generalizing start with
  | nil => exact trivial
  | cons child rest ih =>
    rw [length_cons] at few
    obtain ⟨cell, found⟩ := Option.isSome_iff_exists.mp (filled child mem_cons_self)
    have room : start.length < Cell.maxRefs := by
      show start.length < 4
      omega
    rw [foldlM_cons, found, storeRef, if_pos room]
    apply ih (forall_mem_cons.mp filled).2
    rw [length_append, length_singleton]
    omega

lemma builds_finalizeNodeFromBuilder (valid : node.Valid count index)
    (sound : building.Sound count) (inside : index < count) (empty : building.cell index = none)
    (filled : ∀ child ∈ node.refs, (building.cell child).isSome = true) (bits : List Bool) :
    Builds count index (finalizeNodeFromBuilder sha index node bits) building := by
  unfold finalizeNodeFromBuilder
  apply get_bind
  have few : ([] : List DataCell).length + node.refs.length ≤ 4 := by
    rw [length_nil, Nat.zero_add]
    exact valid.few
  apply runs_liftExcept (storeRef_foldlM filled few)
  intro refs _
  exact builds_construct sound inside empty bits refs _ _

lemma ParsedNode.Valid.store (valid : node.Valid count index) : Ensures (fun _ => False) node.store fun _ => True := by
  apply storeBits_foldlM
  have fits := valid.fits
  unfold DataFits at fits
  simp only [map_cons, map_nil, sum_cons, sum_nil, length_nil]
  split
  next pruned =>
    rw [if_pos pruned] at fits
    rw [longBits_length]
    omega
  next notPruned =>
    rw [if_neg notPruned] at fits
    simp only [length_nil]
    omega

lemma builds_finalizeNode (valid : node.Valid count index)
    (sound : building.Sound count) (inside : index < count) (empty : building.cell index = none)
    (filled : ∀ child ∈ node.refs, (building.cell child).isSome = true) :
    Builds count index (finalizeNode sha index node) building := by
  unfold finalizeNode
  split
  next => exact runs_buildError sound _
  next =>
    apply runs_liftExcept valid.store
    intro bits _
    exact builds_finalizeNodeFromBuilder valid sound inside empty filled bits

private lemma sum_map_length {α : Type} (items : List α) {part : α → List Bool} {width : Nat}
    (each : ∀ item, (part item).length = width) : ((items.map part).map List.length).sum = items.length * width := by
  induction items with
  | nil => simp
  | cons item rest ih =>
    rw [map_cons, map_cons, sum_cons, ih, each, length_cons, Nat.add_mul]
    omega

lemma prunedBranchBits_fits {cell : DataCell} {newLevel : Nat} (created : cell.Created sha)
    (room : getLevel (apply cell.getLevelMask Cell.maxLevel) + 1 ≤ newLevel)
    (low : newLevel ≤ Cell.maxLevel) : Ensures (fun _ => False) (prunedBranchBits cell newLevel) fun _ => True := by
  have wellFormed := created.wellFormed
  have maxLevel : Cell.maxLevel = 3 := rfl
  unfold prunedBranchBits
  apply storeBits_foldlM
  have count : ((List.range (getLevel (apply cell.getLevelMask Cell.maxLevel) +
      1)).filter (isSignificant (apply cell.getLevelMask Cell.maxLevel))).length ≤
      3 := by
    apply Nat.le_trans (length_filter_le _ _)
    rw [length_range]
    omega
  generalize (List.range (getLevel (apply cell.getLevelMask Cell.maxLevel) +
    1)).filter (isSignificant (apply cell.getLevelMask Cell.maxLevel)) = levels
    at count ⊢
  have hashes := sum_map_length levels fun level => wellFormed.hash_length level
  have depths := sum_map_length levels fun level => longBits_length (cell.getDepth level : Nat) 16
  have maxBits : Cell.maxBits = 1023 := rfl
  have getHash : cell.getHash = cell.info.getHash := rfl
  rw [map_append, map_append, sum_append, sum_append, depths, getHash, hashes]
  simp only [map_cons, map_nil, sum_cons, sum_nil, longBits_length, length_nil]
  omega

lemma builds_prunnedBranchFromState {source : DataCell} (created : source.Created sha)
    (sound : building.Sound count) (inside : index < count) (empty : building.cell index = none) (pbLevelMask : Nat) :
    Builds count index (buildPrunnedBranchFromState sha index pbLevelMask source) building := by
  unfold buildPrunnedBranchFromState
  simp only []
  split
  next => exact runs_buildError sound _
  next allowed =>
    split
    next =>
      apply Runs.modify
      have copied := builds_setCell sound inside empty source building.constructed (by omega)
      exact copied
    next =>
      split
      next => exact runs_buildError sound _
      next room =>
        have low : getLevel pbLevelMask ≤ Cell.maxLevel := by
          have := not_or.mp allowed
          omega
        apply runs_liftExcept (prunedBranchBits_fits created (by omega) low)
        intro bits _
        exact builds_construct sound inside empty bits [] true _

end Construction

section Trees

variable {sha : Sha256} {loads : DataCell → Bool} {nodes : List ParsedNode} {passed : List Nat}

/-- A state that the decompressor can walk: it is made of created cells, and all of them load. -/
def Loadable (sha : Sha256) (loads : DataCell → Bool) (state : DataCell) : Prop :=
  state.Created sha ∧ ∀ cell, DataCell.Within [state] cell → loads cell = true

lemma Loadable.ref {state child : DataCell} (loadable : Loadable sha loads state)
    (member : child ∈ state.refs) : Loadable sha loads child := by
  refine ⟨loadable.1.refs child member, ?_⟩
  intro cell within
  apply loadable.2
  induction within with
  | @root cell isRoot =>
    rw [mem_singleton] at isRoot
    subst isRoot
    exact .ref (.root (mem_singleton_self state)) member
  | ref _ inRefs ih => exact .ref ih inRefs

/-- The loop over the references of a node: all of them are built after it, and the node itself is
still not built. -/
def Children (count index : Nat) (start : Building) (passed : List Nat) (finish : Building) : Prop :=
  Extends count (index + 1) start finish ∧ ∀ child ∈ passed, (finish.cell child).isSome = true

lemma Children.start {count index : Nat} {building : Building} (sound : building.Sound count) :
    Children count index building [] building :=
  ⟨.refl sound, fun _ member => absurd member not_mem_nil⟩

lemma Children.next {count index child : Nat} {start middle finish : Building}
    (before : Children count index start passed middle) (later : index < child)
    (extends_ : Extends count child middle finish) (filled : (finish.cell child).isSome = true) :
    Children count index start (passed ++ [child]) finish := by
  refine ⟨before.1.trans (extends_.weaken later), forall_mem_append.mpr ⟨?_, ?_⟩⟩
  · exact fun other member => extends_.grows other (before.2 other member)
  · exact forall_mem_singleton.mpr filled

lemma Children.empty {count index : Nat} {start finish : Building}
    (children : Children count index start passed finish) (empty : start.cell index = none) : finish.cell index = none :=
  (children.1.frame index (Nat.lt_succ_self index)).trans empty

lemma Children.builds {α : Type} {count index : Nat} {start middle : Building}
    {action : BuildM α} (children : Children count index start passed middle) (run : Builds count index action middle) :
    Runs action middle (fun _ finish => Extends count index start finish ∧ (finish.cell index).isSome = true) (Fails count) :=
  run.imp fun _ _ built => ⟨(children.1.weaken (Nat.le_succ index)).trans built.1, built.2⟩

lemma not_isSome {building : Building} {index : Nat}
    (unset : ¬(building.cell index).isSome = true) : building.cell index = none := by
  cases slot : building.cell index with
  | none => rfl
  | some value =>
    rw [slot] at unset
    exact absurd rfl unset

section

variable (graph : ValidGraph nodes)
include graph

lemma builds_left (fuel index : Nat) (state : Option DataCell) (building : Building)
    (sound : building.Sound nodes.length) (inside : index < nodes.length) (enough : nodes.length ≤ fuel + index)
    (loadable : ∀ cell, state = some cell → Loadable sha loads cell) :
    Builds nodes.length index (buildLeftUnderMu sha loads nodes fuel index state) building := by
  induction fuel generalizing index state building with
  | zero => omega
  | succ fuel ih =>
    cases state with
    | none => exact runs_buildError sound _
    | some state =>
      unfold buildLeftUnderMu
      apply get_bind
      split
      next filled => exact pure ⟨.refl sound, filled⟩
      next unset =>
        have empty := not_isSome unset
        have found : nodes[index]? = some nodes[index] := getElem?_eq_getElem inside
        have valid := graph index _ found
        have stateLoadable := loadable state rfl
        have loaded : loads state = true := stateLoadable.2 state (.root (mem_singleton_self state))
        rw [found]
        simp only [loaded, Bool.not_true, Bool.false_eq_true, if_false]
        split
        next =>
          exact builds_prunnedBranchFromState stateLoadable.1 sound inside empty _
        split
        next => exact runs_buildError sound _
        split
        next => exact runs_buildError sound _
        apply Runs.bind
        apply (@Runs.forM _ _ _ _ _ _ _
          (fun passed state =>
            Children nodes.length index building (passed.map Prod.fst) state)
          (.start sound) _).imp
        · intro _ middle children
          rw [zipIdx_map_fst] at children
          have short : ([] : List Bool).length + state.bits.length ≤ Cell.maxBits := by
            rw [length_nil, Nat.zero_add]
            exact stateLoadable.1.bits_length_le
          apply runs_liftExcept (storeBits_ok short)
          intro bits _
          apply children.builds
          exact builds_finalizeNodeFromBuilder valid children.1.sound inside (children.empty empty) children.2 bits
        · intro passed entry middle seen children
          have member : entry ∈ nodes[index].refs.zipIdx := seen.subset (mem_append_right _ (mem_singleton_self entry))
          have later := valid.later entry.1 (fst_mem_of_mem_zipIdx member)
          have run := ih entry.1 state.refs[entry.2]? middle children.1.sound later.2
            (by omega) fun cell found =>
              stateLoadable.ref (mem_of_getElem? found)
          apply run.imp
          intro _ finish built
          rw [map_append, map_singleton]
          exact children.next later.1 built.1 built.2

lemma runs_leftRefs {left : Option Nat} {building : Building} {bad : BocError → Building → Prop}
    (inside : ∀ index, left = some index → index < nodes.length) : Runs (leftRefs nodes left) building
      (fun refs finish => building = finish ∧ ∀ child ∈ refs, child < nodes.length) bad := by
  cases left with
  | none => exact pure ⟨rfl, fun _ member => absurd member not_mem_nil⟩
  | some left =>
    have found := getElem?_eq_getElem (inside left rfl)
    simp only [leftRefs, found]
    exact pure ⟨rfl, fun child member => ((graph left _ found).later child member).2⟩

lemma builds_right (fuel right : Nat) (left : Option Nat) (building : Building)
    (sound : building.Sound nodes.length) (inside : right < nodes.length) (enough : nodes.length ≤ fuel + right)
    (leftInside : ∀ index, left = some index → index < nodes.length) :
    Builds nodes.length right (buildRightUnderMu sha nodes fuel right left) building := by
  induction fuel generalizing right left building with
  | zero => omega
  | succ fuel ih =>
    unfold buildRightUnderMu
    apply get_bind
    split
    next => exact runs_buildError sound _
    split
    next filled => exact pure ⟨.refl sound, filled⟩
    next unset =>
      have empty := not_isSome unset
      have found : nodes[right]? = some nodes[right] := getElem?_eq_getElem inside
      have valid := graph right _ found
      rw [found]
      apply Runs.bind
      apply (runs_leftRefs graph leftInside).imp
      rintro refs _ ⟨rfl, refsInside⟩
      apply Runs.bind
      apply (@Runs.foldlM _ _ _ _ _ _ _ _ _
        (fun passed _ state =>
          Children nodes.length right building (passed.map Prod.fst) state)
        (.start sound) _).imp
      · intro sum middle children
        rw [zipIdx_map_fst] at children
        have stillEmpty := children.empty empty
        split
        next =>
          apply get_bind
          split
          next => exact runs_buildError children.1.sound _
          next =>
            split
            next => exact runs_buildError children.1.sound _
            next bits _ =>
              apply Runs.bind
              exact children.builds (builds_finalizeNodeFromBuilder valid children.1.sound inside stillEmpty children.2 bits)
        next =>
          apply Runs.bind
          exact children.builds (builds_finalizeNode valid children.1.sound inside stillEmpty children.2)
      · intro passed entry sum middle seen children
        have member : entry ∈ nodes[right].refs.zipIdx := seen.subset (mem_append_right _ (mem_singleton_self entry))
        have later := valid.later entry.1 (fst_mem_of_mem_zipIdx member)
        apply Runs.bind
        have run := ih entry.1 refs[entry.2]? middle children.1.sound later.2 (by omega)
          fun index found => refsInside index (mem_of_getElem? found)
        apply run.imp
        intro diff finish built
        rw [map_append, map_singleton]
        exact pure (children.next later.1 built.1 built.2)

lemma builds_node {state : Option DataCell} (loadable : ∀ cell, state = some cell → Loadable sha loads cell) (fuel index : Nat)
    (mainMu : Option Nat) (building : Building) (sound : building.Sound nodes.length)
    (inside : index < nodes.length) (enough : nodes.length ≤ fuel + index) :
    Builds nodes.length index (buildNode sha loads nodes state fuel index mainMu) building := by
  induction fuel generalizing index mainMu building with
  | zero => omega
  | succ fuel ih =>
    unfold buildNode
    apply get_bind
    split
    next filled => exact pure ⟨.refl sound, filled⟩
    next unset =>
      have empty := not_isSome unset
      have found : nodes[index]? = some nodes[index] := getElem?_eq_getElem inside
      have valid := graph index _ found
      rw [found]
      simp only []
      split
      next =>
        split
        next left right refs =>
          have leftLater := valid.later left (by rw [refs]; exact mem_cons_self)
          have rightLater := valid.later right (by
            rw [refs]
            exact mem_cons_of_mem _ mem_cons_self)
          apply Runs.bind
          refine imp (show Builds nodes.length left _ building from ?left) ?_
          case left =>
            cases state with
            | some state =>
              exact builds_left graph fuel left (some state) building sound leftLater.2 (by omega) loadable
            | none => exact ih left none building sound leftLater.2 (by omega)
          intro _ afterLeft leftBuilt
          apply Runs.bind
          have rightRun := @builds_right sha nodes graph fuel right (some left) afterLeft
            leftBuilt.1.sound rightLater.2 (by omega) (by
              rintro _ ⟨⟩
              exact leftLater.2)
          apply rightRun.imp
          intro _ afterRight rightBuilt
          have one := (Children.start sound).next leftLater.1 leftBuilt.1 leftBuilt.2
          have children := one.next rightLater.1 rightBuilt.1 rightBuilt.2
          rw [nil_append, singleton_append, ← refs] at children
          exact children.builds (builds_finalizeNode valid children.1.sound inside (children.empty empty) children.2)
        next => exact runs_buildError sound _
      next =>
        apply Runs.bind
        apply (@Runs.forM _ _ _ _ _ _ _ (fun passed state => Children nodes.length index building passed state)
          (.start sound) _).imp
        · intro _ middle children
          exact children.builds (builds_finalizeNode valid children.1.sound inside (children.empty empty) children.2)
        · intro passed child middle seen children
          have member : child ∈ nodes[index].refs := seen.subset (mem_append_right _ (mem_singleton_self child))
          have later := valid.later child member
          apply (ih child mainMu middle children.1.sound later.2 (by omega)).imp
          intro _ finish built
          exact children.next later.1 built.1 built.2

lemma runs_buildRootNodes {state : Option DataCell}
    (loadable : ∀ cell, state = some cell → Loadable sha loads cell) {rootIndexes : List Nat}
    (inside : ∀ index ∈ rootIndexes, index < nodes.length) {building : Building} (sound : building.Sound nodes.length) :
    Runs (buildRootNodes sha loads nodes state rootIndexes) building (fun _ finish => finish.Sound nodes.length ∧
        ∀ index ∈ rootIndexes, (finish.cell index).isSome = true) (Fails nodes.length) := by
  unfold buildRootNodes
  apply (@Runs.forM _ _ _ _ _ _ _ (fun (passed : List Nat) (state : Building) => state.Sound nodes.length ∧
      ∀ index ∈ passed, (state.cell index).isSome = true) ⟨sound, fun _ member => absurd member not_mem_nil⟩ _)
  intro passed index middle seen built
  have member : index ∈ rootIndexes := seen.subset (mem_append_right _ (mem_singleton_self index))
  apply (builds_node graph loadable _ index _ middle built.1 (inside index member) (by omega)).imp
  intro _ finish extended
  refine ⟨extended.1.sound, ?_⟩
  intro other otherMember
  rcases mem_append.mp otherMember with earlier | last
  · exact extended.1.grows other (built.2 other earlier)
  · rw [mem_singleton] at last
    subst last
    exact extended.2

end

end Trees

/-- The cells that a run has tried to create, against the declared number of nodes. -/
structure Bounded (building : Building) : Prop where
  constructed : building.constructed ≤ building.cells.length
  nodes : building.cells.length ≤ maxNodeCount

def Building.initial : Building := { cells := [], constructed := 0 }

lemma Building.initial_bounded : Bounded Building.initial :=
  ⟨Nat.le_refl 0, Nat.zero_le _⟩

lemma Building.Sound.bounded {building : Building} {count : Nat} (sound : building.Sound count)
    (few : count ≤ maxNodeCount) : Bounded building := by
  have bound := countP_le_length (p := Option.isSome) (l := building.cells)
  exact ⟨Nat.le_trans sound.constructed bound, sound.length.symm ▸ few⟩

lemma runs_restore {sha : Sha256} {loads : DataCell → Bool} {state : Option DataCell}
    (loadable : ∀ cell, state = some cell → Loadable sha loads cell) (serialized : List UInt8) :
    Runs (restore sha loads serialized state) Building.initial (fun roots finish => roots ≠ [] ∧ Bounded finish)
      (fun error finish => IsStatus error ∧ Bounded finish) := by
  unfold restore
  have reads := reads_parse serialized
  cases result : parse serialized with
  | error error => exact ⟨reads.of_error result, Building.initial_bounded⟩
  | ok parsed =>
    obtain ⟨few, graph, someRoot, inside⟩ := reads.of_ok result
    have known : Ensures (fun _ => False) (.ok parsed : Except BocError Parsed) (parsed = ·) := rfl
    apply runs_liftExcept known
    intro value same
    subst same
    apply Runs.bind
    apply Runs.set
    apply Runs.bind
    have failed : ∀ error finish, Fails parsed.nodes.length error finish →
        IsStatus error ∧ Bounded finish := by
      intro error finish fails
      refine ⟨fails.1, ?_, ?_⟩
      · rw [fails.2.1]
        exact fails.2.2
      · rw [fails.2.1]
        exact few
    apply (runs_buildRootNodes graph loadable inside ⟨length_replicate, Nat.zero_le _⟩).mono _ failed
    intro _ built allBuilt
    apply get_bind
    apply (@Runs.mapM _ _ _ _ _ _ _ _ (fun finish => Bounded finish) (allBuilt.1.bounded few) _).imp
    · intro roots finish rooted
      refine ⟨?_, rooted.2⟩
      intro none
      rw [none, length_nil] at rooted
      exact someRoot (length_eq_zero_iff.mp rooted.1.symm)
    · intro index member finish bounded
      obtain ⟨cell, found⟩ := Option.isSome_iff_exists.mp (allBuilt.2 index member)
      rw [found]
      exact pure bounded

def merkleUpdateBytes : List UInt8 :=
  [0, 0, 0, 1, 0, 0, 0, 0, 0, 0, 0, 3, 0x03, 0x80, 0x12, 0x88, 0x00, 0x80, 0xF8, 0x04]

def BuildM.failure {α : Type} (action : BuildM α) : Option BocError :=
  match action Building.initial with
  | .ok _ _ => none
  | .error error _ => some error

end TonNode.Vm.BocCompression
