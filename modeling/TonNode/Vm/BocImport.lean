import TonNode.Vm.BocReordered

/-!
# Importing cells into a bag

Importing walks the cells below the roots and lists each of them once, after its references. The
invariant keeps the list of visits that do not yet stand in the references of a listed cell.
-/

namespace TonNode.Vm

/-- The roots and everything below them. -/
inductive DataCell.Within (roots : List DataCell) : DataCell → Prop where
  | root {cell : DataCell} : cell ∈ roots → Within roots cell
  | ref {cell child : DataCell} : Within roots cell → child ∈ cell.refs → Within roots child

/-- A hash stands for one cell only: there are no collisions among these cells. -/
def DataCell.HashesDistinct (roots : List DataCell) : Prop :=
  ∀ first second, Within roots first → Within roots second → first.reprHash = second.reprHash → first = second

namespace BagOfCells

open Boc List CellInfo

variable {sha : Sha256} {roots : List DataCell} {cell : DataCell}

def cells (bag : BagOfCells) : List DataCell := bag.cellList.map dcRef

/-- A bag while cells are imported. `visits` are the numbers returned for cells not referred to
yet, `open_` of them counted as references. -/
structure Importing (sha : Sha256) (roots : List DataCell) (bag : BagOfCells) (visits : List Nat)
    (open_ : Nat) : Prop where
  fresh : ∀ info ∈ bag.cellList, info.newIdx = -1
  inner : ∀ info ∈ bag.cellList, info.isRootCell = false
  hcnt : ∀ info ∈ bag.cellList, info.hcnt = LevelMask.getHashesCount info.dcRef.getLevelMask
  created : ∀ info ∈ bag.cellList, info.dcRef.Created sha
  within : ∀ info ∈ bag.cellList, DataCell.Within roots info.dcRef
  refs : ∀ (idx : Nat) (info : CellInfo DataCell), bag.cellList[idx]? = some info →
    info.refIdx.map (fun ref => bag.cellList[ref]?.map dcRef) = info.dcRef.refs.map some
  visits_lt : ∀ pos ∈ visits, pos < bag.cellCount
  met : ∀ idx < bag.cellCount, 1 ≤ (visits ++ bag.cellList.flatMap refIdx).count idx
  cache : ∀ (idx : Nat) (info : CellInfo DataCell), bag.cellList[idx]? = some info →
    info.shouldCache = decide (2 ≤ (visits ++ bag.cellList.flatMap refIdx).count idx)
  intRefs : bag.intRefs = Lib.wrapInt (open_ + (bag.cellList.flatMap refIdx).length : Nat)
  dataBytes : bag.dataBytes = (bag.cellList.map fun info => info.dcRef.getSerializedSize false).sum
  once : bag.cells.Nodup

/-- What importing may change: new cells at the end of the list, less deep than `deep`, and cache
flags. -/
structure Grows (deep : Nat) (bag next : BagOfCells) : Prop where
  roots : next.roots = bag.roots
  entry : ∀ (idx : Nat) (info : CellInfo DataCell), bag.cellList[idx]? = some info →
    ∃ shouldCache, next.cellList[idx]? = some { info with shouldCache := shouldCache }
  listed : ∀ cell ∈ next.cells, cell ∈ bag.cells ∨ cell.getDepth Cell.maxLevel < deep

namespace Grows

variable {deep : Nat} {bag next last : BagOfCells}

lemma refl (bag : BagOfCells) : Grows deep bag bag where
  roots := rfl
  entry := fun _ info found => ⟨info.shouldCache, found⟩
  listed := fun _ => .inl

lemma trans (first : Grows deep bag next) (second : Grows deep next last) : Grows deep bag last where
  listed := fun cell member => (second.listed cell member).elim (first.listed cell) .inr
  roots := second.roots.trans first.roots
  entry := by
    intro idx info found
    obtain ⟨_, between⟩ := first.entry idx info found
    obtain ⟨cached, final⟩ := second.entry idx _ between
    exact ⟨cached, final⟩

lemma mono {more : Nat} (grows : Grows deep bag next) (le : deep ≤ more) : Grows more bag next :=
  { grows with
    listed := fun cell member => (grows.listed cell member).imp_right (·.trans_le le) }

lemma cell_at (grows : Grows deep bag next) {idx : Nat}
    (found : bag.cellList[idx]?.map dcRef = some cell) : next.cellList[idx]?.map dcRef = some cell := by
  obtain ⟨info, infoFound, rfl⟩ := Option.map_eq_some_iff.mp found
  obtain ⟨_, final⟩ := grows.entry idx info infoFound
  rw [final]
  rfl

lemma cells_at (grows : Grows deep bag next) {positions : List Nat} {cells : List DataCell}
    (found : positions.map (fun pos => bag.cellList[pos]?.map dcRef) = cells.map some) :
    positions.map (fun pos => next.cellList[pos]?.map dcRef) = cells.map some := by
  induction positions generalizing cells with
  | nil => exact found
  | cons pos rest ih =>
    cases cells with
    | nil => cases found
    | cons cell others =>
      simp only [map_cons, List.cons.injEq] at found ⊢
      exact ⟨grows.cell_at found.1, ih found.2⟩

end Grows

section Steps

variable {bag : BagOfCells} {visits : List Nat} {open_ : Nat}

lemma Importing.perm (importing : Importing sha roots bag visits open_) {other : List Nat}
    (same : visits.Perm other) : Importing sha roots bag other open_ := by
  have counts : ∀ idx, (other ++ bag.cellList.flatMap refIdx).count idx =
      (visits ++ bag.cellList.flatMap refIdx).count idx := by
    intro idx
    exact (same.append_right _).symm.count_eq idx
  exact
    { importing with
      visits_lt := fun pos member => importing.visits_lt pos (same.mem_iff.mpr member)
      met := fun idx inside => by rw [counts]; exact importing.met idx inside
      cache := fun idx info found => by rw [counts]; exact importing.cache idx info found }

lemma Importing.countRef (importing : Importing sha roots bag visits open_) :
    Importing sha roots { bag with intRefs := Lib.wrapInt (bag.intRefs + 1) } visits (open_ + 1) :=
  { importing with
    intRefs := by
      simp only [importing.intRefs, Lib.wrapInt_wrapInt_add, Nat.add_right_comm open_ 1, Nat.cast_succ] }

variable {pos idx : Nat} {info : CellInfo DataCell} {refIdx : List Nat}

lemma find_some {hash : CellHash} (found : bag.find hash = some pos) :
    ∃ info, bag.cellList[pos]? = some info ∧ info.dcRef.reprHash = hash := by
  obtain ⟨inside, same, _⟩ := findIdx?_eq_some_iff_getElem.mp found
  exact ⟨_, getElem?_eq_getElem inside, by simpa using same⟩

lemma markCached_entry (found : bag.cellList[idx]? = some info) : (bag.markCached pos).cellList[idx]? =
      some { info with shouldCache := if pos = idx then true else info.shouldCache } := by
  unfold markCached
  rw [getElem?_modify, found]
  split <;> rfl

lemma markCached_source (found : (bag.markCached pos).cellList[idx]? = some info) : ∃ before, bag.cellList[idx]? = some before ∧
      info = { before with shouldCache := if pos = idx then true else before.shouldCache } := by
  unfold markCached at found
  rw [getElem?_modify] at found
  obtain ⟨before, beforeFound, rfl⟩ := Option.map_eq_some_iff.mp found
  exact ⟨before, beforeFound, by split <;> rfl⟩

lemma markCached_map {β : Type} {field : CellInfo DataCell → β}
    (ignores : ∀ (info : CellInfo DataCell) (shouldCache : Bool),
      field { info with shouldCache := shouldCache } = field info) (pos : Nat) :
    (bag.markCached pos).cellList.map field = bag.cellList.map field := by
  apply ext_getElem?
  intro idx
  unfold markCached
  rw [getElem?_map, getElem?_map, getElem?_modify]
  cases bag.cellList[idx]? with
  | none => rfl
  | some info =>
    by_cases same : pos = idx
    · simp [same, ignores]
    · simp [same]

lemma markCached_cells (pos : Nat) : (bag.markCached pos).cells = bag.cells :=
  markCached_map (fun _ _ => rfl) pos

lemma markCached_grows {deep : Nat} (pos : Nat) : Grows deep bag (bag.markCached pos) where
  roots := rfl
  listed := fun _ member => .inl (markCached_cells pos ▸ member)
  entry := fun _ _ found => ⟨_, markCached_entry found⟩

lemma Importing.visitAgain (importing : Importing sha roots bag visits open_) (inside : pos < bag.cellCount) :
    Importing sha roots (bag.markCached pos) (pos :: visits) open_ := by
  have length : (bag.markCached pos).cellCount = bag.cellCount := by
    simp [cellCount, markCached]
  have sameRefs : (bag.markCached pos).cellList.flatMap refIdx =
      bag.cellList.flatMap refIdx := by
    rw [flatMap_def, flatMap_def, markCached_map fun _ _ => rfl]
  have everyCell : ∀ {holds : CellInfo DataCell → Prop},
      (∀ before shouldCache, holds before → holds { before with shouldCache := shouldCache }) →
      (∀ info ∈ bag.cellList, holds info) → ∀ info ∈ (bag.markCached pos).cellList, holds info := by
    intro holds marked every info isMember
    obtain ⟨idx, found⟩ := mem_iff_getElem?.mp isMember
    obtain ⟨before, beforeFound, rfl⟩ := markCached_source found
    exact marked before _ (every before (mem_of_getElem? beforeFound))
  constructor
  · exact everyCell (fun _ _ before => before) importing.fresh
  · exact everyCell (fun _ _ before => before) importing.inner
  · exact everyCell (fun _ _ before => before) importing.hcnt
  · exact everyCell (fun _ _ before => before) importing.created
  · exact everyCell (fun _ _ before => before) importing.within
  · intro idx info found
    obtain ⟨before, beforeFound, rfl⟩ := markCached_source found
    exact (@markCached_grows _ 0 pos).cells_at (importing.refs idx before beforeFound)
  · rw [length]
    exact forall_mem_cons.mpr ⟨inside, importing.visits_lt⟩
  · intro idx idxInside
    rw [length] at idxInside
    have before := importing.met idx idxInside
    rw [sameRefs, cons_append, count_cons]
    omega
  · intro idx info found
    obtain ⟨before, beforeFound, rfl⟩ := markCached_source found
    have idxInside := lt_of_getElem? beforeFound
    have once := importing.met idx idxInside
    have flag := importing.cache idx before beforeFound
    rw [sameRefs, List.cons_append, List.count_cons]
    by_cases same : pos = idx
    · subst same
      have twice : 2 ≤ (visits ++ bag.cellList.flatMap refIdx).count pos + 1 := by omega
      simp only [↓reduceIte, beq_self_eq_true]
      exact (decide_eq_true twice).symm
    · simp only [same, ↓reduceIte, beq_iff_eq, Nat.add_zero]
      exact flag
  · rw [sameRefs]
    exact importing.intRefs
  · rw [markCached_map fun _ _ => rfl]
    exact importing.dataBytes
  · rw [markCached_cells]
    exact importing.once

lemma addCell_cells (cell : DataCell) (refIdx : List Nat) :
    (bag.addCell cell refIdx).cells = bag.cells ++ [cell] := map_append

lemma addCell_grows (cell : DataCell) (refIdx : List Nat) :
    Grows (cell.getDepth Cell.maxLevel + 1) bag (bag.addCell cell refIdx) where
  roots := rfl
  listed := by
    rw [addCell_cells]
    exact forall_mem_append.mpr ⟨fun _ => .inl, by simp⟩
  entry := by
    intro idx info found
    have inside := lt_of_getElem? found
    refine ⟨info.shouldCache, ?_⟩
    unfold addCell
    rw [getElem?_append_left inside, found]

def newEntry (bag : BagOfCells) (cell : DataCell) (refIdx : List Nat) : CellInfo DataCell :=
  { dcRef := cell
    refIdx
    wt := min 0xff (1 + (refIdx.map (wtAt bag.cellList)).sum)
    hcnt := LevelMask.getHashesCount cell.getLevelMask
    newIdx := -1
    shouldCache := false
    isRootCell := false }

lemma addCell_cellList (cell : DataCell) (refIdx : List Nat) :
    (bag.addCell cell refIdx).cellList = bag.cellList ++ [bag.newEntry cell refIdx] := rfl

lemma addCell_cellCount (cell : DataCell) (refIdx : List Nat) : (bag.addCell cell refIdx).cellCount = bag.cellCount + 1 := by
  simp [cellCount, addCell]

lemma addCell_refs (cell : DataCell) (refIdx : List Nat) : (bag.addCell cell refIdx).cellList.flatMap CellInfo.refIdx =
      bag.cellList.flatMap CellInfo.refIdx ++ refIdx := by
  rw [addCell_cellList, flatMap_append, flatMap_singleton]
  rfl

lemma addCell_source (found : (bag.addCell cell refIdx).cellList[idx]? = some info) :
    bag.cellList[idx]? = some info ∨ idx = bag.cellCount ∧ info = bag.newEntry cell refIdx := by
  rw [addCell_cellList] at found
  rcases Nat.lt_or_ge idx bag.cellList.length with inside | outside
  · rw [getElem?_append_left inside] at found
    exact Or.inl found
  · rw [getElem?_append_right outside] at found
    obtain ⟨last, same⟩ := List.getElem?_eq_some_iff.mp found
    rw [length_singleton] at last
    refine Or.inr ⟨?_, by simpa using same.symm⟩
    unfold cellCount
    omega

lemma Importing.unseen (importing : Importing sha roots bag visits open_) :
    (visits ++ bag.cellList.flatMap CellInfo.refIdx).count bag.cellCount = 0 := by
  apply count_eq_zero.mpr
  intro member
  rcases mem_append.mp member with visit | listed
  · exact Nat.lt_irrefl _ (importing.visits_lt _ visit)
  obtain ⟨info, infoMember, isRef⟩ := mem_flatMap.mp listed
  obtain ⟨idx, found⟩ := mem_iff_getElem?.mp infoMember
  have cell : (bag.cellList[bag.cellCount]?.map dcRef) ∈ info.dcRef.refs.map some := by
    rw [← importing.refs idx info found]
    exact mem_map.mpr ⟨_, isRef, rfl⟩
  obtain ⟨child, _, same⟩ := mem_map.mp cell
  have outside : bag.cellList[bag.cellCount]? = none := getElem?_eq_none_iff.mpr (Nat.le_refl _)
  rw [outside] at same
  cases same

lemma Importing.add (importing : Importing sha roots bag (refIdx ++ visits) (open_ + refIdx.length))
    (created : cell.Created sha) (within : DataCell.Within roots cell)
    (refs : refIdx.map (fun ref => bag.cellList[ref]?.map dcRef) = cell.refs.map some) (isNew : cell ∉ bag.cells) :
    Importing sha roots (bag.addCell cell refIdx) (bag.cellCount :: visits) open_ := by
  have counts : ∀ idx, (bag.cellCount :: visits ++
      (bag.addCell cell refIdx).cellList.flatMap CellInfo.refIdx).count idx =
        (refIdx ++ visits ++ bag.cellList.flatMap CellInfo.refIdx).count idx +
          if bag.cellCount = idx then 1 else 0 := by
    intro idx
    rw [addCell_refs, cons_append, count_cons]
    simp only [count_append, beq_iff_eq]
    omega
  constructor
  · exact forall_mem_append.mpr ⟨importing.fresh, forall_mem_singleton.mpr rfl⟩
  · exact forall_mem_append.mpr ⟨importing.inner, forall_mem_singleton.mpr rfl⟩
  · exact forall_mem_append.mpr ⟨importing.hcnt, forall_mem_singleton.mpr rfl⟩
  · exact forall_mem_append.mpr ⟨importing.created, forall_mem_singleton.mpr created⟩
  · exact forall_mem_append.mpr ⟨importing.within, forall_mem_singleton.mpr within⟩
  · intro idx info found
    rcases addCell_source found with old | ⟨_, rfl⟩
    · exact (addCell_grows cell refIdx).cells_at (importing.refs idx info old)
    · exact (addCell_grows cell refIdx).cells_at refs
  · intro pos isMember
    rw [addCell_cellCount]
    rcases mem_cons.mp isMember with here | there
    · omega
    · have below := importing.visits_lt pos (mem_append_right _ there)
      omega
  · intro idx inside
    rw [addCell_cellCount] at inside
    rw [counts]
    by_cases isNew : bag.cellCount = idx
    · rw [if_pos isNew]
      omega
    · exact Nat.le_add_right_of_le (importing.met idx (by omega))
  · intro idx info found
    rw [counts]
    rcases addCell_source found with old | ⟨rfl, rfl⟩
    · have inside := lt_of_getElem? old
      have different : bag.cellCount ≠ idx := by
        unfold cellCount
        omega
      rw [if_neg different, Nat.add_zero]
      exact importing.cache idx info old
    · rw [importing.unseen, if_pos rfl]
      rfl
  · rw [addCell_refs, length_append, add_comm _ refIdx.length, ← add_assoc]
    exact importing.intRefs
  · have before := importing.dataBytes
    rw [addCell_cellList, map_append, sum_append, ← before]
    simp [addCell, newEntry]
  · rw [addCell_cells, ← concat_eq_append]
    exact importing.once.concat isNew

end Steps

lemma importCell_eq (bag : BagOfCells) (depth : Nat) (cell : DataCell) :
    importCell bag depth cell =
      if depth > Cell.maxDepth then
        .error (.status
          "error while importing a cell into a bag of cells: cell depth too large")
      else
        match bag.find cell.reprHash with
        | some pos => .ok (pos, bag.markCached pos)
        | none => importRefs bag (depth + 1) cell.refs >>= fun result =>
          .ok (result.2.cellCount, result.2.addCell cell result.1) := by
  cases cell
  rw [importCell]
  rfl

def Imports (sha : Sha256) (roots : List DataCell) (cell : DataCell) : Prop :=
  ∀ (bag : BagOfCells) (visits : List Nat) (open_ depth : Nat),
    Importing sha roots bag visits open_ → DataCell.Within roots cell → depth + cell.getDepth Cell.maxLevel ≤ Cell.maxDepth →
    ∃ pos next, importCell bag depth cell = .ok (pos, next) ∧ Importing sha roots next (pos :: visits) open_ ∧
      Grows (cell.getDepth Cell.maxLevel + 1) bag next ∧ next.cellList[pos]?.map dcRef = some cell

variable {bag : BagOfCells}

lemma importRefs_ok {refs : List DataCell} (each : ∀ ref ∈ refs, Imports sha roots ref)
    {visits : List Nat} {open_ depth deep : Nat} (importing : Importing sha roots bag visits open_)
    (within : ∀ ref ∈ refs, DataCell.Within roots ref) (below : ∀ ref ∈ refs, ref.getDepth Cell.maxLevel < deep)
    (shallow : depth + deep ≤ Cell.maxDepth + 1) : ∃ refIdx next, importRefs bag depth refs = .ok (refIdx, next) ∧
      Importing sha roots next (refIdx ++ visits) (open_ + refIdx.length) ∧ Grows deep bag next ∧
      refIdx.map (fun ref => next.cellList[ref]?.map dcRef) = refs.map some := by
  induction refs generalizing bag visits open_ with
  | nil => exact ⟨[], bag, by rw [importRefs], importing, Grows.refl bag, rfl⟩
  | cons ref rest ih =>
    have refBelow := below ref (by simp)
    obtain ⟨pos, first, imported, firstImporting, firstGrows, here⟩ :=
      each ref (by simp) bag visits open_ depth importing (within ref (by simp)) (by omega)
    obtain ⟨refIdx, next, restImported, restImporting, restGrows, others⟩ :=
      ih (forall_mem_cons.mp each).2 firstImporting.countRef (forall_mem_cons.mp within).2 (forall_mem_cons.mp below).2
    have grows : Grows deep first next := { restGrows with }
    refine ⟨pos :: refIdx, next, ?_, ?_, (firstGrows.mono refBelow).trans grows, ?_⟩
    · rw [importRefs, imported, Lib.ok_bind]
      simp only []
      rw [restImported, Lib.ok_bind]
    · have moved := restImporting.perm (perm_middle : (refIdx ++ pos :: visits).Perm _)
      have counted : open_ + 1 + refIdx.length = open_ + (pos :: refIdx).length := by
        rw [length_cons]
        omega
      rwa [counted] at moved
    · rw [map_cons, map_cons, grows.cell_at here, others]

/-- The induction is on how the cell was created, so it covers everything the cell refers to. -/
lemma imports_of_created (distinct : DataCell.HashesDistinct roots) (created : cell.Created sha) : Imports sha roots cell := by
  refine created.byRefs ?_
  intro cell created ih bag visits open_ depth importing within shallow
  rw [importCell_eq, if_neg (by omega)]
  cases found : bag.find cell.reprHash with
  | some pos =>
    obtain ⟨info, listed, sameHash⟩ := find_some found
    have member := mem_of_getElem? listed
    have same : info.dcRef = cell := distinct info.dcRef cell (importing.within info member) within sameHash
    have inside := lt_of_getElem? listed
    refine ⟨pos, bag.markCached pos, rfl, importing.visitAgain inside, markCached_grows pos, ?_⟩
    rw [markCached_entry listed, ← same]
    rfl
  | none =>
    obtain ⟨refIdx, next, imported, nextImporting, grows, refsFound⟩ :=
      importRefs_ok ih importing (fun ref member => within.ref member)
        (fun ref member => created.getDepth_lt member) (show depth + 1 + _ ≤ _ by omega)
    have isNew : cell ∉ next.cells := by
      intro member
      rcases grows.listed cell member with early | shallow
      · obtain ⟨info, infoMember, rfl⟩ := mem_map.mp early
        simpa using findIdx?_eq_none_iff.mp found info infoMember
      · exact Nat.lt_irrefl _ shallow
    refine ⟨next.cellCount, next.addCell cell refIdx, ?_, nextImporting.add created within refsFound isNew,
      (grows.mono (Nat.le_succ _)).trans (addCell_grows cell refIdx), ?_⟩
    · rw [imported, Lib.ok_bind]
    · rw [addCell_cellList]
      unfold cellCount
      simp [newEntry]

lemma importing_new (sha : Sha256) (roots : List DataCell) : Importing sha roots new [] 0 := by
  constructor <;> simp [new, cellCount, cells, Lib.wrapInt]

lemma importRoots_ok (distinct : DataCell.HashesDistinct roots)
    (created : ∀ root ∈ roots, root.Created sha) {rest done : List DataCell}
    (inRoots : ∀ root ∈ rest, root ∈ roots) (importing : Importing sha roots bag bag.roots 0)
    (doneFound : bag.roots.map (fun pos => bag.cellList[pos]?.map dcRef) = done.map some) :
    ∃ next, importRoots bag rest = .ok next ∧ Importing sha roots next next.roots 0 ∧
      next.roots.map (fun pos => next.cellList[pos]?.map dcRef) = (done ++ rest).map some := by
  induction rest generalizing bag done with
  | nil => exact ⟨bag, rfl, importing, by rw [append_nil]; exact doneFound⟩
  | cons root rest ih =>
    have isRoot := inRoots root (by simp)
    have rootCreated := created root isRoot
    have shallow : 0 + root.getDepth Cell.maxLevel ≤ Cell.maxDepth := by
      rw [Nat.zero_add]
      exact rootCreated.wellFormed.depth_le _
    obtain ⟨pos, first, imported, firstImporting, grows, here⟩ :=
      imports_of_created distinct rootCreated bag bag.roots 0 0 importing (.root isRoot) shallow
    have moved : Importing sha roots { first with roots := first.roots ++ [pos] }
        (first.roots ++ [pos]) 0 := by
      have listed := firstImporting.perm (perm_append_singleton pos bag.roots).symm
      rw [← grows.roots] at listed
      exact { listed with }
    have found : (first.roots ++ [pos]).map
        (fun pos => first.cellList[pos]?.map dcRef) = (done ++ [root]).map some := by
      rw [map_append, map_append, grows.roots, grows.cells_at doneFound]
      simp [here]
    obtain ⟨next, restImported, nextImporting, nextFound⟩ := ih (forall_mem_cons.mp inRoots).2 moved found
    refine ⟨next, ?_, nextImporting, ?_⟩
    · rw [importRoots, imported, Lib.ok_bind]
      exact restImported
    · rw [nextFound, append_assoc]
      rfl

lemma Importing.imported (importing : Importing sha roots bag bag.roots 0) : Imported sha id bag.cellList bag.roots :=
  { importing with roots_lt := importing.visits_lt }

end BagOfCells

end TonNode.Vm
