import TonNode.Vm.BocLayout
import TonNode.Vm.BocRevisit
import TonNode.Lib.EvenSplit

/-!
# A reordered bag of cells is a layout

Weighing changes nothing but weights and only lowers them, the children of a cell never weigh more
than there is place for, and the hashes counted are those of the cells that end with no weight.
-/

namespace TonNode.Vm.Boc

open List Nat

variable {α : Type} {idx : Nat} {info : CellInfo α} {wt : Nat}

structure Reweighed (cells other : List (CellInfo α)) : Prop where
  length : other.length = cells.length
  entry : ∀ (idx : Nat) (info : CellInfo α), cells[idx]? = some info → ∃ wt, other[idx]? = some { info with wt := wt }

namespace Reweighed

variable {cells other last : List (CellInfo α)}

lemma refl (cells : List (CellInfo α)) : Reweighed cells cells where
  length := rfl
  entry := fun _ info found => ⟨info.wt, found⟩

lemma trans (first : Reweighed cells other) (second : Reweighed other last) : Reweighed cells last where
  length := second.length.trans first.length
  entry := by
    intro idx info found
    obtain ⟨_, between⟩ := first.entry idx info found
    obtain ⟨wt, final⟩ := second.entry idx _ between
    exact ⟨wt, final⟩

lemma source (same : Reweighed cells other) (found : other[idx]? = some info) :
    ∃ before wt, cells[idx]? = some before ∧ info = { before with wt := wt } := by
  have inside := lt_of_getElem? found
  rw [same.length] at inside
  obtain ⟨wt, final⟩ := same.entry idx _ (List.getElem?_eq_getElem inside)
  rw [found] at final
  exact ⟨_, wt, getElem?_eq_getElem inside, Option.some.inj final⟩

lemma map_eq (same : Reweighed cells other) {β : Type} {field : CellInfo α → β}
    (ignores : ∀ (info : CellInfo α) (wt : Nat), field { info with wt := wt } = field info) :
    other.map field = cells.map field := by
  apply ext_getElem?
  intro idx
  rw [getElem?_map, getElem?_map]
  cases found : cells[idx]? with
  | none =>
    have outside : cells.length ≤ idx := getElem?_eq_none_iff.mp found
    rw [getElem?_eq_none_iff.mpr (by rw [same.length]; exact outside)]
  | some info =>
    obtain ⟨wt, final⟩ := same.entry idx info found
    rw [final, Option.map_some, Option.map_some, ignores]

lemma setWt (cells : List (CellInfo α)) (idx wt : Nat) : Reweighed cells (setWt cells idx wt) where
  length := by simp [Boc.setWt]
  entry := by
    intro other info found
    unfold Boc.setWt
    rw [getElem?_modify]
    by_cases same : idx = other
    · exact ⟨wt, by simp [same, found]⟩
    · exact ⟨info.wt, by simp [same, found]⟩

end Reweighed

structure Lighter (cells lighter : List (CellInfo α)) : Prop where
  length : lighter.length = cells.length
  entry : ∀ (idx : Nat) (info : CellInfo α), cells[idx]? = some info →
    ∃ wt, wt ≤ info.wt ∧ lighter[idx]? = some { info with wt := wt }

namespace Lighter

variable {cells lighter lightest : List (CellInfo α)}

lemma refl (cells : List (CellInfo α)) : Lighter cells cells where
  length := rfl
  entry := fun _ info found => ⟨info.wt, Nat.le_refl _, found⟩

lemma trans (first : Lighter cells lighter) (second : Lighter lighter lightest) : Lighter cells lightest where
  length := second.length.trans first.length
  entry := by
    intro idx info found
    obtain ⟨wt, below, between⟩ := first.entry idx info found
    obtain ⟨last, lower, final⟩ := second.entry idx _ between
    exact ⟨last, Nat.le_trans lower below, final⟩

lemma reweighed (fewer : Lighter cells lighter) : Reweighed cells lighter where
  length := fewer.length
  entry := by
    intro idx info found
    obtain ⟨wt, _, final⟩ := fewer.entry idx info found
    exact ⟨wt, final⟩

lemma setWt (below : wt ≤ wtAt cells idx) : Lighter cells (setWt cells idx wt) where
  length := by simp [Boc.setWt]
  entry := by
    intro other info found
    unfold Boc.setWt
    rw [getElem?_modify]
    by_cases same : idx = other
    · subst same
      unfold wtAt at below
      rw [found] at below
      exact ⟨wt, below, by simp [found]⟩
    · exact ⟨info.wt, Nat.le_refl _, by simp [same, found]⟩

lemma wtAt_le (fewer : Lighter cells lighter) (idx : Nat) : wtAt lighter idx ≤ wtAt cells idx := by
  unfold wtAt
  cases found : lighter[idx]? with
  | none => exact zero_le _
  | some info =>
    obtain ⟨before, _, original, _⟩ := fewer.reweighed.source found
    obtain ⟨wt, below, final⟩ := fewer.entry idx before original
    rw [found] at final
    cases final
    rw [original]
    exact below

lemma sum_le (fewer : Lighter cells lighter) (children : List Nat) :
    (children.map (wtAt lighter)).sum ≤ (children.map (wtAt cells)).sum := by
  induction children with
  | nil => exact Nat.le_refl _
  | cons child rest ih =>
    have here := fewer.wtAt_le child
    simp only [map_cons, sum_cons]
    omega

end Lighter

variable {cells : List (CellInfo α)}

lemma wtAt_setWt : wtAt (setWt cells idx wt) idx ≤ wt := by
  unfold wtAt setWt
  rw [getElem?_modify_eq]
  cases cells[idx]? with
  | none => exact zero_le _
  | some info => exact Nat.le_refl _

lemma limitHeavy_spec (count total : Nat) (cells : List (CellInfo α)) (child : Nat × Nat) :
    Lighter cells (limitHeavy count (cells, (total : Int)) child).1 ∧
      wtAt (limitHeavy count (cells, (total : Int)) child).1 child.1 ≤ total / count ∧
      (limitHeavy count (cells, (total : Int)) child).2 = ((total + 1 : Nat) : Int) := by
  have limit : (((total : Int) / (count : Int))).toNat = total / count := by
    rw [← Int.natCast_ediv, Int.toNat_natCast]
  unfold limitHeavy
  simp only [limit]
  refine ⟨?_, ?_, by push_cast; rfl⟩
  · split <;> rename_i heavy
    · exact Lighter.setWt (Nat.le_of_lt heavy)
    · exact Lighter.refl cells
  · split <;> rename_i heavy
    · exact wtAt_setWt
    · exact Nat.not_lt.mp heavy

lemma foldl_limitHeavy (count total : Nat) (cells : List (CellInfo α)) (heavy : List (Nat × Nat)) :
    Lighter cells (heavy.foldl (limitHeavy count) (cells, (total : Int))).1 ∧ (heavy.map fun child =>
        wtAt (heavy.foldl (limitHeavy count) (cells, (total : Int))).1 child.1).sum ≤ Lib.shares count heavy.length total := by
  induction heavy generalizing cells total with
  | nil => exact ⟨Lighter.refl cells, Nat.le_refl _⟩
  | cons child rest ih =>
    obtain ⟨fewer, limited, next⟩ := limitHeavy_spec count total cells child
    obtain ⟨restFewer, restSum⟩ := ih (total + 1) (limitHeavy count (cells, (total : Int)) child).1
    rw [← next] at restFewer restSum
    have here := restFewer.wtAt_le child.1
    refine ⟨fewer.trans restFewer, ?_⟩
    simp only [foldl_cons, map_cons, sum_cons, length_cons, Lib.shares]
    exact Nat.add_le_add (Nat.le_trans here limited) restSum

lemma light_sum_le (cells : List (CellInfo α)) (count : Nat) (children : List Nat) (start : Nat) :
    (((children.zipIdx start).filter (isLight cells count)).map fun child => wtAt cells child.1).sum ≤
      Lib.shares count children.length (maxCellWhs - 1 + start) := by
  induction children generalizing start with
  | nil => exact Nat.le_refl _
  | cons child rest ih =>
    have later := ih (start + 1)
    rw [zipIdx_cons, filter_cons, length_cons, Lib.shares]
    have next : maxCellWhs - 1 + (start + 1) = maxCellWhs - 1 + start + 1 := rfl
    rw [next] at later
    split <;> rename_i light
    · have share : wtAt cells child ≤ (maxCellWhs - 1 + start) / count := by
        simpa [isLight] using light
      rw [map_cons, sum_cons]
      exact Nat.add_le_add share later
    · exact Nat.le_trans later (Nat.le_add_left _ _)

lemma limitChildren_spec (cells : List (CellInfo α)) (idx : Nat) : Lighter cells (limitChildren cells idx) ∧
      ∀ info, cells[idx]? = some info → (info.refIdx.map (wtAt (limitChildren cells idx))).sum ≤ maxCellWhs - 1 := by
  unfold limitChildren
  cases found : cells[idx]? with
  | none =>
    refine ⟨Lighter.refl cells, ?_⟩
    intro info impossible
    cases impossible
  | some dci =>
    simp only []
    generalize lightEq : dci.refIdx.zipIdx.filter (isLight cells dci.refIdx.length) = light
    generalize heavyEq : dci.refIdx.zipIdx.filter (fun child => !isLight cells dci.refIdx.length child) = heavy
    have lightSum : (light.map fun child => wtAt cells child.1).sum ≤ maxCellWhs - 1 := by
      cases empty : dci.refIdx.length with
      | zero =>
        have none : dci.refIdx = [] := length_eq_zero_iff.mp empty
        rw [← lightEq, none]
        exact zero_le _
      | succ count =>
        have bound := light_sum_le cells dci.refIdx.length dci.refIdx 0
        rw [lightEq, add_zero, Lib.shares_self (by omega)] at bound
        exact bound
    obtain ⟨left, total⟩ : ∃ left, (light.map fun child => wtAt cells child.1).sum + left =
        maxCellWhs - 1 := ⟨_, Nat.add_sub_cancel' lightSum⟩
    have leftEq : ((maxCellWhs - 1 : Nat) : Int) -
        (((light.map fun child => wtAt cells child.1).sum : Nat) : Int) = (left : Int) := by
      omega
    rw [leftEq]
    obtain ⟨fewer, heavySum⟩ := foldl_limitHeavy heavy.length left cells heavy
    refine ⟨fewer, ?_⟩
    intro info same
    cases same
    generalize (heavy.foldl (limitHeavy heavy.length) (cells, (left : Int))).1 = limited
      at fewer heavySum ⊢
    have heavyLeft : (heavy.map fun child => wtAt limited child.1).sum ≤ left := by
      cases empty : heavy with
      | nil => exact zero_le _
      | cons child rest =>
        rw [Lib.shares_self (by rw [empty]; exact succ_pos _), empty] at heavySum
        exact heavySum
    have lightLess : (light.map fun child => wtAt limited child.1).sum ≤
        (light.map fun child => wtAt cells child.1).sum := by
      have less := fewer.sum_le (light.map Prod.fst)
      rw [map_map, map_map] at less
      exact less
    have parts := Lib.sum_map_filter_add dci.refIdx.zipIdx (isLight cells dci.refIdx.length) fun child => wtAt limited child.1
    rw [lightEq, heavyEq] at parts
    have all : (dci.refIdx.map (wtAt limited)).sum =
        (dci.refIdx.zipIdx.map fun child => wtAt limited child.1).sum := by
      have fields : dci.refIdx.zipIdx.map (fun child => wtAt limited child.1) =
          (dci.refIdx.zipIdx.map Prod.fst).map (wtAt limited) := by
        rw [map_map]
        rfl
      rw [fields, zipIdx_map_fst]
    omega

lemma foldl_limitChildren (cells : List (CellInfo α)) (indices : List Nat) : Lighter cells (indices.foldl limitChildren cells) ∧
      ∀ idx ∈ indices, ∀ info, cells[idx]? = some info →
        (info.refIdx.map (wtAt (indices.foldl limitChildren cells))).sum ≤ maxCellWhs - 1 := by
  induction indices generalizing cells with
  | nil => exact ⟨Lighter.refl cells, by simp⟩
  | cons first rest ih =>
    obtain ⟨fewer, limited⟩ := limitChildren_spec cells first
    obtain ⟨restFewer, restLimited⟩ := ih (limitChildren cells first)
    refine ⟨fewer.trans restFewer, ?_⟩
    intro idx member info found
    rw [foldl_cons]
    rcases mem_cons.mp member with here | later
    · subst here
      exact Nat.le_trans (restFewer.sum_le info.refIdx) (limited info found)
    · obtain ⟨wt, _, between⟩ := fewer.entry idx info found
      exact restLimited idx later { info with wt := wt } between

def specialHashes (cells : List (CellInfo α)) : Nat :=
  (cells.map fun info => if info.wt = 0 then info.hcnt else 0).sum

lemma settleWeight_ok (found : cells[idx]? = some info) (limited : (info.refIdx.map (wtAt cells)).sum ≤ maxCellWhs - 1) :
    ∃ wt, wt ≤ info.wt ∧ settleWeight (cells, Lib.wrapInt (specialHashes (cells.take idx))) idx =
      .ok (setWt cells idx wt, Lib.wrapInt (specialHashes ((setWt cells idx wt).take (idx + 1)))) := by
  have hashes : ∀ wt, specialHashes ((setWt cells idx wt).take (idx + 1)) =
      specialHashes (cells.take idx) + if wt = 0 then info.hcnt else 0 := by
    intro wt
    have before : (setWt cells idx wt).take idx = cells.take idx := by
      apply ext_getElem?
      intro position
      by_cases inside : position < idx
      · rw [getElem?_take_of_lt inside, getElem?_take_of_lt inside]
        unfold setWt
        rw [getElem?_modify_ne _ _ (by omega)]
      · rw [getElem?_take_eq_none (by omega), getElem?_take_eq_none (by omega)]
    have here : (setWt cells idx wt)[idx]? = some { info with wt := wt } := by
      unfold setWt
      rw [getElem?_modify_eq, found]
      rfl
    rw [take_add_one, before, here]
    unfold specialHashes
    simp
  have small : 1 + (info.refIdx.map (wtAt cells)).sum ≤ maxCellWhs := by
    have limit : maxCellWhs = 64 := rfl
    omega
  unfold settleWeight
  simp only [found, check, small, decide_true, ↓reduceIte, Lib.ok_bind]
  split <;> rename_i fits
  · refine ⟨_, fits, ?_⟩
    rw [hashes, if_neg (by omega), add_zero]
  · refine ⟨0, zero_le _, ?_⟩
    rw [hashes, if_pos rfl, Lib.wrapInt_wrapInt_add, Nat.cast_add]

lemma settleWeights_ok (limited : ∀ (idx : Nat) (info : CellInfo α), cells[idx]? = some info →
      (info.refIdx.map (wtAt cells)).sum ≤ maxCellWhs - 1) {count : Nat} (few : count ≤ cells.length) :
    ∃ settled, Lighter cells settled ∧ (List.range count).foldlM settleWeight (cells, 0) =
        (.ok (settled, Lib.wrapInt (specialHashes (settled.take count))) : Except BocError _) := by
  induction count with
  | zero => exact ⟨cells, Lighter.refl cells, by simp [specialHashes, Lib.wrapInt]⟩
  | succ count ih =>
    obtain ⟨settled, fewer, run⟩ := ih (by omega)
    obtain ⟨info, found⟩ : ∃ info, cells[count]? = some info := ⟨_, getElem?_eq_getElem few⟩
    obtain ⟨before, _, between⟩ := fewer.entry count info found
    have stillLimited := Nat.le_trans (fewer.sum_le info.refIdx) (limited count info found)
    obtain ⟨wt, below, step⟩ := settleWeight_ok between stillLimited
    have low : wt ≤ wtAt settled count := by
      unfold wtAt
      rw [between]
      exact below
    refine ⟨setWt settled count wt, fewer.trans (Lighter.setWt low), ?_⟩
    rw [range_succ, foldlM_append, run, Lib.ok_bind, foldlM_cons, step]
    rfl

lemma computeWeights_ok (cells : List (CellInfo α)) : ∃ weighed, Lighter cells weighed ∧
      computeWeights cells = .ok (weighed, Lib.wrapInt (specialHashes weighed)) := by
  obtain ⟨fewer, limited⟩ := foldl_limitChildren cells (List.range cells.length).reverse
  generalize limitedEq : (List.range cells.length).reverse.foldl limitChildren cells = start at fewer limited
  have all : ∀ (idx : Nat) (info : CellInfo α), start[idx]? = some info →
      (info.refIdx.map (wtAt start)).sum ≤ maxCellWhs - 1 := by
    intro idx info found
    have inside := lt_of_getElem? found
    rw [fewer.length] at inside
    obtain ⟨wt, _, between⟩ := fewer.entry idx _ (getElem?_eq_getElem inside)
    have bound := limited idx (by simp [inside]) _ (getElem?_eq_getElem inside)
    rw [found] at between
    cases between
    exact bound
  obtain ⟨settled, settledFewer, run⟩ := settleWeights_ok all (Nat.le_refl _)
  refine ⟨settled, fewer.trans settledFewer, ?_⟩
  unfold computeWeights
  rw [limitedEq]
  rw [← settledFewer.length, take_length, settledFewer.length, fewer.length] at run
  exact run

/-- The cells below the roots before reordering: each is a root or referred to, and those met
again are marked. -/
structure Imported (sha : Sha256) (cellOf : α → DataCell) (cells : List (CellInfo α))
    (roots : List Nat) : Prop where
  fresh : ∀ info ∈ cells, info.newIdx = -1
  inner : ∀ info ∈ cells, info.isRootCell = false
  created : ∀ info ∈ cells, (cellOf info.dcRef).Created sha
  refs : ∀ (idx : Nat) (info : CellInfo α), cells[idx]? = some info →
    info.refIdx.map (fun ref => cells[ref]?.map fun child => cellOf child.dcRef) = (cellOf info.dcRef).refs.map some
  roots_lt : ∀ root ∈ roots, root < cells.length
  met : ∀ idx < cells.length, 1 ≤ (roots ++ cells.flatMap CellInfo.refIdx).count idx
  cache : ∀ (idx : Nat) (info : CellInfo α), cells[idx]? = some info →
    info.shouldCache = decide (2 ≤ (roots ++ cells.flatMap CellInfo.refIdx).count idx)

namespace Imported

variable {sha : Sha256} {cellOf : α → DataCell} {weighed : List (CellInfo α)}
  {roots : List Nat}

lemma reweighed (imported : Imported sha cellOf cells roots) (same : Reweighed cells weighed) :
    Imported sha cellOf weighed roots := by
  have sameRefs : weighed.flatMap CellInfo.refIdx = cells.flatMap CellInfo.refIdx := by
    rw [flatMap_def, flatMap_def, same.map_eq fun _ _ => rfl]
  have sameCell : ∀ idx : Nat, (weighed[idx]?.map fun child => cellOf child.dcRef) =
      cells[idx]?.map fun child => cellOf child.dcRef := by
    intro idx
    rw [← getElem?_map, ← getElem?_map, same.map_eq fun _ _ => rfl]
  have everyCell : ∀ {holds : CellInfo α → Prop},
      (∀ before wt, holds before → holds { before with wt := wt }) →
      (∀ info ∈ cells, holds info) → ∀ info ∈ weighed, holds info := by
    intro holds kept every info isMember
    obtain ⟨idx, found⟩ := mem_iff_getElem?.mp isMember
    obtain ⟨before, wt, original, rfl⟩ := same.source found
    exact kept before wt (every before (mem_of_getElem? original))
  constructor
  · exact everyCell (fun _ _ before => before) imported.fresh
  · exact everyCell (fun _ _ before => before) imported.inner
  · exact everyCell (fun _ _ before => before) imported.created
  · intro idx info found
    obtain ⟨before, wt, original, rfl⟩ := same.source found
    simp only [sameCell]
    exact imported.refs idx before original
  · rw [same.length]
    exact imported.roots_lt
  · rw [same.length, sameRefs]
    exact imported.met
  · intro idx info found
    obtain ⟨before, wt, original, rfl⟩ := same.source found
    rw [sameRefs]
    exact imported.cache idx before original

lemma ref_cell (imported : Imported sha cellOf cells roots)
    (found : cells[idx]? = some info) {ref : Nat} (isRef : ref ∈ info.refIdx) :
    ∃ child, cells[ref]? = some child ∧ cellOf child.dcRef ∈ (cellOf info.dcRef).refs := by
  have member : (cells[ref]?.map fun child => cellOf child.dcRef) ∈
      (cellOf info.dcRef).refs.map some := by
    rw [← imported.refs idx info found]
    exact mem_map.mpr ⟨ref, isRef, rfl⟩
  obtain ⟨childCell, childMember, same⟩ := mem_map.mp member
  obtain ⟨child, childFound, rfl⟩ := Option.map_eq_some_iff.mp same.symm
  exact ⟨child, childFound, childMember⟩

def rank (cellOf : α → DataCell) (cells : List (CellInfo α)) (idx : Nat) : Nat :=
  (cells[idx]?.map fun info => (cellOf info.dcRef).getDepth Cell.maxLevel).getD 0

lemma rank_eq (found : cells[idx]? = some info) : rank cellOf cells idx = (cellOf info.dcRef).getDepth Cell.maxLevel := by
  unfold rank
  rw [found]
  rfl

section

variable (imported : Imported sha cellOf cells roots)
include imported

lemma ranked : Ranked cells (rank cellOf cells) where
  fresh := imported.fresh
  inside := by
    intro idx info found ref isRef
    obtain ⟨child, childFound, _⟩ := imported.ref_cell found isRef
    have inside := lt_of_getElem? childFound
    exact inside
  lower := by
    intro idx info found ref isRef
    obtain ⟨child, childFound, childMember⟩ := imported.ref_cell found isRef
    rw [rank_eq found, rank_eq childFound]
    exact (imported.created info (mem_of_getElem? found)).getDepth_lt childMember

lemma rank_le : ∀ idx < cells.length, rank cellOf cells idx ≤ Cell.maxDepth := by
  intro idx inside
  rw [rank_eq (getElem?_eq_getElem inside)]
  exact (imported.created _ (getElem_mem inside)).wellFormed.depth_le _

lemma covered : ∀ idx < cells.length, idx ∈ roots ∨
      ∃ (parent : Nat) (info : CellInfo α), cells[parent]? = some info ∧ idx ∈ info.refIdx := by
  intro idx inside
  have member : idx ∈ roots ++ cells.flatMap CellInfo.refIdx := count_pos_iff.mp (imported.met idx inside)
  rcases mem_append.mp member with root | inner
  · exact Or.inl root
  · obtain ⟨info, infoMember, isRef⟩ := mem_flatMap.mp inner
    obtain ⟨parent, found⟩ := mem_iff_getElem?.mp infoMember
    exact Or.inr ⟨parent, info, found, isRef⟩

end

end Imported

namespace Reordering

variable {result : List (CellInfo α)} {order : List Nat}
variable {sha : Sha256} {cellOf : α → DataCell} {roots : List Nat}

lemma range_map_getD {β : Type} (cells : List (CellInfo α)) (read : CellInfo α → β) (absent : β) :
    (List.range cells.length).map (fun idx => (cells[idx]?.map read).getD absent) = cells.map read := by
  apply ext_getElem?
  intro idx
  rw [getElem?_map, getElem?_map]
  by_cases inside : idx < cells.length
  · rw [getElem?_range inside, getElem?_eq_getElem inside]
    simp [inside]
  · rw [getElem?_eq_none_iff.mpr (by simpa using inside), getElem?_eq_none_iff.mpr (by simpa using inside)]
    rfl

section

variable (reordering : Reordering cells order result)
include reordering

lemma mem_order (inside : idx < cells.length) : idx ∈ order :=
  reordering.perm.mem_iff.mpr (mem_range.mpr inside)

lemma result_at (found : cells[idx]? = some info) :
    result[order.idxOf idx]? = some (renumbered order info (order.idxOf idx)) := by
  have inside := lt_of_getElem? found
  exact reordering.entry _ idx info (getElem?_idxOf (reordering.mem_order inside)) found

lemma source {new : Nat} {entry : CellInfo α} (found : result[new]? = some entry) :
    ∃ old info, order[new]? = some old ∧ cells[old]? = some info ∧ order.idxOf old = new ∧ entry = renumbered order info new := by
  have inside := lt_of_getElem? found
  rw [reordering.length] at inside
  have place : order[new]? = some order[new] := getElem?_eq_getElem inside
  have oldInside : order[new] < cells.length := mem_range.mp (reordering.perm.mem_iff.mp (getElem_mem inside))
  have nodup : order.Nodup := reordering.perm.nodup_iff.mpr nodup_range
  have entryEq := reordering.entry new _ _ place (getElem?_eq_getElem oldInside)
  rw [found] at entryEq
  exact ⟨_, _, place, getElem?_eq_getElem oldInside, nodup.idxOf_getElem _ _, Option.some.inj entryEq⟩

lemma map_perm {β : Type} (absent : β) {after before : CellInfo α → β}
    (same : ∀ (info : CellInfo α) (new : Nat), after (renumbered order info new) = before info) :
    (result.map after).Perm (cells.map before) := by
  have reordered : result.map after =
      order.map fun old => (cells[old]?.map before).getD absent := by
    apply ext_getElem?
    intro new
    rw [getElem?_map, getElem?_map]
    cases found : result[new]? with
    | none =>
      have outside : result.length ≤ new := getElem?_eq_none_iff.mp found
      rw [reordering.length] at outside
      rw [getElem?_eq_none_iff.mpr outside]
      rfl
    | some entry =>
      obtain ⟨old, info, place, original, _, rfl⟩ := reordering.source found
      rw [place, Option.map_some, Option.map_some, original, same]
      rfl
  rw [reordered, ← range_map_getD cells before absent]
  exact reordering.perm.map _

lemma sum_eq {after before : CellInfo α → Nat}
    (same : ∀ (info : CellInfo α) (new : Nat), after (renumbered order info new) = before info) :
    (result.map after).sum = (cells.map before).sum :=
  (reordering.map_perm 0 same).sum_nat

lemma refs_perm : (result.flatMap CellInfo.refIdx).Perm ((cells.flatMap CellInfo.refIdx).map order.idxOf) := by
  have lists := @map_perm _ _ _ _ reordering _ [] CellInfo.refIdx (fun info => info.refIdx.map order.idxOf) fun _ _ => rfl
  rw [flatMap_def, map_flatMap, flatMap_def]
  exact lists.flatten

lemma cell_at (inside : idx < cells.length) :
    (result[order.idxOf idx]?.map fun entry => cellOf entry.dcRef) = cells[idx]?.map fun info => cellOf info.dcRef := by
  have found : cells[idx]? = some cells[idx] := getElem?_eq_getElem inside
  rw [reordering.result_at found, found]
  rfl

lemma count_eq (roots : List Nat) (inside : idx < cells.length) :
    (roots.map order.idxOf ++ result.flatMap CellInfo.refIdx).count (order.idxOf idx) =
      (roots ++ cells.flatMap CellInfo.refIdx).count idx := by
  have member := reordering.mem_order inside
  have same : ∀ refs : List Nat, (refs.map order.idxOf).count (order.idxOf idx) = refs.count idx := by
    intro refs
    unfold List.count
    rw [countP_map]
    apply countP_congr
    intro ref _
    simp only [Function.comp_apply, beq_iff_eq]
    rw [eq_comm, idxOf_inj member, eq_comm]
  rw [count_append, count_append, same, reordering.refs_perm.count_eq, same]

lemma layout (imported : Imported sha cellOf cells roots) : Layout sha cellOf result (roots.map order.idxOf) where
  created := by
    intro entry member
    obtain ⟨new, found⟩ := mem_iff_getElem?.mp member
    obtain ⟨old, info, _, original, _, rfl⟩ := reordering.source found
    exact imported.created info (mem_of_getElem? original)
  refs := by
    intro new entry found
    obtain ⟨old, info, _, original, _, rfl⟩ := reordering.source found
    refine Eq.trans ?_ (imported.refs old info original)
    unfold renumbered
    rw [map_map]
    apply map_congr_left
    intro ref isRef
    exact reordering.cell_at (imported.ranked.inside old info original ref isRef)
  earlier := by
    intro new entry found ref isRef
    obtain ⟨old, info, place, original, _, rfl⟩ := reordering.source found
    obtain ⟨oldRef, oldMember, rfl⟩ := mem_map.mp isRef
    exact reordering.earlier new old info place original oldRef oldMember
  roots_lt := by
    intro root member
    obtain ⟨oldRoot, oldMember, rfl⟩ := mem_map.mp member
    have place := reordering.mem_order (imported.roots_lt oldRoot oldMember)
    rw [reordering.length]
    exact idxOf_lt_length_of_mem place
  cache := by
    intro new entry found
    obtain ⟨old, info, place, original, rfl, rfl⟩ := reordering.source found
    have inside := lt_of_getElem? original
    rw [reordering.count_eq roots inside]
    exact imported.cache old info original

end

end Reordering

lemma Imported.reordered {sha : Sha256} {cellOf : α → DataCell} {cells : List (CellInfo α)}
    {roots : List Nat} (imported : Imported sha cellOf cells roots) : ∃ weighed state order, Lighter cells weighed ∧
      computeWeights cells = .ok (weighed, Lib.wrapInt (specialHashes weighed)) ∧
      revisitRoots weighed roots = .ok state ∧ Reordering weighed order state.tmp ∧ Numbered weighed order state.cells ∧
      roots.map (newIdxAt state.cells) = roots.map order.idxOf := by
  obtain ⟨weighed, fewer, weights⟩ := computeWeights_ok cells
  have heavy := imported.reweighed fewer.reweighed
  obtain ⟨state, order, revisited, reordering, numbered⟩ :=
    revisitRoots_ok heavy.ranked heavy.rank_le heavy.roots_lt heavy.covered
  refine ⟨weighed, state, order, fewer, weights, revisited, reordering, numbered, ?_⟩
  apply map_congr_left
  intro root member
  exact numbered.newIdxAt_eq (heavy.roots_lt root member)

end TonNode.Vm.Boc
