import TonNode.Vm.BocImport
import TonNode.Vm.LargeBoc

/-!
# The breadth-first search of the large serializer

The search is followed by a table that has one slot for each number given out, in the order of
numbers. A slot is done, waits in the current depth, or belongs to the next one.
-/

namespace TonNode.Vm.LargeBocSerializer

open Boc List Nat

inductive SlotStatus where
  | next
  | waiting
  | done (refIdx : List Nat)

structure Slot where
  cell : DataCell
  status : SlotStatus
  shouldCache : Bool

namespace Slot

def mark (slot : Slot) : Slot := { slot with shouldCache := true }

def finish (refIdx : List Nat) (slot : Slot) : Slot := { slot with status := .done refIdx }

def info (slot : Slot) (idx : Nat) (refIdx : List Nat) : CellInfo LargeCell :=
  { dcRef := { hash := slot.cell.reprHash, serializedSize := slot.cell.getSerializedSize false }
    refIdx
    wt := 0
    hcnt := LevelMask.getHashesCount slot.cell.getLevelMask
    newIdx := idx
    shouldCache := slot.shouldCache
    isRootCell := false }

def entry (slot : Slot) (idx : Nat) : DepthHash :=
  { hash := slot.cell.reprHash, idx, shouldCache := slot.shouldCache }

def doneRefs (slot : Slot) : List Nat :=
  match slot.status with
  | .done refIdx => refIdx
  | _ => []

end Slot

def cellAt (slots : List Slot) (idx : Nat) : Option DataCell := slots[idx]?.map Slot.cell

structure Table (sha : Sha256) (root : DataCell) (depth : Nat) (slots : List Slot)
    (visits : List Nat) : Prop where
  created : ∀ slot ∈ slots, slot.cell.Created sha
  within : ∀ slot ∈ slots, DataCell.Within [root] slot.cell
  apart : ∀ (first second : Nat) (cell : DataCell), cellAt slots first = some cell →
    cellAt slots second = some cell → first = second
  refs : ∀ slot ∈ slots, ∀ refIdx, slot.status = .done refIdx → refIdx.map (cellAt slots) = slot.cell.refs.map some
  visits_lt : ∀ idx ∈ visits, idx < slots.length
  met : ∀ idx < slots.length, 1 ≤ visits.count idx
  cache : ∀ (idx : Nat) (slot : Slot), slots[idx]? = some slot → slot.shouldCache = decide (2 ≤ visits.count idx)
  waiting : ∀ slot ∈ slots, slot.status = .waiting → depth + slot.cell.getDepth Cell.maxLevel ≤ Cell.maxDepth
  next : ∀ slot ∈ slots, slot.status = .next → depth + 1 + slot.cell.getDepth Cell.maxLevel ≤ Cell.maxDepth

/-- A visit to a cell: to its slot, or to a new one at the end. -/
inductive Visit (slots : List Slot) (cell : DataCell) : Nat → List Slot → Prop where
  | again (idx : Nat) (found : cellAt slots idx = some cell) :
      Visit slots cell idx (slots.modify idx Slot.mark)
  | first (absent : ∀ idx, cellAt slots idx ≠ some cell) :
      Visit slots cell slots.length (slots ++ [{ cell, status := .next, shouldCache := false }])

def Keeps (slots next : List Slot) : Prop :=
  ∀ (idx : Nat) (cell : DataCell), cellAt slots idx = some cell → cellAt next idx = some cell

variable {slots next : List Slot} {idx : Nat} {cell : DataCell} {changed : Nat} {change : Slot → Slot} {slot : Slot}
variable {entries : List DepthHash} {hash : CellHash}

lemma Keeps.map_cellAt (keeps : Keeps slots next) {indices : List Nat} {cells : List DataCell}
    (found : indices.map (cellAt slots) = cells.map some) : indices.map (cellAt next) = cells.map some := by
  induction indices generalizing cells with
  | nil => exact found
  | cons idx rest ih =>
    cases cells with
    | nil => cases found
    | cons cell others =>
      simp only [map_cons, List.cons.injEq] at found ⊢
      exact ⟨keeps idx cell found.1, ih found.2⟩

lemma cellAt_modify (slots : List Slot) (change : Slot → Slot)
    (same : ∀ slot, (change slot).cell = slot.cell) (changed idx : Nat) :
    cellAt (slots.modify changed change) idx = cellAt slots idx := by
  unfold cellAt
  rw [getElem?_modify]
  cases slots[idx]? with
  | none => rfl
  | some slot =>
    by_cases here : changed = idx
    · simp [here, same]
    · simp [here]

lemma cellAt_mark (slots : List Slot) (changed idx : Nat) : cellAt (slots.modify changed Slot.mark) idx = cellAt slots idx :=
  cellAt_modify slots Slot.mark (fun _ => rfl) changed idx

lemma cellAt_finish (slots : List Slot) (changed idx : Nat) (refIdx : List Nat) :
    cellAt (slots.modify changed (Slot.finish refIdx)) idx = cellAt slots idx :=
  cellAt_modify slots (Slot.finish refIdx) (fun _ => rfl) changed idx

lemma cellAt_append (slot : Slot) (found : cellAt (slots ++ [slot]) idx = some cell) :
    cellAt slots idx = some cell ∨ idx = slots.length ∧ slot.cell = cell := by
  unfold cellAt at found ⊢
  rcases lt_or_ge idx slots.length with inside | outside
  · rw [getElem?_append_left inside] at found
    exact Or.inl found
  · rw [getElem?_append_right outside] at found
    obtain ⟨last, located, rfl⟩ := Option.map_eq_some_iff.mp found
    obtain ⟨small, same⟩ := List.getElem?_eq_some_iff.mp located
    rw [List.length_singleton] at small
    refine Or.inr ⟨by omega, ?_⟩
    simp only [getElem_singleton] at same
    rw [same]

lemma Visit.keeps (visit : Visit slots cell idx next) : Keeps slots next := by
  intro other otherCell found
  cases visit with
  | again idx here =>
    rw [cellAt_mark]
    exact found
  | first absent =>
    obtain ⟨slot, located, same⟩ := Option.map_eq_some_iff.mp found
    have inside := lt_of_getElem? located
    unfold cellAt
    rw [getElem?_append_left inside, located, Option.map_some, same]

lemma Visit.cellAt_eq (visit : Visit slots cell idx next) : cellAt next idx = some cell := by
  cases visit with
  | again idx here =>
    rw [cellAt_mark]
    exact here
  | first absent => simp [cellAt]

lemma mem_modify (member : slot ∈ slots.modify changed change) :
    slot ∈ slots ∨ ∃ before, slots[changed]? = some before ∧ slot = change before := by
  obtain ⟨idx, found⟩ := mem_iff_getElem?.mp member
  rw [getElem?_modify] at found
  obtain ⟨before, located, same⟩ := Option.map_eq_some_iff.mp found
  by_cases here : changed = idx
  · subst here
    simp only [↓reduceIte] at same
    exact Or.inr ⟨before, located, same.symm⟩
  · simp only [here, ↓reduceIte] at same
    rw [← same]
    exact Or.inl (mem_of_getElem? located)

lemma getElem?_modify_some (found : (slots.modify changed change)[idx]? = some slot) :
    ∃ before, slots[idx]? = some before ∧ slot = if changed = idx then change before else before := by
  rw [getElem?_modify] at found
  obtain ⟨before, located, rfl⟩ := Option.map_eq_some_iff.mp found
  exact ⟨before, located, by split <;> rfl⟩

section Tables

variable {sha : Sha256} {root : DataCell} {depth : Nat} {visits : List Nat}

section

variable (table : Table sha root depth slots visits)
include table

lemma Table.mark (inside : idx < slots.length) : Table sha root depth (slots.modify idx Slot.mark) (idx :: visits) := by
  have member : ∀ slot ∈ slots.modify idx Slot.mark, ∃ before ∈ slots,
      slot.cell = before.cell ∧ slot.status = before.status := by
    intro slot isMember
    rcases mem_modify isMember with old | ⟨before, located, rfl⟩
    · exact ⟨slot, old, rfl, rfl⟩
    · exact ⟨before, mem_of_getElem? located, rfl, rfl⟩
  have length : (slots.modify idx Slot.mark).length = slots.length := length_modify ..
  constructor
  · intro slot isMember
    obtain ⟨before, beforeMember, cell, _⟩ := member slot isMember
    rw [cell]
    exact table.created before beforeMember
  · intro slot isMember
    obtain ⟨before, beforeMember, cell, _⟩ := member slot isMember
    rw [cell]
    exact table.within before beforeMember
  · simp only [cellAt_mark]
    exact table.apart
  · intro slot isMember refIdx done
    obtain ⟨before, beforeMember, cell, status⟩ := member slot isMember
    rw [status] at done
    rw [cell, ← table.refs before beforeMember refIdx done]
    apply map_congr_left
    intro ref _
    exact cellAt_mark slots idx ref
  · rw [length]
    exact forall_mem_cons.mpr ⟨inside, table.visits_lt⟩
  · intro other otherInside
    rw [length] at otherInside
    have once := table.met other otherInside
    rw [count_cons]
    omega
  · intro other slot found
    obtain ⟨before, located, rfl⟩ := getElem?_modify_some found
    have otherInside := lt_of_getElem? located
    have once := table.met other otherInside
    have flag := table.cache other before located
    rw [count_cons]
    by_cases same : idx = other
    · subst same
      have twice : 2 ≤ visits.count idx + 1 := by omega
      simp only [↓reduceIte, beq_self_eq_true]
      exact (decide_eq_true twice).symm
    · simp only [same, ↓reduceIte, beq_iff_eq, add_zero]
      exact flag
  · intro slot isMember waits
    obtain ⟨before, beforeMember, cell, status⟩ := member slot isMember
    rw [cell]
    exact table.waiting before beforeMember (status ▸ waits)
  · intro slot isMember isNext
    obtain ⟨before, beforeMember, cell, status⟩ := member slot isMember
    rw [cell]
    exact table.next before beforeMember (status ▸ isNext)

lemma Table.add (created : cell.Created sha)
    (within : DataCell.Within [root] cell)
    (shallow : depth + 1 + cell.getDepth Cell.maxLevel ≤ Cell.maxDepth)
    (absent : ∀ idx, cellAt slots idx ≠ some cell) :
    Table sha root depth (slots ++ [{ cell, status := .next, shouldCache := false }])
      (slots.length :: visits) := by
  have unseen : visits.count slots.length = 0 := by
    apply count_eq_zero.mpr
    intro member
    exact lt_irrefl _ (table.visits_lt _ member)
  have length : (slots ++ [({ cell, status := .next, shouldCache := false } : Slot)]).length = slots.length + 1 := length_append
  constructor
  · exact forall_mem_append.mpr ⟨table.created, forall_mem_singleton.mpr created⟩
  · exact forall_mem_append.mpr ⟨table.within, forall_mem_singleton.mpr within⟩
  · intro first second other firstFound secondFound
    rcases cellAt_append _ firstFound with firstOld | ⟨firstNew, rfl⟩
    · rcases cellAt_append _ secondFound with secondOld | ⟨_, rfl⟩
      · exact table.apart first second other firstOld secondOld
      · exact absurd firstOld (absent first)
    · rcases cellAt_append _ secondFound with secondOld | ⟨secondNew, _⟩
      · exact absurd secondOld (absent second)
      · rw [firstNew, secondNew]
  · refine forall_mem_append.mpr ⟨?_, forall_mem_singleton.mpr nofun⟩
    intro slot old refIdx done
    exact (Visit.first absent).keeps.map_cellAt (table.refs slot old refIdx done)
  · intro other isMember
    rw [length]
    rcases mem_cons.mp isMember with here | there
    · omega
    · have below := table.visits_lt other there
      omega
  · intro other inside
    rw [length] at inside
    rw [count_cons]
    by_cases isNew : slots.length = other
    · simp [isNew]
    · exact le_add_right_of_le (table.met other (by omega))
  · intro other slot found
    rw [count_cons]
    rcases lt_or_ge other slots.length with inside | outside
    · rw [getElem?_append_left inside] at found
      have different : ¬ slots.length = other := by omega
      simp only [beq_iff_eq, different, ↓reduceIte, add_zero]
      exact table.cache other slot found
    · have small := lt_of_getElem? found
      rw [length] at small
      have isNew : slots.length = other := by omega
      subst isNew
      rw [getElem?_concat_length] at found
      cases found
      simp [unseen]
  · exact forall_mem_append.mpr ⟨table.waiting, forall_mem_singleton.mpr nofun⟩
  · exact forall_mem_append.mpr ⟨table.next, forall_mem_singleton.mpr fun _ => shallow⟩

lemma Table.visit {next : List Slot} (visit : Visit slots cell idx next)
    (created : cell.Created sha) (within : DataCell.Within [root] cell)
    (shallow : depth + 1 + cell.getDepth Cell.maxLevel ≤ Cell.maxDepth) : Table sha root depth next (idx :: visits) := by
  cases visit with
  | again idx found =>
    obtain ⟨_, located, _⟩ := Option.map_eq_some_iff.mp found
    have inside := lt_of_getElem? located
    exact table.mark inside
  | first absent => exact table.add created within shallow absent

lemma Table.finish (found : slots[idx]? = some slot) {refIdx : List Nat}
    (refs : refIdx.map (cellAt slots) = slot.cell.refs.map some) :
    Table sha root depth (slots.modify idx (Slot.finish refIdx)) visits := by
  have member : ∀ other ∈ slots.modify idx (Slot.finish refIdx),
      other ∈ slots ∨ other = slot.finish refIdx := by
    intro other isMember
    rcases mem_modify isMember with old | ⟨before, located, rfl⟩
    · exact Or.inl old
    · rw [found] at located
      cases located
      exact Or.inr rfl
  have slotMember := mem_of_getElem? found
  have length : (slots.modify idx (Slot.finish refIdx)).length = slots.length := length_modify ..
  have sameCells : cellAt (slots.modify idx (Slot.finish refIdx)) = cellAt slots := by
    funext other
    exact cellAt_finish slots idx other refIdx
  constructor
  · intro other isMember
    rcases member other isMember with old | rfl
    · exact table.created other old
    · exact table.created slot slotMember
  · intro other isMember
    rcases member other isMember with old | rfl
    · exact table.within other old
    · exact table.within slot slotMember
  · rw [sameCells]
    exact table.apart
  · intro other isMember otherRefs done
    rw [sameCells]
    rcases member other isMember with old | rfl
    · exact table.refs other old otherRefs done
    · cases done
      exact refs
  · rw [length]
    exact table.visits_lt
  · rw [length]
    exact table.met
  · intro other otherSlot located
    obtain ⟨before, beforeFound, rfl⟩ := getElem?_modify_some located
    have flag := table.cache other before beforeFound
    split <;> exact flag
  · intro other isMember waits
    rcases member other isMember with old | rfl
    · exact table.waiting other old waits
    · cases waits
  · intro other isMember isNext
    rcases member other isMember with old | rfl
    · exact table.next other old isNext
    · cases isNext

end

end Tables

lemma depthFind_some (found : DepthHash.find entries hash = some idx) :
    ∃ entry ∈ entries, entry.hash = hash ∧ entry.idx = idx := by
  obtain ⟨entry, located, same⟩ := Option.map_eq_some_iff.mp found
  exact ⟨entry, mem_of_find?_eq_some located, by simpa using find?_some located, same⟩

lemma depthFind_none (missing : DepthHash.find entries hash = none) : ∀ entry ∈ entries, entry.hash ≠ hash := by
  intro entry member same
  have absent := find?_eq_none.mp (Option.map_eq_none_iff.mp missing) entry member
  exact absent (by simpa using same)

lemma emplace_perm (entry : DepthHash) (entries : List DepthHash) :
    (DepthHash.emplace entry entries).Perm (entry :: entries) := by
  induction entries with
  | nil => exact List.Perm.refl _
  | cons first rest ih =>
    rw [DepthHash.emplace]
    split
    · exact List.Perm.refl _
    · exact (ih.cons first).trans (List.Perm.swap entry first rest)

lemma depthMarkCached_map_idx (hash : CellHash) (entries : List DepthHash) :
    (DepthHash.markCached hash entries).map DepthHash.idx = entries.map DepthHash.idx := by
  unfold DepthHash.markCached
  rw [map_map]
  apply map_congr_left
  intro entry _
  simp only [Function.comp_apply]
  split <;> rfl

/-- The entries are those of the slots with this status. -/
def Lists (entries : List DepthHash) (slots : List Slot) (status : SlotStatus) : Prop :=
  ∀ entry : DepthHash, entry ∈ entries ↔
    ∃ slot, slots[entry.idx]? = some slot ∧ slot.status = status ∧ entry = slot.entry entry.idx

section ListedEntries

variable {status : SlotStatus}

/-- A slot with another status may change as long as it does not get this one. -/
lemma Lists.modify_other (lists : Lists entries slots status)
    (found : slots[idx]? = some slot) (before : slot.status ≠ status) (after : (change slot).status ≠ status) :
    Lists entries (slots.modify idx change) status := by
  intro entry
  rw [lists entry]
  by_cases same : idx = entry.idx
  · subst same
    constructor
    · intro ⟨other, located, isStatus, _⟩
      rw [found] at located
      cases located
      exact absurd isStatus before
    · intro ⟨other, located, isStatus, _⟩
      obtain ⟨old, oldFound, rfl⟩ := getElem?_modify_some located
      rw [found] at oldFound
      cases oldFound
      rw [if_pos rfl] at isStatus
      exact absurd isStatus after
  · rw [getElem?_modify_ne _ _ same]

lemma Lists.mark (lists : Lists entries slots status) (found : slots[idx]? = some slot) (isStatus : slot.status = status)
    (only : ∀ (other : Nat) (otherSlot : Slot), slots[other]? = some otherSlot →
      otherSlot.cell.reprHash = slot.cell.reprHash → other = idx) :
    Lists (DepthHash.markCached slot.cell.reprHash entries) (slots.modify idx Slot.mark) status := by
  intro entry
  unfold DepthHash.markCached
  rw [mem_map]
  constructor
  · intro ⟨before, member, same⟩
    obtain ⟨beforeSlot, beforeFound, beforeStatus, entryEq⟩ := (lists before).mp member
    by_cases hash : before.hash = slot.cell.reprHash
    · have here : before.idx = idx := only before.idx beforeSlot beforeFound (by
        rw [entryEq] at hash
        exact hash)
      rw [if_pos hash] at same
      subst same
      rw [here] at beforeFound entryEq
      rw [found] at beforeFound
      cases beforeFound
      refine ⟨slot.mark, ?_, isStatus, ?_⟩
      · simp only [here]
        rw [getElem?_modify_eq, found]
        rfl
      · rw [entryEq]
        rfl
    · rw [if_neg hash] at same
      subst same
      have elsewhere : idx ≠ before.idx := by
        intro here
        rw [← here, found] at beforeFound
        cases beforeFound
        rw [entryEq] at hash
        exact hash rfl
      refine ⟨beforeSlot, ?_, beforeStatus, entryEq⟩
      rw [getElem?_modify_ne _ _ elsewhere]
      exact beforeFound
  · intro ⟨after, located, afterStatus, entryEq⟩
    obtain ⟨before, beforeFound, rfl⟩ := getElem?_modify_some located
    by_cases here : idx = entry.idx
    · rw [if_pos here] at entryEq afterStatus
      rw [← here, found] at beforeFound
      cases beforeFound
      refine ⟨slot.entry idx, (lists _).mpr ⟨slot, found, isStatus, rfl⟩, ?_⟩
      have same : (slot.entry idx).hash = slot.cell.reprHash := rfl
      rw [if_pos same, entryEq, ← here]
      rfl
    · rw [if_neg here] at entryEq afterStatus
      have member : entry ∈ entries := (lists entry).mpr ⟨before, beforeFound, afterStatus, entryEq⟩
      have different : entry.hash ≠ slot.cell.reprHash := by
        intro same
        have there := only entry.idx before beforeFound (by rw [entryEq] at same; exact same)
        exact here there.symm
      exact ⟨entry, member, if_neg different⟩

lemma Lists.append_other (lists : Lists entries slots status) (different : slot.status ≠ status) :
    Lists entries (slots ++ [slot]) status := by
  intro entry
  rw [lists entry]
  constructor
  · intro ⟨other, located, rest⟩
    have inside := lt_of_getElem? located
    exact ⟨other, by rw [getElem?_append_left inside]; exact located, rest⟩
  · intro ⟨other, located, isStatus, rest⟩
    rcases lt_or_ge entry.idx slots.length with inside | outside
    · rw [getElem?_append_left inside] at located
      exact ⟨other, located, isStatus, rest⟩
    · rw [getElem?_append_right outside] at located
      have same := mem_singleton.mp (mem_of_getElem? located)
      rw [same] at isStatus
      exact absurd isStatus different

lemma Lists.emplace (lists : Lists entries slots .next) :
    Lists (DepthHash.emplace
        { hash := cell.reprHash, idx := slots.length, shouldCache := false } entries)
      (slots ++ [{ cell, status := .next, shouldCache := false }]) .next := by
  intro entry
  rw [(emplace_perm _ entries).mem_iff, mem_cons, lists entry]
  constructor
  · rintro (isNew | ⟨other, located, rest⟩)
    · subst isNew
      exact ⟨_, getElem?_concat_length, rfl, rfl⟩
    · have inside := lt_of_getElem? located
      exact ⟨other, by rw [getElem?_append_left inside]; exact located, rest⟩
  · intro ⟨other, located, isStatus, entryEq⟩
    rcases lt_or_ge entry.idx slots.length with inside | outside
    · rw [getElem?_append_left inside] at located
      exact Or.inr ⟨other, located, isStatus, entryEq⟩
    · have small := lt_of_getElem? located
      rw [length_append, length_singleton] at small
      have last : entry.idx = slots.length := by omega
      rw [last, getElem?_concat_length] at located
      cases located
      rw [last] at entryEq
      exact Or.inl entryEq

end ListedEntries

end TonNode.Vm.LargeBocSerializer
