import TonNode.Vm.LargeBocSearch

/-!
# The large serializer fills the table of its search
-/

namespace TonNode.Vm.LargeBocSerializer

open Boc List Slot

def Slot.doneSize (slot : Slot) : Nat :=
  match slot.status with
  | .done _ => slot.cell.getSerializedSize false
  | _ => 0

/-- The state of the search when the entries before `position` are done, as a table. -/
structure Represents (search : Search) (position : Nat) (slots : List Slot) : Prop where
  nextChildIdx : search.nextChildIdx = slots.length
  filled : ∀ (idx : Nat) (info : CellInfo LargeCell),
    search.boc.cellList[idx]? = some (some info) ↔ ∃ slot refIdx, slots[idx]? = some slot ∧
      slot.status = .done refIdx ∧ info = slot.info idx refIdx
  waiting : Lists (search.current.drop position) slots .waiting
  next : Lists search.next slots .next
  early : ∀ entry ∈ search.current.take position, ∃ info,
    search.boc.cellList[entry.idx]? = some (some info) ∧ info.dcRef.hash = entry.hash
  waiting_nodup : ((search.current.drop position).map DepthHash.idx).Nodup
  next_nodup : (search.next.map DepthHash.idx).Nodup
  places : search.boc.cellList.length + search.next.length = slots.length
  inside : ∀ entry ∈ search.current.drop position, entry.idx < search.boc.cellList.length
  count : search.boc.cellCount + (search.current.drop position).length = search.boc.cellList.length
  dataBytes : search.boc.dataBytes = (slots.map doneSize).sum
  intRefs : search.boc.intRefs = 0

variable {idx : Nat} {slots next : List Slot} {boc : LargeBocSerializer} {hash : CellHash}

lemma find_some (found : boc.find hash = some idx) :
    ∃ info, boc.cellList[idx]? = some (some info) ∧ info.dcRef.hash = hash := by
  obtain ⟨inside, located, _⟩ := findIdx?_eq_some_iff_getElem.mp found
  cases slot : boc.cellList[idx] with
  | none => simp [slot] at located
  | some info =>
    refine ⟨info, ?_, by simpa [slot] using located⟩
    rw [getElem?_eq_getElem inside, slot]

lemma find_none (missing : boc.find hash = none)
    {info : CellInfo LargeCell} (located : boc.cellList[idx]? = some (some info)) : info.dcRef.hash ≠ hash := by
  intro same
  have absent := findIdx?_eq_none_iff.mp missing _ (mem_of_getElem? located)
  simp [same] at absent

lemma map_modify_same {β : Type} (slots : List Slot) (read : Slot → β) (change : Slot → Slot)
    (same : ∀ slot, read (change slot) = read slot) (changed : Nat) :
    (slots.modify changed change).map read = slots.map read := by
  apply ext_getElem?
  intro idx
  rw [getElem?_map, getElem?_map, getElem?_modify]
  cases slots[idx]? with
  | none => rfl
  | some slot =>
    by_cases here : changed = idx
    · simp [here, same]
    · simp [here]

section Visits

variable {search : Search} {position : Nat}
variable {slot : Slot}

section

variable (represents : Represents search position slots)
include represents

section

variable (found : slots[idx]? = some slot)
include found

lemma Represents.mark_done {refIdx : List Nat}
    (done : slot.status = .done refIdx) :
    Represents { search with boc := search.boc.markCached idx } position
      (slots.modify idx mark) := by
  have notWaiting : slot.status ≠ .waiting := by rw [done]; nofun
  have notNext : slot.status ≠ .next := by rw [done]; nofun
  have length : (search.boc.markCached idx).cellList.length = search.boc.cellList.length := length_modify ..
  have place : ∀ (other : Nat) (info : CellInfo LargeCell),
      (search.boc.markCached idx).cellList[other]? = some (some info) ↔
        ∃ before, search.boc.cellList[other]? = some (some before) ∧
          info = if idx = other then { before with shouldCache := true } else before := by
    intro other info
    simp only [markCached]
    rw [getElem?_modify]
    cases search.boc.cellList[other]? with
    | none => simp
    | some entry =>
      cases entry with
      | none => by_cases here : idx = other <;> simp [here]
      | some before => by_cases here : idx = other <;> simp [here, eq_comm]
  constructor
  · rw [length_modify]
    exact represents.nextChildIdx
  · intro other info
    rw [place]
    constructor
    · intro ⟨before, located, infoEq⟩
      obtain ⟨otherSlot, otherRefs, otherFound, otherDone, rfl⟩ := (represents.filled other before).mp located
      rw [getElem?_modify, otherFound]
      by_cases here : idx = other
      · rw [if_pos here] at infoEq
        refine ⟨otherSlot.mark, otherRefs, by simp [here], otherDone, ?_⟩
        rw [infoEq]
        rfl
      · rw [if_neg here] at infoEq
        exact ⟨otherSlot, otherRefs, by simp [here], otherDone, infoEq⟩
    · intro ⟨otherSlot, otherRefs, located, otherDone, infoEq⟩
      obtain ⟨before, beforeFound, rfl⟩ := getElem?_modify_some located
      by_cases here : idx = other
      · rw [if_pos here] at otherDone infoEq
        refine ⟨_, (represents.filled other _).mpr ⟨before, otherRefs, beforeFound, otherDone, rfl⟩, ?_⟩
        rw [if_pos here, infoEq]
        rfl
      · rw [if_neg here] at otherDone infoEq
        refine ⟨_, (represents.filled other _).mpr ⟨before, otherRefs, beforeFound, otherDone, rfl⟩, ?_⟩
        rw [if_neg here, infoEq]
  · exact represents.waiting.modify_other found notWaiting notWaiting
  · exact represents.next.modify_other found notNext notNext
  · intro entry member
    obtain ⟨info, located, hash⟩ := represents.early entry member
    refine ⟨_, (place entry.idx _).mpr ⟨info, located, rfl⟩, ?_⟩
    rw [← hash]
    split <;> rfl
  · exact represents.waiting_nodup
  · exact represents.next_nodup
  · rw [length, length_modify]
    exact represents.places
  · intro entry member
    rw [length]
    exact represents.inside entry member
  · rw [length]
    exact represents.count
  · rw [map_modify_same slots doneSize mark fun _ => rfl]
    exact represents.dataBytes
  · exact represents.intRefs

lemma Represents.filled_mark (open_ : ∀ refIdx, slot.status ≠ .done refIdx) (other : Nat) (info : CellInfo LargeCell) :
    search.boc.cellList[other]? = some (some info) ↔ ∃ after refIdx,
      (slots.modify idx mark)[other]? = some after ∧ after.status = .done refIdx ∧ info = after.info other refIdx := by
  rw [represents.filled]
  by_cases here : idx = other
  · subst here
    constructor
    · intro ⟨before, refIdx, located, done, _⟩
      rw [found] at located
      cases located
      exact absurd done (open_ refIdx)
    · intro ⟨after, refIdx, located, done, _⟩
      obtain ⟨before, beforeFound, rfl⟩ := getElem?_modify_some located
      rw [found] at beforeFound
      cases beforeFound
      rw [if_pos rfl] at done
      exact absurd done (open_ refIdx)
  · rw [getElem?_modify_ne _ _ here]

lemma Represents.mark_waiting (waits : slot.status = .waiting)
    (only : ∀ (other : Nat) (otherSlot : Slot), slots[other]? = some otherSlot →
      otherSlot.cell.reprHash = slot.cell.reprHash → other = idx) :
    Represents
      { search with current := DepthHash.markCached slot.cell.reprHash search.current }
      position (slots.modify idx mark) := by
  have notNext : slot.status ≠ .next := by rw [waits]; nofun
  have drops : (DepthHash.markCached slot.cell.reprHash search.current).drop position =
      DepthHash.markCached slot.cell.reprHash (search.current.drop position) := map_drop.symm
  have takes : (DepthHash.markCached slot.cell.reprHash search.current).take position =
      DepthHash.markCached slot.cell.reprHash (search.current.take position) := map_take.symm
  have source : ∀ (entries : List DepthHash),
      ∀ entry ∈ DepthHash.markCached slot.cell.reprHash entries, ∃ before ∈ entries,
        entry.idx = before.idx ∧ entry.hash = before.hash := by
    intro entries entry member
    obtain ⟨before, beforeMember, same⟩ := mem_map.mp member
    refine ⟨before, beforeMember, ?_⟩
    rw [← same]
    split <;> exact ⟨rfl, rfl⟩
  constructor
  · rw [length_modify]
    exact represents.nextChildIdx
  · exact represents.filled_mark found (by rw [waits]; nofun)
  · simp only [drops]
    exact represents.waiting.mark found waits only
  · exact represents.next.modify_other found notNext notNext
  · intro entry member
    simp only [takes] at member
    obtain ⟨before, beforeMember, sameIdx, sameHash⟩ := source _ entry member
    rw [sameIdx, sameHash]
    exact represents.early before beforeMember
  · simp only [drops]
    rw [depthMarkCached_map_idx]
    exact represents.waiting_nodup
  · exact represents.next_nodup
  · rw [length_modify]
    exact represents.places
  · intro entry member
    simp only [drops] at member
    obtain ⟨before, beforeMember, sameIdx, _⟩ := source _ entry member
    rw [sameIdx]
    exact represents.inside before beforeMember
  · simp only [drops]
    rw [DepthHash.markCached, length_map]
    exact represents.count
  · rw [map_modify_same slots doneSize mark fun _ => rfl]
    exact represents.dataBytes
  · exact represents.intRefs

lemma Represents.mark_next (isNext : slot.status = .next)
    (only : ∀ (other : Nat) (otherSlot : Slot), slots[other]? = some otherSlot →
      otherSlot.cell.reprHash = slot.cell.reprHash → other = idx) :
    Represents { search with next := DepthHash.markCached slot.cell.reprHash search.next }
      position (slots.modify idx mark) := by
  have notWaiting : slot.status ≠ .waiting := by rw [isNext]; nofun
  constructor
  · rw [length_modify]
    exact represents.nextChildIdx
  · exact represents.filled_mark found (by rw [isNext]; nofun)
  · exact represents.waiting.modify_other found notWaiting notWaiting
  · exact represents.next.mark found isNext only
  · exact represents.early
  · exact represents.waiting_nodup
  · rw [depthMarkCached_map_idx]
    exact represents.next_nodup
  · simp only [DepthHash.markCached, length_map]
    rw [length_modify]
    exact represents.places
  · exact represents.inside
  · exact represents.count
  · rw [map_modify_same slots doneSize mark fun _ => rfl]
    exact represents.dataBytes
  · exact represents.intRefs

end

lemma Represents.emplace (cell : DataCell) :
    Represents
      { search with
        next := DepthHash.emplace
          { hash := cell.reprHash, idx := search.nextChildIdx, shouldCache := false } search.next
        nextChildIdx := search.nextChildIdx + 1 }
      position (slots ++ [{ cell, status := .next, shouldCache := false }]) := by
  have fresh : ∀ entry ∈ search.next, entry.idx < slots.length := by
    intro entry member
    obtain ⟨slot, located, _⟩ := (represents.next entry).mp member
    exact (List.getElem?_eq_some_iff.mp located).1
  constructor
  · rw [length_append, length_singleton, represents.nextChildIdx]
  · intro other info
    rw [represents.filled]
    constructor
    · intro ⟨slot, refIdx, located, rest⟩
      have inside := lt_of_getElem? located
      exact ⟨slot, refIdx, by rw [List.getElem?_append_left inside]; exact located, rest⟩
    · intro ⟨slot, refIdx, located, done, infoEq⟩
      rcases Nat.lt_or_ge other slots.length with inside | outside
      · rw [getElem?_append_left inside] at located
        exact ⟨slot, refIdx, located, done, infoEq⟩
      · rw [getElem?_append_right outside] at located
        have same := mem_singleton.mp (mem_of_getElem? located)
        rw [same] at done
        cases done
  · exact represents.waiting.append_other nofun
  · rw [represents.nextChildIdx]
    exact represents.next.emplace
  · exact represents.early
  · exact represents.waiting_nodup
  · rw [((emplace_perm _ _).map DepthHash.idx).nodup_iff, map_cons, nodup_cons]
    refine ⟨?_, represents.next_nodup⟩
    intro member
    obtain ⟨entry, entryMember, same⟩ := mem_map.mp member
    have inside := fresh entry entryMember
    rw [same, represents.nextChildIdx] at inside
    exact Nat.lt_irrefl _ inside
  · rw [(emplace_perm _ _).length_eq, length_cons, length_append, length_singleton, ← represents.places]
    rfl
  · exact represents.inside
  · exact represents.count
  · rw [map_append, sum_append]
    exact represents.dataBytes
  · exact represents.intRefs

end

end Visits

structure Grown (slots next : List Slot) : Prop where
  entry : ∀ (idx : Nat) (slot : Slot), slots[idx]? = some slot → ∃ after,
    next[idx]? = some after ∧ after.cell = slot.cell ∧ after.status = slot.status
  doneRefs : next.flatMap doneRefs = slots.flatMap doneRefs

lemma Grown.refl (slots : List Slot) : Grown slots slots where
  entry := fun _ slot found => ⟨slot, found, rfl, rfl⟩
  doneRefs := rfl

lemma Grown.trans {last : List Slot} (first : Grown slots next) (second : Grown next last) : Grown slots last where
  entry := by
    intro idx slot found
    obtain ⟨between, betweenFound, sameCell, sameStatus⟩ := first.entry idx slot found
    obtain ⟨after, afterFound, afterCell, afterStatus⟩ := second.entry idx between betweenFound
    exact ⟨after, afterFound, afterCell.trans sameCell, afterStatus.trans sameStatus⟩
  doneRefs := second.doneRefs.trans first.doneRefs

lemma Grown.keeps (grown : Grown slots next) : Keeps slots next := by
  intro idx cell found
  obtain ⟨slot, located, rfl⟩ := Option.map_eq_some_iff.mp found
  obtain ⟨after, afterFound, sameCell, _⟩ := grown.entry idx slot located
  unfold cellAt
  rw [afterFound, Option.map_some, sameCell]

lemma Visit.grown {cell : DataCell} (visit : Visit slots cell idx next) : Grown slots next := by
  cases visit with
  | again idx found =>
    constructor
    · intro other slot located
      rw [getElem?_modify, located]
      by_cases here : idx = other
      · exact ⟨slot.mark, by simp [here], rfl, rfl⟩
      · exact ⟨slot, by simp [here], rfl, rfl⟩
    · rw [flatMap_def, map_modify_same slots doneRefs mark fun _ => rfl, ← flatMap_def]
  | first absent =>
    constructor
    · intro other slot located
      have inside := lt_of_getElem? located
      refine ⟨slot, ?_, rfl, rfl⟩
      rw [getElem?_append_left inside]
      exact located
    · rw [flatMap_append]
      exact append_nil _

section References

variable {sha : Sha256} {root : DataCell} {depth : Nat} {search : Search} {position : Nat}
  {slots : List Slot} {visits : List Nat}

section

variable (table : Table sha root depth slots visits) (distinct : DataCell.HashesDistinct [root])
include table distinct

lemma Table.only {first second : Nat} {left right : Slot}
    (leftFound : slots[first]? = some left) (rightFound : slots[second]? = some right)
    (same : left.cell.reprHash = right.cell.reprHash) : first = second := by
  have equal := distinct _ _ (table.within left (mem_of_getElem? leftFound))
    (table.within right (mem_of_getElem? rightFound)) same
  apply table.apart first second left.cell
  · rw [cellAt, leftFound]
    rfl
  · rw [cellAt, rightFound, equal]
    rfl

lemma importRef_visit (represents : Represents search position slots)
    {child : DataCell} (within : DataCell.Within [root] child) :
    ∃ next, Visit slots child (importRef search child.reprHash).1 next ∧
      Represents (importRef search child.reprHash).2 position next := by
  -- A slot with the hash of the child is the slot of the child.
  have known : ∀ (idx : Nat) (slot : Slot), slots[idx]? = some slot →
      slot.cell.reprHash = child.reprHash → cellAt slots idx = some child := by
    intro idx slot found hash
    have same := distinct _ _ (table.within slot (mem_of_getElem? found)) within hash
    rw [cellAt, found, ← same]
    rfl
  unfold importRef
  cases processed : search.boc.find child.reprHash with
  | some idx =>
    obtain ⟨info, located, hash⟩ := find_some processed
    obtain ⟨slot, refIdx, found, done, rfl⟩ := (represents.filled idx info).mp located
    exact ⟨_, .again idx (known idx slot found hash), represents.mark_done found done⟩
  | none =>
    have notDone : ∀ (idx : Nat) (slot : Slot) (refIdx : List Nat), slots[idx]? = some slot →
        slot.status = .done refIdx → slot.cell.reprHash ≠ child.reprHash := by
      intro idx slot refIdx found done
      exact find_none processed ((represents.filled idx _).mpr ⟨slot, refIdx, found, done, rfl⟩)
    cases present : DepthHash.find search.current child.reprHash with
    | some idx =>
      obtain ⟨entry, member, hash, rfl⟩ := depthFind_some present
      have later : entry ∈ search.current.drop position := by
        rw [← take_append_drop position search.current] at member
        rcases mem_append.mp member with early | late
        · obtain ⟨info, located, same⟩ := represents.early entry early
          exact absurd (same.trans hash) (find_none processed located)
        · exact late
      obtain ⟨slot, found, waits, entryEq⟩ := (represents.waiting entry).mp later
      have slotHash : slot.cell.reprHash = child.reprHash := by
        rw [entryEq] at hash
        exact hash
      refine ⟨_, .again entry.idx (known entry.idx slot found slotHash), ?_⟩
      rw [← slotHash]
      exact represents.mark_waiting found waits fun other otherSlot otherFound same =>
        table.only distinct otherFound found same
    | none =>
      cases coming : DepthHash.find search.next child.reprHash with
      | some idx =>
        obtain ⟨entry, member, hash, rfl⟩ := depthFind_some coming
        obtain ⟨slot, found, isNext, entryEq⟩ := (represents.next entry).mp member
        have slotHash : slot.cell.reprHash = child.reprHash := by
          rw [entryEq] at hash
          exact hash
        refine ⟨_, .again entry.idx (known entry.idx slot found slotHash), ?_⟩
        rw [← slotHash]
        exact represents.mark_next found isNext fun other otherSlot otherFound same =>
          table.only distinct otherFound found same
      | none =>
        refine ⟨_, ?_, represents.emplace child⟩
        simp only [represents.nextChildIdx]
        apply Visit.first
        intro idx here
        obtain ⟨slot, found, rfl⟩ := Option.map_eq_some_iff.mp here
        cases status : slot.status with
        | done refIdx => exact notDone idx slot refIdx found status rfl
        | waiting =>
          have member := (represents.waiting (slot.entry idx)).mpr ⟨slot, found, status, rfl⟩
          exact depthFind_none present _ (mem_of_mem_drop member) rfl
        | next =>
          have member := (represents.next (slot.entry idx)).mpr ⟨slot, found, status, rfl⟩
          exact depthFind_none coming _ member rfl

end

lemma importRef_current_idx (search : Search) (hash : CellHash) :
    (importRef search hash).2.current.map DepthHash.idx = search.current.map DepthHash.idx := by
  unfold importRef
  split
  · rfl
  · split
    · exact depthMarkCached_map_idx _ _
    · split <;> rfl

lemma importRefs_current_idx (search : Search) (children : List DataCell) :
    (importRefs search children).2.current.map DepthHash.idx = search.current.map DepthHash.idx := by
  induction children generalizing search with
  | nil => rfl
  | cons child rest ih => exact (ih _).trans (importRef_current_idx search child.reprHash)

lemma importRefs_visits (table : Table sha root depth slots visits)
    (distinct : DataCell.HashesDistinct [root]) (represents : Represents search position slots)
    {children : List DataCell} (created : ∀ child ∈ children, child.Created sha)
    (within : ∀ child ∈ children, DataCell.Within [root] child)
    (shallow : ∀ child ∈ children, depth + 1 + child.getDepth Cell.maxLevel ≤ Cell.maxDepth) :
    ∃ next, Table sha root depth next ((importRefs search children).1.reverse ++ visits) ∧
      Represents (importRefs search children).2 position next ∧ Grown slots next ∧
      (importRefs search children).1.map (cellAt next) = children.map some := by
  induction children generalizing search slots visits with
  | nil => exact ⟨slots, table, represents, .refl slots, rfl⟩
  | cons child rest ih =>
    obtain ⟨between, visit, betweenRepresents⟩ := importRef_visit table distinct represents (within child (by simp))
    have betweenTable := table.visit visit (created child (by simp)) (within child (by simp)) (shallow child (by simp))
    obtain ⟨next, nextTable, nextRepresents, grown, cells⟩ :=
      ih betweenTable betweenRepresents (forall_mem_cons.mp created).2 (forall_mem_cons.mp within).2
        (forall_mem_cons.mp shallow).2
    refine ⟨next, ?_, nextRepresents, visit.grown.trans grown, ?_⟩
    · simp only [importRefs, reverse_cons, append_assoc, singleton_append]
      exact nextTable
    · simp only [importRefs, map_cons]
      rw [grown.keeps _ _ visit.cellAt_eq]
      exact congrArg _ cells

end References

end TonNode.Vm.LargeBocSerializer
