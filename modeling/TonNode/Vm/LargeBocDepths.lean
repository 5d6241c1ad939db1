import TonNode.Vm.LargeBocImport

/-!
# The depths of the large serializer's search

Each cell of a depth is processed after its references have been visited. The search ends because a
cell of the current depth has that many cells above it.
-/

namespace TonNode.Vm.LargeBocSerializer

open Boc List Slot

section Finishing

variable {search : Search} {position : Nat} {slots : List Slot}

lemma modify_split {idx : Nat} {slot : Slot} (found : slots[idx]? = some slot)
    (change : Slot → Slot) : ∃ before after, slots = before ++ slot :: after ∧
      slots.modify idx change = before ++ change slot :: after := by
  obtain ⟨inside, same⟩ := List.getElem?_eq_some_iff.mp found
  refine ⟨slots.take idx, slots.drop (idx + 1), ?_, ?_⟩
  · rw [← same, List.getElem_cons_drop inside, List.take_append_drop]
  · rw [modify_eq_take_cons_drop inside, same]

lemma finish_doneRefs_perm {idx : Nat} {slot : Slot} (found : slots[idx]? = some slot)
    (waits : slot.status = .waiting) (refIdx : List Nat) : ((slots.modify idx (finish refIdx)).flatMap doneRefs).Perm
      (refIdx ++ slots.flatMap doneRefs) := by
  obtain ⟨before, after, same, modified⟩ := modify_split found (finish refIdx)
  have none : slot.doneRefs = [] := by rw [doneRefs, waits]
  have all : (slot.finish refIdx).doneRefs = refIdx := rfl
  rw [modified, same, flatMap_append, flatMap_append, flatMap_cons,
    flatMap_cons, none, all, nil_append, ← append_assoc, ← append_assoc]
  exact perm_append_comm.append_right _

lemma finish_doneSize_sum {idx : Nat} {slot : Slot} (found : slots[idx]? = some slot)
    (waits : slot.status = .waiting) (refIdx : List Nat) : ((slots.modify idx (finish refIdx)).map doneSize).sum =
      (slots.map doneSize).sum + slot.cell.getSerializedSize false := by
  obtain ⟨before, after, same, modified⟩ := modify_split found (finish refIdx)
  have none : slot.doneSize = 0 := by rw [doneSize, waits]
  have all : (slot.finish refIdx).doneSize = slot.cell.getSerializedSize false := rfl
  rw [modified, same]
  simp only [map_append, map_cons, sum_append, sum_cons, none, all]
  omega

def emplaced (search : Search) (slot : Slot) (idx : Nat) (refIdx : List Nat) : Search :=
  { search with
    boc := { search.boc with
      cellList := search.boc.cellList.set idx (some (slot.info idx refIdx))
      dataBytes := search.boc.dataBytes + slot.cell.getSerializedSize false
      cellCount := search.boc.cellCount + 1 } }

lemma emplaced_place {slot : Slot} {idx : Nat} {refIdx : List Nat} (inside : idx < search.boc.cellList.length) (other : Nat)
    (info : CellInfo LargeCell) : (emplaced search slot idx refIdx).boc.cellList[other]? = some (some info) ↔
      if idx = other then info = slot.info other refIdx else search.boc.cellList[other]? = some (some info) := by
  simp only [emplaced]
  rw [getElem?_set]
  by_cases same : idx = other
  · subst same
    simp [inside, eq_comm]
  · simp [same]

lemma emplaceCell_eq {sha : Sha256} {slot : Slot} {idx : Nat} {refIdx : List Nat} (created : slot.cell.Created sha)
    (absent : search.boc.find slot.cell.reprHash = none) : emplaceCell search slot.cell refIdx (slot.entry idx) =
      .ok (emplaced search slot idx refIdx) := by
  have few := LevelMask.getHashesCount_le created.mask_lt
  have small := created.getSerializedSize_le false
  have narrow : Cell.maxSerializedBytes < 2 ^ 16 := by decide
  unfold emplaceCell
  rw [absent]
  simp only [check, Option.isNone_none, decide_eq_true few, ↓reduceIte, Lib.ok_bind]
  rw [if_neg (by omega)]
  rfl

lemma Represents.finish (represents : Represents search position slots) {entry : DepthHash}
    (here : search.current[position]? = some entry) {slot : Slot}
    (found : slots[entry.idx]? = some slot) (waits : slot.status = .waiting)
    (entryEq : entry = slot.entry entry.idx) (refIdx : List Nat) :
    Represents (emplaced search slot entry.idx refIdx) (position + 1) (slots.modify entry.idx (finish refIdx)) := by
  obtain ⟨positionInside, atPosition⟩ := List.getElem?_eq_some_iff.mp here
  have rest : search.current.drop position = entry :: search.current.drop (position + 1) := by
    rw [← atPosition]
    exact drop_eq_getElem_cons positionInside
  have placeInside : entry.idx < search.boc.cellList.length := represents.inside entry (by rw [rest]; simp)
  have apart := represents.waiting_nodup
  rw [rest, map_cons, nodup_cons] at apart
  have notNext : slot.status ≠ .next := by rw [waits]; nofun
  constructor
  · rw [length_modify]
    exact represents.nextChildIdx
  · intro other info
    rw [emplaced_place placeInside]
    by_cases same : entry.idx = other
    · subst same
      rw [if_pos rfl, getElem?_modify_eq, found]
      constructor
      · intro infoEq
        exact ⟨slot.finish refIdx, refIdx, rfl, rfl, infoEq⟩
      · intro ⟨after, otherRefs, located, done, infoEq⟩
        cases located
        cases done
        exact infoEq
    · rw [if_neg same, getElem?_modify_ne _ _ same]
      exact represents.filled other info
  · intro other
    have listed := represents.waiting other
    rw [rest, mem_cons] at listed
    by_cases same : entry.idx = other.idx
    · constructor
      · intro member
        exact absurd (mem_map.mpr ⟨other, member, same.symm⟩) apart.1
      · intro ⟨after, located, afterWaits, _⟩
        rw [← same, getElem?_modify_eq, found] at located
        cases located
        cases afterWaits
    · rw [getElem?_modify_ne _ _ same, ← listed]
      constructor
      · exact Or.inr
      · rintro (isEntry | member)
        · rw [isEntry] at same
          exact absurd rfl same
        · exact member
  · exact represents.next.modify_other found notNext nofun
  · intro other member
    have earlier : search.current.take (position + 1) = search.current.take position ++ [entry] := by
      rw [take_add_one, here]
      rfl
    simp only [emplaced] at member
    rw [earlier] at member
    rcases mem_append.mp member with old | isEntry
    · obtain ⟨info, located, hash⟩ := represents.early other old
      have different : entry.idx ≠ other.idx := by
        intro same
        obtain ⟨otherSlot, _, otherFound, done, _⟩ := (represents.filled _ _).mp located
        rw [← same, found] at otherFound
        cases otherFound
        rw [waits] at done
        cases done
      exact ⟨info, (emplaced_place placeInside other.idx info).mpr (by rw [if_neg different]; exact located), hash⟩
    · rw [mem_singleton.mp isEntry]
      refine ⟨slot.info entry.idx refIdx, (emplaced_place placeInside entry.idx _).mpr (by rw [if_pos rfl]), ?_⟩
      rw [entryEq]
      rfl
  · exact apart.2
  · exact represents.next_nodup
  · simp only [emplaced, length_set]
    rw [length_modify]
    exact represents.places
  · intro other member
    simp only [emplaced, length_set]
    exact represents.inside other (by rw [rest]; exact mem_cons_of_mem _ member)
  · have count := represents.count
    rw [rest, length_cons] at count
    simp only [emplaced, length_set]
    omega
  · rw [finish_doneSize_sum found waits, ← represents.dataBytes]
    rfl
  · exact represents.intRefs

end Finishing

/-- Every cell below the root can be loaded by its hash. -/
def CellDbReader.Stores (reader : CellDbReader) (root : DataCell) : Prop :=
  ∀ cell, DataCell.Within [root] cell → reader.loadCell cell.reprHash = .ok cell

/-- The search has a table, and what has been visited is the root and the references of the cells
that are done. -/
structure Progress (sha : Sha256) (root : DataCell) (depth : Nat) (search : Search)
    (position : Nat) (slots : List Slot) (visits : List Nat) : Prop where
  table : Table sha root depth slots visits
  represents : Represents search position slots
  visits_perm : visits.Perm (0 :: slots.flatMap doneRefs)
  start : cellAt slots 0 = some root

def Reached (sha : Sha256) (root : DataCell) (depth : Nat) (search : Search) (position : Nat) : Prop :=
  ∃ slots visits, Progress sha root depth search position slots visits

section Entries

variable {sha : Sha256} {root : DataCell} {depth : Nat} {search : Search} {position : Nat}
  {reader : CellDbReader}

lemma Represents.waiting_at {slots : List Slot} (represents : Represents search position slots)
    (inside : position < search.current.length) : ∃ slot, slots[search.current[position].idx]? = some slot ∧
      slot.status = .waiting ∧ search.current[position] = slot.entry search.current[position].idx := by
  refine (represents.waiting _).mp ?_
  rw [drop_eq_getElem_cons inside]
  exact mem_cons_self

lemma Represents.find_waiting {slots : List Slot} {visits : List Nat} {idx : Nat} {slot : Slot}
    (represents : Represents search position slots) (table : Table sha root depth slots visits)
    (distinct : DataCell.HashesDistinct [root]) (found : slots[idx]? = some slot) (waits : slot.status = .waiting) :
    search.boc.find slot.cell.reprHash = none := by
  cases processed : search.boc.find slot.cell.reprHash with
  | none => rfl
  | some other =>
    obtain ⟨info, located, hash⟩ := find_some processed
    obtain ⟨otherSlot, refIdx, otherFound, done, rfl⟩ := (represents.filled other info).mp located
    have same := table.only distinct otherFound found hash
    rw [same, found] at otherFound
    cases otherFound
    rw [waits] at done
    cases done

lemma importEntry_ok (stores : CellDbReader.Stores reader root)
    (distinct : DataCell.HashesDistinct [root]) (reached : Reached sha root depth search position)
    (inside : position < search.current.length) : ∃ next, importEntry reader search position = .ok next ∧
      Reached sha root depth next (position + 1) ∧ next.current.length = search.current.length := by
  obtain ⟨slots, visits, table, represents, perm, start⟩ := reached
  have here : search.current[position]? = some search.current[position] := getElem?_eq_getElem inside
  obtain ⟨slot, found, waits, entryEq⟩ := represents.waiting_at inside
  have member := mem_of_getElem? found
  have created := table.created slot member
  have within := table.within slot member
  have shallow := table.waiting slot member waits
  have loaded : reader.loadCell search.current[position].hash = .ok slot.cell := by
    rw [entryEq]
    exact stores slot.cell within
  obtain ⟨next, nextTable, nextRepresents, grown, cells⟩ :=
    importRefs_visits table distinct represents created.refs
      (fun child isRef => DataCell.Within.ref within isRef)
      (fun child isRef => by
        have lower := created.getDepth_lt isRef
        omega)
  -- The entry as it is after its references, with the same number.
  have numbers := importRefs_current_idx search slot.cell.refs
  have length : (importRefs search slot.cell.refs).2.current.length = search.current.length := by
    simpa using congrArg List.length numbers
  have laterInside : position < (importRefs search slot.cell.refs).2.current.length := by
    rw [length]
    exact inside
  have later : (importRefs search slot.cell.refs).2.current[position]? =
      some (importRefs search slot.cell.refs).2.current[position] := getElem?_eq_getElem laterInside
  have sameIdx : (importRefs search slot.cell.refs).2.current[position].idx =
      search.current[position].idx := by
    have both := congrArg (fun indices => indices[position]?) numbers
    simp only [getElem?_map, here, later, Option.map_some] at both
    exact Option.some.inj both
  obtain ⟨after, afterFound, afterWaits, afterEq⟩ := nextRepresents.waiting_at laterInside
  obtain ⟨grownSlot, grownFound, grownCell, _⟩ := grown.entry _ slot found
  have sameCell : after.cell = slot.cell := by
    rw [sameIdx, grownFound] at afterFound
    cases afterFound
    exact grownCell
  have absent := nextRepresents.find_waiting nextTable distinct afterFound afterWaits
  refine ⟨emplaced (importRefs search slot.cell.refs).2 after (importRefs search slot.cell.refs).2.current[position].idx
    (importRefs search slot.cell.refs).1, ?_, ?_, length⟩
  · unfold importEntry
    rw [here]
    simp only [loaded, later]
    have put := @emplaceCell_eq _ sha after (importRefs search slot.cell.refs).2.current[position].idx
      (importRefs search slot.cell.refs).1 (by rw [sameCell]; exact created) absent
    rw [sameCell, ← afterEq] at put
    exact put
  · refine ⟨_, _, nextTable.finish afterFound (by rw [sameCell]; exact cells),
      nextRepresents.finish later afterFound afterWaits afterEq _, ?_, ?_⟩
    · have moved := finish_doneRefs_perm afterFound afterWaits (importRefs search slot.cell.refs).1
      rw [grown.doneRefs] at moved
      refine ((reverse_perm _).append perm).trans ?_
      exact perm_middle.trans (moved.symm.cons 0)
    · rw [cellAt_finish]
      exact grown.keeps _ _ start

lemma foldlM_importEntry (stores : CellDbReader.Stores reader root)
    (distinct : DataCell.HashesDistinct [root]) (reached : Reached sha root depth search 0)
    {count : Nat} (limit : count ≤ search.current.length) :
    ∃ next, (List.range count).foldlM (importEntry reader) search = .ok next ∧
      Reached sha root depth next count ∧ next.current.length = search.current.length := by
  induction count with
  | zero => exact ⟨search, rfl, reached, rfl⟩
  | succ count ih =>
    obtain ⟨between, run, betweenReached, length⟩ := ih (by omega)
    obtain ⟨next, step, nextReached, nextLength⟩ := importEntry_ok stores distinct betweenReached (by omega)
    refine ⟨next, ?_, nextReached, nextLength.trans length⟩
    rw [range_succ, foldlM_append, run, Lib.ok_bind, foldlM_cons, step]
    rfl

def Slot.advance (slot : Slot) : Slot :=
  match slot.status with
  | .next => { slot with status := .waiting }
  | _ => slot

@[simp] lemma Slot.advance_cell (slot : Slot) : slot.advance.cell = slot.cell := by
  unfold advance
  split <;> rfl

@[simp] lemma Slot.advance_shouldCache (slot : Slot) : slot.advance.shouldCache = slot.shouldCache := by
  unfold advance
  split <;> rfl

lemma Slot.advance_done {slot : Slot} {refIdx : List Nat} :
    slot.advance.status = .done refIdx ↔ slot.status = .done refIdx := by
  unfold advance
  split
  next isNext =>
    rw [isNext]
    simp
  · rfl

lemma Slot.advance_waiting {slot : Slot} (open_ : slot.status ≠ .waiting) :
    slot.advance.status = .waiting ↔ slot.status = .next := by
  unfold advance
  split
  next isNext =>
    simp [isNext]
  next notNext =>
    exact iff_of_false open_ notNext

lemma Slot.advance_next (slot : Slot) : slot.advance.status ≠ .next := by
  unfold advance
  split
  · nofun
  · assumption

@[simp] lemma Slot.advance_doneRefs (slot : Slot) : slot.advance.doneRefs = slot.doneRefs := by
  unfold advance
  split
  next isNext =>
    simp [doneRefs, isNext]
  · rfl

@[simp] lemma Slot.advance_doneSize (slot : Slot) : slot.advance.doneSize = slot.doneSize := by
  unfold advance
  split
  next isNext =>
    simp [doneSize, isNext]
  · rfl

lemma cellAt_advance (slots : List Slot) (idx : Nat) : cellAt (slots.map advance) idx = cellAt slots idx := by
  unfold cellAt
  rw [getElem?_map]
  cases slots[idx]? <;> simp

lemma Table.advance {slots : List Slot} {visits : List Nat} (table : Table sha root depth slots visits)
    (none : ∀ slot ∈ slots, slot.status ≠ .waiting) : Table sha root (depth + 1) (slots.map advance) visits := by
  have sameCells : cellAt (slots.map Slot.advance) = cellAt slots := funext (cellAt_advance slots)
  constructor
  · intro slot member
    obtain ⟨before, beforeMember, rfl⟩ := mem_map.mp member
    rw [advance_cell]
    exact table.created before beforeMember
  · intro slot member
    obtain ⟨before, beforeMember, rfl⟩ := mem_map.mp member
    rw [advance_cell]
    exact table.within before beforeMember
  · rw [sameCells]
    exact table.apart
  · intro slot member refIdx done
    obtain ⟨before, beforeMember, rfl⟩ := mem_map.mp member
    rw [sameCells, advance_cell]
    exact table.refs before beforeMember refIdx (advance_done.mp done)
  · rw [length_map]
    exact table.visits_lt
  · rw [length_map]
    exact table.met
  · intro idx slot found
    rw [getElem?_map] at found
    obtain ⟨before, beforeFound, rfl⟩ := Option.map_eq_some_iff.mp found
    rw [advance_shouldCache]
    exact table.cache idx before beforeFound
  · intro slot member waits
    obtain ⟨before, beforeMember, rfl⟩ := mem_map.mp member
    rw [advance_cell]
    exact table.next before beforeMember ((advance_waiting (none before beforeMember)).mp waits)
  · intro slot member isNext
    obtain ⟨before, _, rfl⟩ := mem_map.mp member
    exact absurd isNext before.advance_next

def withPlaces (search : Search) : Search :=
  { search with
    boc := { search.boc with
      cellList := search.boc.cellList ++ List.replicate search.current.length none } }

lemma withPlaces_eq {search : Search} (none : search.current = []) : withPlaces search = search := by
  cases search with
  | mk boc current next nextChildIdx =>
    cases none
    simp [withPlaces]

lemma Represents.advance {slots : List Slot} {position : Nat}
    (represents : Represents search position slots) (all : search.current.length ≤ position) :
    Represents (withPlaces { search with current := search.next, next := [] }) 0
      (slots.map advance) := by
  have done : search.current.drop position = [] := drop_eq_nil_iff.mpr all
  have noneWaits : ∀ (idx : Nat) (slot : Slot), slots[idx]? = some slot → slot.status ≠ .waiting := by
    intro idx slot found waits
    have member := (represents.waiting (slot.entry idx)).mpr ⟨slot, found, waits, rfl⟩
    rw [done] at member
    cases member
  have advanced : ∀ (idx : Nat) (slot : Slot), (slots.map Slot.advance)[idx]? = some slot →
      ∃ before, slots[idx]? = some before ∧ slot = before.advance := by
    intro idx slot found
    rw [getElem?_map] at found
    obtain ⟨before, beforeFound, rfl⟩ := Option.map_eq_some_iff.mp found
    exact ⟨before, beforeFound, rfl⟩
  constructor
  · rw [length_map]
    exact represents.nextChildIdx
  · intro idx info
    have place : (search.boc.cellList ++ List.replicate search.next.length none)[idx]? =
        some (some info) ↔ search.boc.cellList[idx]? = some (some info) := by
      rcases Nat.lt_or_ge idx search.boc.cellList.length with inside | outside
      · rw [getElem?_append_left inside]
      · rw [getElem?_append_right outside, getElem?_eq_none_iff.mpr outside, getElem?_replicate]
        split <;> simp
    simp only [withPlaces, place]
    rw [represents.filled]
    constructor
    · intro ⟨slot, refIdx, found, done, infoEq⟩
      refine ⟨slot.advance, refIdx, by rw [getElem?_map, found]; rfl, advance_done.mpr done, ?_⟩
      rw [infoEq]
      simp [Slot.info]
    · intro ⟨slot, refIdx, found, done, infoEq⟩
      obtain ⟨before, beforeFound, rfl⟩ := advanced idx slot found
      refine ⟨before, refIdx, beforeFound, advance_done.mp done, ?_⟩
      rw [infoEq]
      simp [Slot.info]
  · intro entry
    simp only [withPlaces, drop_zero]
    rw [represents.next entry]
    constructor
    · intro ⟨slot, found, isNext, entryEq⟩
      refine ⟨slot.advance, by rw [getElem?_map, found]; rfl, (advance_waiting (noneWaits _ slot found)).mpr isNext, ?_⟩
      simpa [Slot.entry] using entryEq
    · intro ⟨slot, found, waits, entryEq⟩
      obtain ⟨before, beforeFound, rfl⟩ := advanced entry.idx slot found
      refine ⟨before, beforeFound, (advance_waiting (noneWaits _ before beforeFound)).mp waits, ?_⟩
      simpa [Slot.entry] using entryEq
  · intro entry
    constructor
    · intro member
      cases member
    · intro ⟨slot, found, isNext, _⟩
      obtain ⟨before, _, rfl⟩ := advanced entry.idx slot found
      exact absurd isNext before.advance_next
  · intro entry member
    cases member
  · exact represents.next_nodup
  · exact nodup_nil
  · simp only [withPlaces, length_append, length_replicate, length_map, length_nil]
    exact represents.places
  · intro entry member
    obtain ⟨slot, found, _⟩ := (represents.next entry).mp member
    have inside := lt_of_getElem? found
    simp only [withPlaces, length_append, length_replicate]
    rw [represents.places]
    exact inside
  · have count := represents.count
    rw [done, length_nil, Nat.add_zero] at count
    simp only [withPlaces, length_append, length_replicate, drop_zero]
    rw [count]
  · rw [map_map]
    have same : Slot.doneSize ∘ Slot.advance = Slot.doneSize := funext Slot.advance_doneSize
    rw [same]
    exact represents.dataBytes
  · exact represents.intRefs

lemma Reached.advance (reached : Reached sha root depth search position)
    (all : search.current.length ≤ position) :
    Reached sha root (depth + 1) (withPlaces { search with current := search.next, next := [] })
      0 := by
  obtain ⟨slots, visits, table, represents, perm, start⟩ := reached
  refine ⟨slots.map Slot.advance, visits, table.advance ?_, represents.advance all, ?_, ?_⟩
  · intro slot member waits
    obtain ⟨idx, found⟩ := mem_iff_getElem?.mp member
    have listed := (represents.waiting (slot.entry idx)).mpr ⟨slot, found, waits, rfl⟩
    rw [drop_eq_nil_iff.mpr all] at listed
    cases listed
  · rw [flatMap_map]
    simp only [advance_doneRefs]
    exact perm
  · rw [cellAt_advance]
    exact start

/-- The induction is on the fuel. A cell of the current depth has that many cells above it. -/
lemma importDepths_ok (stores : CellDbReader.Stores reader root) (distinct : DataCell.HashesDistinct [root]) {fuel : Nat}
    (enough : Cell.maxDepth + 1 < fuel + depth) (some_ : 0 < fuel) (noNext : search.next = [])
    (reached : Reached sha root depth (withPlaces search) 0) :
    ∃ next lastDepth, importDepths reader fuel search depth = .ok next ∧ next.current = [] ∧
      next.next = [] ∧ Reached sha root lastDepth next 0 := by
  induction fuel generalizing search depth with
  | zero => omega
  | succ fuel ih =>
    rw [importDepths]
    by_cases done : search.current = []
    · rw [withPlaces_eq done] at reached
      exact ⟨search, depth, if_pos (by rw [done]; rfl), done, noNext, reached⟩
    have low : depth ≤ Cell.maxDepth := by
      obtain ⟨slots, visits, table, represents, _⟩ := reached
      obtain ⟨entry, rest, split⟩ := exists_cons_of_ne_nil done
      obtain ⟨slot, found, waits, _⟩ := (represents.waiting entry).mp (by
        simp [withPlaces, split])
      have limit := table.waiting slot (mem_of_getElem? found) waits
      omega
    rw [if_neg (by simpa using done), if_neg (by omega)]
    obtain ⟨pass, run, passReached, length⟩ := foldlM_importEntry stores distinct reached (Nat.le_refl _)
    obtain ⟨next, lastDepth, ran, result⟩ := @ih (depth + 1)
      { pass with current := pass.next, next := [] } (by omega) (by omega) rfl (passReached.advance (Nat.le_of_eq length))
    refine ⟨next, lastDepth, ?_, result⟩
    show (List.range (withPlaces search).current.length).foldlM (importEntry reader) (withPlaces search) >>= _ = _
    rw [run]
    exact ran

end Entries

end TonNode.Vm.LargeBocSerializer
