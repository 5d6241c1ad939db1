import TonNode.Vm.Boc

/-!
# Renumbering the cells of a bag

The proofs keep the list of old numbers in the order in which cells get new ones. A cell is
renumbered only after everything it refers to, so its references can be given by that list.
-/

namespace TonNode.Vm.Boc

open List Nat Revisit

variable {α : Type} {current : CellInfo α} {more : List Nat}

namespace Revisit

variable {state : Revisit α} {idx other : Nat}

lemma setNewIdx_self (found : state.cells[idx]? = some current) (newIdx : Int) :
    (state.setNewIdx idx newIdx).cells[idx]? = some { current with newIdx := newIdx } := by
  simp [setNewIdx, found]

lemma setNewIdx_other (different : other ≠ idx) (newIdx : Int) :
    (state.setNewIdx idx newIdx).cells[other]? = state.cells[other]? := by
  simp [setNewIdx, Ne.symm different]

lemma setRefIdx_self (found : state.cells[idx]? = some current) (refIdx : List Nat) :
    (state.setRefIdx idx refIdx).cells[idx]? = some { current with refIdx := refIdx } := by
  simp [setRefIdx, found]

lemma setRefIdx_other (different : other ≠ idx) (refIdx : List Nat) :
    (state.setRefIdx idx refIdx).cells[other]? = state.cells[other]? := by
  simp [setRefIdx, Ne.symm different]

end Revisit

structure Ranked (cells : List (CellInfo α)) (rank : Nat → Nat) : Prop where
  fresh : ∀ info ∈ cells, info.newIdx = -1
  inside : ∀ (idx : Nat) (info : CellInfo α), cells[idx]? = some info → ∀ ref ∈ info.refIdx, ref < cells.length
  lower : ∀ (idx : Nat) (info : CellInfo α), cells[idx]? = some info → ∀ ref ∈ info.refIdx, rank ref < rank idx

def renumbered (order : List Nat) (info : CellInfo α) (newIdx : Int) : CellInfo α :=
  { info with refIdx := info.refIdx.map order.idxOf, newIdx := newIdx }

/-- How far the cell `info` has come; the last argument is what it is now. -/
inductive Status (order : List Nat) (tmp : List (CellInfo α)) (idx : Nat) (info : CellInfo α) :
    CellInfo α → Prop where
  | waiting (newIdx : Int) (low : newIdx = -1 ∨ newIdx = -2) (absent : idx ∉ order) :
      Status order tmp idx info { info with newIdx := newIdx }
  | visited (absent : idx ∉ order) (refs : ∀ ref ∈ info.refIdx, ref ∈ order) :
      Status order tmp idx info (renumbered order info (-3))
  | numbered (new : Nat) (place : order[new]? = some idx)
      (refs : ∀ ref ∈ info.refIdx, ref ∈ order.take new)
      (stored : tmp[new]? = some (renumbered order info new)) :
      Status order tmp idx info (renumbered order info new)

/-- The state agrees with the order in which cells have been numbered. -/
structure Good (cells : List (CellInfo α)) (state : Revisit α) (order : List Nat) : Prop where
  nodup : order.Nodup
  tmp_length : state.tmp.length = order.length
  cells_length : state.cells.length = cells.length
  inside : ∀ idx ∈ order, idx < cells.length
  entry : ∀ (idx : Nat) (info : CellInfo α), cells[idx]? = some info →
    ∃ current, state.cells[idx]? = some current ∧ Status order state.tmp idx info current

def Visited (state : Revisit α) (idx : Nat) : Prop :=
  ∃ current, state.cells[idx]? = some current ∧ (current.newIdx = -3 ∨ 0 ≤ current.newIdx)

/-- What a call may change: it touches only cells of rank below `reach` and numbers only cells of
rank below `limit`. -/
structure Advance (rank : Nat → Nat) (reach limit : Nat) (state next : Revisit α)
    (order nextOrder : List Nat) : Prop where
  order_le : order <+: nextOrder
  visited : ∀ idx, Visited state idx → Visited next idx
  untouched : ∀ idx, reach ≤ rank idx → next.cells[idx]? = state.cells[idx]?
  below : ∀ idx ∈ nextOrder, idx ∈ order ∨ rank idx < limit

namespace Advance

variable {rank : Nat → Nat} {reach limit : Nat} {state next last : Revisit α}
  {order nextOrder lastOrder : List Nat}

lemma refl (rank : Nat → Nat) (reach limit : Nat) (state : Revisit α) (order : List Nat) :
    Advance rank reach limit state state order order where
  order_le := prefix_rfl
  visited := fun _ seen => seen
  untouched := fun _ _ => rfl
  below := fun _ member => Or.inl member

lemma trans (first : Advance rank reach limit state next order nextOrder)
    (second : Advance rank reach limit next last nextOrder lastOrder) : Advance rank reach limit state last order lastOrder where
  order_le := first.order_le.trans second.order_le
  visited := fun idx seen => second.visited idx (first.visited idx seen)
  untouched := fun idx high => (second.untouched idx high).trans (first.untouched idx high)
  below := by
    intro idx member
    rcases second.below idx member with between | low
    · exact first.below idx between
    · exact Or.inr low

lemma mono {moreReach moreLimit : Nat}
    (advance : Advance rank reach limit state next order nextOrder) (reachLe : reach ≤ moreReach) (limitLe : limit ≤ moreLimit) :
    Advance rank moreReach moreLimit state next order nextOrder where
  order_le := advance.order_le
  visited := advance.visited
  untouched := fun idx high => advance.untouched idx (le_trans reachLe high)
  below := by
    intro idx member
    rcases advance.below idx member with old | low
    · exact Or.inl old
    · exact Or.inr (lt_of_lt_of_le low limitLe)

end Advance

section Statuses

variable {cells : List (CellInfo α)} {state : Revisit α} {order : List Nat}

lemma map_idxOf_append (more : List Nat) {refs : List Nat} (inside : ∀ ref ∈ refs, ref ∈ order) :
    refs.map (order ++ more).idxOf = refs.map order.idxOf := by
  apply map_congr_left
  intro ref member
  exact idxOf_append_of_mem (inside ref member)

variable {info : CellInfo α} {idx : Nat}

lemma renumbered_append (more : List Nat) (inside : ∀ ref ∈ info.refIdx, ref ∈ order) (newIdx : Int) :
    renumbered (order ++ more) info newIdx = renumbered order info newIdx := by
  unfold renumbered
  rw [map_idxOf_append more inside]

lemma Status.append {tmp moreTmp : List (CellInfo α)} (status : Status order tmp idx info current) (absent : idx ∉ more) :
    Status (order ++ more) (tmp ++ moreTmp) idx info current := by
  have notMore : idx ∉ order → idx ∉ order ++ more := by
    intro notOrder member
    rcases mem_append.mp member with old | new
    · exact notOrder old
    · exact absent new
  cases status with
  | waiting newIdx low notOrder => exact .waiting newIdx low (notMore notOrder)
  | visited notOrder refs =>
    rw [← renumbered_append more refs]
    exact .visited (notMore notOrder) fun ref member => mem_append_left _ (refs ref member)
  | numbered new place refs stored =>
    have inOrder : ∀ ref ∈ info.refIdx, ref ∈ order := fun ref member => mem_of_mem_take (refs ref member)
    have newInside := lt_of_getElem? place
    have storedInside := lt_of_getElem? stored
    rw [← renumbered_append more inOrder]
    refine .numbered new ?_ ?_ ?_
    · rw [getElem?_append_left newInside, place]
    · intro ref member
      rw [take_append_of_le_length (le_of_lt newInside)]
      exact refs ref member
    · rw [getElem?_append_left storedInside, stored, renumbered_append more inOrder]

section

variable (good : Good cells state order)
include good

lemma Good.lookup (inside : idx < cells.length) : ∃ info current, cells[idx]? = some info ∧ state.cells[idx]? = some current ∧
      Status order state.tmp idx info current := by
  obtain ⟨current, found, status⟩ := good.entry idx _ (getElem?_eq_getElem inside)
  exact ⟨_, current, getElem?_eq_getElem inside, found, status⟩

lemma Good.position {new : Nat} (place : order[new]? = some idx) : order.idxOf idx = new := by
  obtain ⟨newInside, same⟩ := List.getElem?_eq_some_iff.mp place
  rw [← same, good.nodup.idxOf_getElem]

lemma Good.mem_of_newIdx (inside : idx < cells.length) (found : state.cells[idx]? = some current) (high : 0 ≤ current.newIdx) :
    idx ∈ order ∧ current.newIdx = order.idxOf idx := by
  obtain ⟨info, _, _, found', status⟩ := good.lookup inside
  rw [found] at found'
  cases found'
  cases status with
  | waiting newIdx low => exact absurd high (by simp only []; omega)
  | visited => exact absurd high (by simp [renumbered])
  | numbered new place =>
    rw [good.position place]
    exact ⟨mem_of_getElem? place, rfl⟩

lemma Good.newIdx_of_mem (member : idx ∈ order) : ∃ info current, cells[idx]? = some info ∧ state.cells[idx]? = some current ∧
      current.newIdx = order.idxOf idx ∧ (∀ ref ∈ info.refIdx, ref ∈ order.take (order.idxOf idx)) ∧
      state.tmp[order.idxOf idx]? = some (renumbered order info (order.idxOf idx)) := by
  obtain ⟨info, current, original, found, status⟩ := good.lookup (good.inside idx member)
  cases status with
  | waiting _ _ absent => exact absurd member absent
  | visited absent => exact absurd member absent
  | numbered new place refs stored =>
    rw [good.position place]
    exact ⟨info, _, original, found, rfl, refs, stored⟩

lemma Good.replace (idx : Nat) {changed : List (CellInfo α)}
    (others : ∀ other, other ≠ idx → changed[other]? = state.cells[other]?) (length : changed.length = state.cells.length)
    (here : ∀ info, cells[idx]? = some info → ∃ current, changed[idx]? = some current ∧ Status order state.tmp idx info current) :
    Good cells { state with cells := changed } order where
  nodup := good.nodup
  tmp_length := good.tmp_length
  cells_length := length.trans good.cells_length
  inside := good.inside
  entry := by
    intro other info original
    by_cases same : other = idx
    · subst same
      exact here info original
    · obtain ⟨current, found, status⟩ := good.entry other info original
      exact ⟨current, (others other same).trans found, status⟩

lemma Good.previsited (found : state.cells[idx]? = some current) (unvisited : current.newIdx = -1) :
    Good cells (state.setNewIdx idx (-2)) order := by
  apply good.replace idx
  · intro other different
    exact setNewIdx_other different _
  · exact length_modify ..
  · intro info original
    obtain ⟨current', found', status⟩ := good.entry idx info original
    rw [found] at found'
    cases found'
    refine ⟨{ current with newIdx := -2 }, setNewIdx_self found _, ?_⟩
    cases status with
    | waiting newIdx low absent => exact .waiting (-2) (Or.inr rfl) absent
    | visited => cases unvisited
    | numbered => cases unvisited

lemma Good.visit (original : cells[idx]? = some info) (absent : idx ∉ order) (refs : ∀ ref ∈ info.refIdx, ref ∈ order) :
    Good cells ((state.setRefIdx idx (info.refIdx.map order.idxOf)).setNewIdx idx (-3)) order ∧
      Visited ((state.setRefIdx idx (info.refIdx.map order.idxOf)).setNewIdx idx (-3)) idx := by
  obtain ⟨current, found, status⟩ := good.entry idx info original
  have now : ((state.setRefIdx idx (info.refIdx.map order.idxOf)).setNewIdx idx (-3)).cells[idx]? =
      some (renumbered order info (-3)) := by
    rw [setNewIdx_self (setRefIdx_self found _)]
    cases status with
    | waiting => rfl
    | visited => rfl
    | numbered => rfl
  refine ⟨?_, _, now, Or.inl rfl⟩
  apply good.replace idx
  · intro other different
    exact (setNewIdx_other different _).trans (setRefIdx_other different _)
  · simp [setRefIdx]
  · intro info' original'
    rw [original] at original'
    cases original'
    exact ⟨_, now, .visited absent refs⟩

lemma Good.allocate (inside : idx < cells.length) (found : state.cells[idx]? = some current) (visited : current.newIdx = -3) :
    (state.allocate idx current).1 = order.length ∧ Good cells (state.allocate idx current).2 (order ++ [idx]) := by
  obtain ⟨info, current', original, found', status⟩ := good.lookup inside
  rw [found] at found'
  cases found'
  cases status with
  | waiting newIdx low =>
    simp only [] at visited
    omega
  | numbered new =>
    simp only [renumbered] at visited
    omega
  | visited absent refs =>
    have place : (order ++ [idx])[order.length]? = some idx := by simp
    have earlier : ∀ ref ∈ info.refIdx, ref ∈ (order ++ [idx]).take order.length := by
      intro ref member
      rw [take_left]
      exact refs ref member
    have stored : renumbered (order ++ [idx]) info order.length =
        renumbered order info order.length := renumbered_append [idx] refs _
    have counted : (state.tmp.length : Int) = (order.length : Int) := by rw [good.tmp_length]
    refine ⟨counted, ?_⟩
    unfold allocate setNewIdx
    rw [counted]
    constructor
    · exact nodup_append.mpr ⟨good.nodup, nodup_singleton idx, by
        intro old member new isNew same
        rw [mem_singleton] at isNew
        subst isNew same
        exact absent member⟩
    · simp [good.tmp_length]
    · simp [good.cells_length]
    · exact forall_mem_append.mpr ⟨good.inside, forall_mem_singleton.mpr inside⟩
    · intro other otherInfo otherOriginal
      by_cases same : other = idx
      · subst same
        rw [original] at otherOriginal
        cases otherOriginal
        refine ⟨renumbered order info order.length, ?_, ?_⟩
        · simp [found, renumbered]
        · rw [← stored]
          refine .numbered order.length place earlier ?_
          rw [stored, ← good.tmp_length]
          simp [renumbered]
      · obtain ⟨otherCurrent, otherFound, otherStatus⟩ := good.entry other otherInfo otherOriginal
        refine ⟨otherCurrent, ?_, otherStatus.append (by simpa using same)⟩
        exact (setNewIdx_other same _).trans otherFound

end

end Statuses

section Calls

variable {cells : List (CellInfo α)} {rank : Nat → Nat} {state : Revisit α} {order : List Nat}
variable {idx fuel : Nat} {roots : List Nat}

lemma Advance.change {changed tmp : List (CellInfo α)}
    (others : ∀ other, other ≠ idx → changed[other]? = state.cells[other]?)
    (here : Visited state idx → Visited { cells := changed, tmp := tmp } idx) {limit : Nat}
    (below : ∀ new ∈ more, rank new < limit) :
    Advance rank (rank idx + 1) limit state { cells := changed, tmp := tmp } order
      (order ++ more) where
  order_le := prefix_append order more
  visited := by
    intro other seen
    by_cases same : other = idx
    · subst same
      exact here seen
    · obtain ⟨current, found, late⟩ := seen
      exact ⟨current, (others other same).trans found, late⟩
  untouched := by
    intro other high
    apply others
    intro same
    subst same
    omega
  below := by
    intro other member
    rcases mem_append.mp member with old | new
    · exact Or.inl old
    · exact Or.inr (below other new)

/-- A call that ends in a state that agrees with the order and has `reached` what it is for. -/
def Reaches (cells : List (CellInfo α)) (rank : Nat → Nat) (reach limit : Nat)
    (state : Revisit α) (order : List Nat) (call : Except BocError (Int × Revisit α))
    (reached : Int → Revisit α → List Nat → Prop) : Prop :=
  ∃ newIdx next nextOrder, call = .ok (newIdx, next) ∧ Good cells next nextOrder ∧
    Advance rank reach limit state next order nextOrder ∧ reached newIdx next nextOrder

lemma Reaches.mono {reach limit moreReach moreLimit : Nat} {call : Except BocError (Int × Revisit α)}
    {reached moreReached : Int → Revisit α → List Nat → Prop} (reaches : Reaches cells rank reach limit state order call reached)
    (reachLe : reach ≤ moreReach) (limitLe : limit ≤ moreLimit)
    (implies : ∀ newIdx next nextOrder, reached newIdx next nextOrder → moreReached newIdx next nextOrder) :
    Reaches cells rank moreReach moreLimit state order call moreReached := by
  obtain ⟨newIdx, next, nextOrder, called, good, advance, done⟩ := reaches
  exact ⟨newIdx, next, nextOrder, called, good, advance.mono reachLe limitLe, implies _ _ _ done⟩

lemma revisit_numbered (found : state.cells[idx]? = some current)
    (high : 0 ≤ current.newIdx) (fuel force : Nat) : revisit (fuel + 1) state idx force = .ok (current.newIdx, state) := by
  rw [revisit, found]
  simp only [ge_iff_le, high, ↓reduceIte]

lemma revisit_two (good : Good cells state order) (inside : idx < cells.length) (seen : Visited state idx) (fuel : Nat) :
    Reaches cells rank (rank idx + 1) (rank idx + 1) state order (revisit (fuel + 1) state idx 2)
      fun newIdx _ nextOrder => idx ∈ nextOrder ∧ newIdx = nextOrder.idxOf idx := by
  obtain ⟨current, found, late⟩ := seen
  by_cases high : 0 ≤ current.newIdx
  · obtain ⟨member, position⟩ := good.mem_of_newIdx inside found high
    exact ⟨_, state, order, revisit_numbered found high fuel 2, good, Advance.refl .., member, position⟩
  have visited : current.newIdx = -3 := by omega
  obtain ⟨position, nextGood⟩ := good.allocate inside found visited
  have absent : idx ∉ order := by
    intro member
    obtain ⟨_, current', _, found', newIdx, _⟩ := good.newIdx_of_mem member
    rw [found] at found'
    cases found'
    omega
  refine ⟨(state.allocate idx current).1, (state.allocate idx current).2, order ++ [idx], ?_, nextGood, ?_, ?_⟩
  · rw [revisit, found]
    simp only [ge_iff_le, high, ↓reduceIte]
  · apply Advance.change
    · intro other different
      exact setNewIdx_other different _
    · intro _
      exact ⟨_, setNewIdx_self found _, Or.inr (Int.natCast_nonneg _)⟩
    · intro new isNew
      rw [mem_singleton.mp isNew]
      exact lt_succ_self _
  · refine ⟨by simp, ?_⟩
    rw [position, idxOf_append_of_notMem absent]
    simp

/-- The same call for each child in turn. What is `reached` for one child is kept by the calls for
the others. -/
lemma foldlM_reaches {call : Revisit α → Nat → Except BocError (Int × Revisit α)} {reach : Nat}
    {reached : Revisit α → List Nat → Nat → Prop} (stable : ∀ {state next : Revisit α} {order nextOrder : List Nat} {idx : Nat},
      Advance rank reach reach state next order nextOrder → reached state order idx → reached next nextOrder idx)
    {children : List Nat} (each : ∀ child ∈ children, ∀ (next : Revisit α) (nextOrder : List Nat),
      Good cells next nextOrder → Advance rank reach reach state next order nextOrder →
        Reaches cells rank reach reach next nextOrder (call next child) fun _ last lastOrder => reached last lastOrder child)
    (good : Good cells state order) : ∃ next nextOrder,
      children.foldlM (fun state child => (call state child).map Prod.snd) state = .ok next ∧
        Good cells next nextOrder ∧ Advance rank reach reach state next order nextOrder ∧
        ∀ child ∈ children, reached next nextOrder child := by
  induction children generalizing state order with
  | nil => exact ⟨state, order, rfl, good, Advance.refl .., by simp⟩
  | cons child rest ih =>
    obtain ⟨newIdx, next, nextOrder, called, nextGood, advance, here⟩ := each child (by simp) state order good (Advance.refl ..)
    obtain ⟨last, lastOrder, run, lastGood, lastAdvance, others⟩ :=
      ih (fun other member final finalOrder finalGood finalAdvance =>
        each other (by simp [member]) final finalOrder finalGood (advance.trans finalAdvance))
        nextGood
    refine ⟨last, lastOrder, ?_, lastGood, advance.trans lastAdvance, ?_⟩
    · rw [foldlM_cons, called]
      exact run
    · exact forall_mem_cons.mpr ⟨stable lastAdvance here, others⟩

lemma foldlM_allocate {reach : Nat} {children : List Nat} (inside : ∀ child ∈ children, child < cells.length)
    (lower : ∀ child ∈ children, rank child < reach)
    (seen : ∀ child ∈ children, Visited state child) (good : Good cells state order) (collected : List Nat) : ∃ next nextOrder,
      children.foldlM (fun (collected : List Nat × Revisit α) child =>
          (revisit (fuel + 1) collected.2 child 2).map fun (newIdx, state) =>
            (newIdx.toNat :: collected.1, state)) (collected, state) =
        .ok ((children.map nextOrder.idxOf).reverse ++ collected, next) ∧
      Good cells next nextOrder ∧ Advance rank reach reach state next order nextOrder ∧
      ∀ child ∈ children, child ∈ nextOrder := by
  induction children generalizing state order collected with
  | nil => exact ⟨state, order, rfl, good, Advance.refl .., by simp⟩
  | cons child rest ih =>
    obtain ⟨newIdx, next, nextOrder, called, nextGood, advance, member, position⟩ :=
      @revisit_two _ _ rank _ _ child good (inside child (by simp)) (seen child (by simp)) fuel
    have low := lower child (by simp)
    have advance := advance.mono low (show _ ≤ reach from low)
    obtain ⟨last, lastOrder, run, lastGood, lastAdvance, others⟩ := ih (forall_mem_cons.mp inside).2
        (forall_mem_cons.mp lower).2 (fun other later => advance.visited other (seen other (by simp [later])))
        nextGood (newIdx.toNat :: collected)
    obtain ⟨more, moreOrder⟩ := lastAdvance.order_le
    have number : newIdx.toNat = lastOrder.idxOf child := by
      rw [position, ← moreOrder, idxOf_append_of_mem member]
      rfl
    refine ⟨last, lastOrder, ?_, lastGood, advance.trans lastAdvance, ?_⟩
    · rw [foldlM_cons, called]
      refine run.trans ?_
      rw [number]
      simp
    · exact forall_mem_cons.mpr ⟨lastAdvance.order_le.subset member, others⟩

section

variable (ranked : Ranked cells rank)
include ranked

lemma revisit_zero (inside : idx < cells.length) (good : Good cells state order)
    (children : ∀ force ≤ 1, ∀ child < cells.length, rank child < rank idx →
      ∀ (state : Revisit α) (order : List Nat), Good cells state order →
      Reaches cells rank (rank idx) (rank idx) state order (revisit fuel state child force) fun _ _ _ => True) :
    Reaches cells rank (rank idx + 1) (rank idx) state order (revisit (fuel + 1) state idx 0) fun _ _ _ => True := by
  obtain ⟨info, current, original, found, status⟩ := good.lookup inside
  by_cases high : 0 ≤ current.newIdx
  · exact ⟨_, state, order, revisit_numbered found high fuel 0, good, Advance.refl .., trivial⟩
  by_cases unvisited : current.newIdx = -1
  · have sameRefs : current.refIdx = info.refIdx := by
      cases status with
      | waiting => rfl
      | visited => cases unvisited
      | numbered => cases unvisited
    have each : ∀ child ∈ info.refIdx.reverse, ∀ (next : Revisit α) (nextOrder : List Nat),
        Good cells next nextOrder →
          Advance rank (rank idx) (rank idx) state next order nextOrder →
            Reaches cells rank (rank idx) (rank idx) next nextOrder
              (revisit fuel next child (next.isSpecialAt child).toNat) fun _ _ _ => True := by
      intro child member next nextOrder nextGood _
      have isRef := mem_reverse.mp member
      exact children _ (Bool.toNat_le _) child (ranked.inside idx info original child isRef)
        (ranked.lower idx info original child isRef) next nextOrder nextGood
    obtain ⟨next, nextOrder, run, nextGood, advance, _⟩ := foldlM_reaches (fun _ _ => trivial) each good
    have still : next.cells[idx]? = some current := (advance.untouched idx (le_refl _)).trans found
    have change : Advance rank (rank idx + 1) (rank idx) next (next.setNewIdx idx (-2)) nextOrder
        (nextOrder ++ []) := by
      apply Advance.change
      · intro other different
        exact setNewIdx_other different _
      · intro seen
        obtain ⟨current', found', late⟩ := seen
        rw [still] at found'
        cases found'
        omega
      · simp
    rw [append_nil] at change
    refine ⟨-2, _, nextOrder, ?_, nextGood.previsited still unvisited,
      (advance.mono (le_succ _) (le_refl _)).trans change, trivial⟩
    rw [revisit, found]
    simp only []
    rw [if_neg high]
    simp only [↓reduceIte, unvisited, ne_eq, not_true_eq_false, sameRefs, run, Lib.ok_bind]
  · refine ⟨current.newIdx, state, order, ?_, good, Advance.refl .., trivial⟩
    rw [revisit, found]
    simp only [ge_iff_le, high, ↓reduceIte, ne_eq, unvisited, not_false_eq_true]

lemma revisit_one (inside : idx < cells.length) (good : Good cells state order)
    (itself : Reaches cells rank (rank idx + 1) (rank idx) state order (revisit (fuel + 1) state idx 0) fun _ _ _ => True)
    (children : ∀ child < cells.length, rank child < rank idx → ∀ (state : Revisit α) (order : List Nat), Good cells state order →
      Reaches cells rank (rank idx) (rank idx) state order (revisit (fuel + 1) state child 1) fun _
      next _ => Visited next child) : Reaches cells rank (rank idx + 1) (rank idx) state order (revisit (fuel + 2) state idx 1)
      fun _ next _ => Visited next idx := by
  obtain ⟨info, current, original, found, status⟩ := good.lookup inside
  by_cases high : 0 ≤ current.newIdx
  · exact ⟨_, state, order, revisit_numbered found high (fuel + 1) 1, good, Advance.refl .., current, found, Or.inr high⟩
  by_cases visited : current.newIdx = -3
  · refine ⟨-3, state, order, ?_, good, Advance.refl .., current, found, Or.inl visited⟩
    rw [revisit, found]
    simp only []
    rw [if_neg high, if_pos visited]
  · obtain ⟨sameRefs, absent⟩ : current.refIdx = info.refIdx ∧ idx ∉ order := by
      cases status with
      | waiting newIdx low absent => exact ⟨rfl, absent⟩
      | visited => exact absurd rfl visited
      | numbered => exact absurd (Int.natCast_nonneg _) high
    have refsInside := fun ref (member : ref ∈ info.refIdx.reverse) =>
      ranked.inside idx info original ref (mem_reverse.mp member)
    have refsLower := fun ref (member : ref ∈ info.refIdx.reverse) =>
      ranked.lower idx info original ref (mem_reverse.mp member)
    obtain ⟨first, firstOrder, firstRun, firstGood, firstAdvance⟩ : ∃ first firstOrder,
        (if current.isSpecial then (revisit (fuel + 1) state idx 0).map Prod.snd
          else .ok state) = .ok first ∧ Good cells first firstOrder ∧
          Advance rank (rank idx + 1) (rank idx) state first order firstOrder := by
      split
      · obtain ⟨newIdx, next, nextOrder, called, nextGood, advance, _⟩ := itself
        exact ⟨next, nextOrder, by rw [called]; rfl, nextGood, advance⟩
      · exact ⟨state, order, rfl, good, Advance.refl ..⟩
    obtain ⟨second, secondOrder, secondRun, secondGood, secondAdvance, seen⟩ :=
      @foldlM_reaches _ _ _ _ _ (fun state child => revisit (fuel + 1) state child 1) _
        (fun state _ child => Visited state child) (fun advance seen => advance.visited _ seen) _
        (fun child member next nextOrder nextGood _ =>
          children child (refsInside child member) (refsLower child member) next nextOrder nextGood)
        firstGood
    obtain ⟨third, thirdOrder, thirdRun, thirdGood, thirdAdvance, numbered⟩ :=
      @foldlM_allocate _ _ _ _ _ fuel _ _ refsInside refsLower seen secondGood []
    have later := (secondAdvance.trans thirdAdvance).mono (le_succ (rank idx)) (le_refl _)
    have advance := firstAdvance.trans later
    have stillAbsent : idx ∉ thirdOrder := by
      intro member
      rcases advance.below idx member with old | low
      · exact absent old
      · exact lt_irrefl _ low
    have refs : ∀ ref ∈ info.refIdx, ref ∈ thirdOrder := fun ref member => numbered ref (mem_reverse.mpr member)
    obtain ⟨lastGood, lastVisited⟩ := thirdGood.visit original stillAbsent refs
    have change : Advance rank (rank idx + 1) (rank idx) third
        ((third.setRefIdx idx (info.refIdx.map thirdOrder.idxOf)).setNewIdx idx (-3)) thirdOrder
        (thirdOrder ++ []) := by
      apply Advance.change
      · intro other different
        exact (setNewIdx_other different _).trans (setRefIdx_other different _)
      · intro _
        exact lastVisited
      · simp
    rw [append_nil] at change
    refine ⟨-3, _, thirdOrder, ?_, lastGood, advance.trans change, lastVisited⟩
    rw [← map_reverse, reverse_reverse, append_nil] at thirdRun
    rw [revisit, found]
    simp only [ge_iff_le, high, visited, ↓reduceIte, sameRefs, firstRun, Lib.ok_bind, secondRun]
    rw [thirdRun]
    rfl

/-- A previsit returns, and a visit leaves the cell visited. The induction is on the fuel; a
cell needs two calls more than those of lower rank. -/
lemma revisit_spec (fuel : Nat) (inside : idx < cells.length) (good : Good cells state order) : (2 * rank idx + 1 ≤ fuel →
      Reaches cells rank (rank idx + 1) (rank idx) state order (revisit fuel state idx 0) fun _ _ _ => True) ∧
    (2 * rank idx + 2 ≤ fuel → Reaches cells rank (rank idx + 1) (rank idx) state order (revisit fuel state idx 1)
        fun _ next _ => Visited next idx) := by
  induction fuel generalizing state order idx with
  | zero =>
    constructor
    · intro impossible
      omega
    · intro impossible
      omega
  | succ fuel ih =>
    have visitChild : 2 * rank idx ≤ fuel → ∀ child < cells.length, rank child < rank idx →
        ∀ (state : Revisit α) (order : List Nat), Good cells state order →
          Reaches cells rank (rank idx) (rank idx) state order (revisit fuel state child 1)
            fun _ next _ => Visited next child := by
      intro enough child childInside low state order good
      exact ((ih childInside good).2 (by omega)).mono low (le_of_lt low) fun _ _ _ => id
    have anyChild : 2 * rank idx ≤ fuel → ∀ force ≤ 1, ∀ child < cells.length,
        rank child < rank idx → ∀ (state : Revisit α) (order : List Nat),
          Good cells state order →
            Reaches cells rank (rank idx) (rank idx) state order (revisit fuel state child force)
              fun _ _ _ => True := by
      intro enough force small child childInside low state order good
      obtain zero | one : force = 0 ∨ force = 1 := by omega
      · subst zero
        exact ((ih childInside good).1 (by omega)).mono low (le_of_lt low) fun _ _ _ => id
      · subst one
        exact (visitChild enough child childInside low state order good).mono (le_refl _) (le_refl _) fun _ _ _ _ => trivial
    constructor
    · intro enough
      exact revisit_zero ranked inside good (anyChild (by omega))
    · intro enough
      obtain ⟨less, fuelEq⟩ : ∃ less, fuel = less + 1 := ⟨fuel - 1, by omega⟩
      subst fuelEq
      exact revisit_one ranked inside good ((ih inside good).1 (by omega)) (visitChild (by omega))

end

/-- The cells in a new order, in which each comes after everything it refers to. -/
structure Reordering (cells : List (CellInfo α)) (order : List Nat) (result : List (CellInfo α)) :
    Prop where
  perm : order.Perm (List.range cells.length)
  length : result.length = order.length
  entry : ∀ (new old : Nat) (info : CellInfo α), order[new]? = some old → cells[old]? = some info →
    result[new]? = some (renumbered order info new)
  earlier : ∀ (new old : Nat) (info : CellInfo α), order[new]? = some old →
    cells[old]? = some info → ∀ ref ∈ info.refIdx, order.idxOf ref < new

lemma Ranked.start (ranked : Ranked cells rank) : Good cells { cells, tmp := [] } [] where
  nodup := nodup_nil
  tmp_length := rfl
  cells_length := rfl
  inside := by simp
  entry := by
    intro idx info found
    have fresh := ranked.fresh info (mem_of_getElem? found)
    have same : { info with newIdx := -1 } = info := by rw [← fresh]
    refine ⟨info, found, ?_⟩
    have status : Status [] [] idx info { info with newIdx := -1 } := .waiting (-1) (Or.inl rfl) (by simp)
    rwa [same] at status

lemma Good.all_numbered (good : Good cells state order) (ranked : Ranked cells rank) (rootsIn : ∀ root ∈ roots, root ∈ order)
    (covered : ∀ idx < cells.length, idx ∈ roots ∨ ∃ (parent : Nat) (info : CellInfo α),
      cells[parent]? = some info ∧ idx ∈ info.refIdx)
    {bound : Nat} (deep : ∀ idx < cells.length, rank idx ≤ bound) (inside : idx < cells.length) : idx ∈ order := by
  -- A cell that is not a root is below one of higher rank, so the induction is on what is left
  -- above it.
  induction above : bound - rank idx using Nat.strong_induction_on generalizing idx with
  | _ above ih =>
    rcases covered idx inside with root | ⟨parent, info, found, isRef⟩
    · exact rootsIn idx root
    have parentInside := lt_of_getElem? found
    have lower := ranked.lower parent info found idx isRef
    have limit := deep parent parentInside
    have member := ih (bound - rank parent) (by omega) parentInside rfl
    obtain ⟨info', _, found', _, _, refs, _⟩ := good.newIdx_of_mem member
    rw [found] at found'
    cases found'
    exact mem_of_mem_take (refs idx isRef)

lemma Good.reordering (good : Good cells state order)
    (all : ∀ idx < cells.length, idx ∈ order) : Reordering cells order state.tmp where
  perm := by
    apply (perm_ext_iff_of_nodup good.nodup nodup_range).mpr
    intro idx
    rw [mem_range]
    exact ⟨good.inside idx, all idx⟩
  length := good.tmp_length
  entry := by
    intro new old info place found
    obtain ⟨info', _, found', _, _, _, stored⟩ := good.newIdx_of_mem (mem_of_getElem? place)
    rw [found] at found'
    cases found'
    rwa [good.position place] at stored
  earlier := by
    intro new old info place found ref isRef
    obtain ⟨info', _, found', _, _, refs, _⟩ := good.newIdx_of_mem (mem_of_getElem? place)
    rw [found] at found'
    cases found'
    have early := refs ref isRef
    rw [good.position place] at early
    have low := (List.IsPrefix.mem_iff_idxOf_lt_length (List.take_prefix new order) ref).mp early
    rw [length_take] at low
    omega

structure Numbered (cells : List (CellInfo α)) (order : List Nat) (current : List (CellInfo α)) :
    Prop where
  length : current.length = cells.length
  entry : ∀ (idx : Nat) (info : CellInfo α), cells[idx]? = some info →
    current[idx]? = some (renumbered order info (order.idxOf idx))

lemma Good.numbered (good : Good cells state order)
    (all : ∀ idx < cells.length, idx ∈ order) : Numbered cells order state.cells where
  length := good.cells_length
  entry := by
    intro idx info original
    have inside := lt_of_getElem? original
    obtain ⟨current, found, status⟩ := good.entry idx info original
    cases status with
    | waiting _ _ absent | visited absent => exact absurd (all idx inside) absent
    | numbered new place _ _ =>
      rw [good.position place]
      exact found

lemma Numbered.newIdxAt_eq {current : List (CellInfo α)} (numbered : Numbered cells order current)
    (inside : idx < cells.length) : newIdxAt current idx = order.idxOf idx := by
  unfold newIdxAt
  rw [numbered.entry idx _ (getElem?_eq_getElem inside)]
  rfl

lemma revisitRoots_ok (ranked : Ranked cells rank) (deep : ∀ idx < cells.length, rank idx ≤ Cell.maxDepth)
    (rootsInside : ∀ root ∈ roots, root < cells.length) (covered : ∀ idx < cells.length, idx ∈ roots ∨
      ∃ (parent : Nat) (info : CellInfo α), cells[parent]? = some info ∧ idx ∈ info.refIdx) :
    ∃ state order, revisitRoots cells roots = .ok state ∧ Reordering cells order state.tmp ∧
      Numbered cells order state.cells := by
  have visitEq : visitRoot = fun (state : Revisit α) idx =>
      ((revisit revisitFuel state idx 0 >>= fun result =>
        revisit revisitFuel result.2 idx 1).map Prod.snd) := by
    funext state idx
    unfold visitRoot
    cases revisit revisitFuel state idx 0 with
    | error failure => rfl
    | ok result =>
      simp only [Lib.ok_bind]
      cases revisit revisitFuel result.2 idx 1 with
      | error failure => rfl
      | ok last => rfl
  have allocateEq : allocateRoot = fun (state : Revisit α) idx =>
      ((revisit revisitFuel state idx 2).map Prod.snd) := by
    funext state idx
    unfold allocateRoot
    cases revisit revisitFuel state idx 2 with
    | error failure => rfl
    | ok last => rfl
  have fuel : ∀ idx < cells.length, 2 * rank idx + 2 ≤ revisitFuel := by
    intro idx inside
    have limit := deep idx inside
    unfold revisitFuel
    omega
  obtain ⟨visited, visitedOrder, visitRun, visitedGood, _, seen⟩ :=
    @foldlM_reaches _ cells rank _ _
      (fun state idx => revisit revisitFuel state idx 0 >>= fun result =>
        revisit revisitFuel result.2 idx 1) (Cell.maxDepth + 1)
      (fun state _ root => Visited state root) (fun advance seen => advance.visited _ seen) roots
      (fun root member state order good _ => by
        have inside := rootsInside root member
        have enough := fuel root inside
        have limit := deep root inside
        obtain ⟨_, next, nextOrder, called, nextGood, advance, _⟩ := (revisit_spec ranked revisitFuel inside good).1 (by omega)
        obtain ⟨newIdx, last, lastOrder, lastCalled, lastGood, lastAdvance, reached⟩ :=
          (revisit_spec ranked revisitFuel inside nextGood).2 enough
        refine ⟨newIdx, last, lastOrder, ?_, lastGood, ?_, reached⟩
        · rw [called]
          exact lastCalled
        · exact (advance.trans lastAdvance).mono (by omega) (by omega))
      ranked.start
  obtain ⟨state, order, allocateRun, good, _, numbered⟩ :=
    @foldlM_reaches _ cells rank _ _ (fun state idx => revisit revisitFuel state idx 2)
      (Cell.maxDepth + 1) (fun _ order root => root ∈ order)
      (fun advance member => advance.order_le.subset member) roots
      (fun root member next nextOrder nextGood advance => by
        have inside := rootsInside root member
        have limit := deep root inside
        exact (revisit_two nextGood inside (advance.visited root (seen root member)) (2 * Cell.maxDepth + 1)).mono
          (by omega) (by omega) fun _ _ _ => And.left)
      visitedGood
  have all : ∀ idx < cells.length, idx ∈ order := fun idx inside => good.all_numbered ranked numbered covered deep inside
  have reordering := good.reordering all
  refine ⟨state, order, ?_, reordering, good.numbered all⟩
  have counted : state.tmp.length = cells.length := by
    rw [reordering.length, reordering.perm.length_eq, length_range]
  unfold revisitRoots
  rw [visitEq, visitRun, Lib.ok_bind, allocateEq, allocateRun, Lib.ok_bind]
  simp [check, counted]

end Calls

end TonNode.Vm.Boc
