import TonNode.Db.CellGraph

/-!
# Counting references in a batch

A batch lies over the stored counts. Raising the count of a root, and lowering it again, keeps the
counts equal to what is owed plus the references among the counted cells.
-/

namespace TonNode.Db

open Vm Lib Info
open List hiding lookup

variable {sha : Sha256} {known : DataCell → Prop} {stored : List CellInfo} {batch : List Info}

def storedCount (stored : List CellInfo) (hash : CellHash) : Int :=
  ((lookup CellInfo.key stored hash).map CellInfo.dbRefcnt).getD 0

def batchCount (stored : List CellInfo) (batch : List Info) (hash : CellHash) : Int :=
  ((lookup key batch hash).map fun info => info.dbRefcnt + info.diffRefcnt).getD (storedCount stored hash)

structure StoredCells (known : DataCell → Prop) (stored : List CellInfo) : Prop where
  keyed : Keyed CellInfo.key stored
  known : ∀ info ∈ stored, known info.cell
  positive : ∀ info ∈ stored, 0 < info.dbRefcnt
  few : ∀ info ∈ stored, info.dbRefcnt + 1 < 2 ^ 31

structure Batch (known : DataCell → Prop) (stored : List CellInfo) (batch : List Info) : Prop where
  keyed : Keyed key batch
  known : ∀ info ∈ batch, known info.cell
  dbRefcnt : ∀ info ∈ batch, info.dbRefcnt = storedCount stored info.key

lemma Batch.nil (known : DataCell → Prop) (stored : List CellInfo) : Batch known stored [] where
  keyed := nodup_nil
  known := fun _ member => absurd member not_mem_nil
  dbRefcnt := fun _ member => absurd member not_mem_nil

@[simp] lemma batchCount_nil (stored : List CellInfo) :
    batchCount stored [] = storedCount stored := rfl

variable {hash : CellHash} {info : Info}

lemma batchCount_some (found : lookup key batch hash = some info) :
    batchCount stored batch hash = info.dbRefcnt + info.diffRefcnt := by
  simp [batchCount, found]

lemma batchCount_none (absent : lookup key batch hash = none) :
    batchCount stored batch hash = storedCount stored hash := by
  simp [batchCount, absent]

lemma storedCount_some {info : CellInfo} (found : lookup CellInfo.key stored hash = some info) :
    storedCount stored hash = info.dbRefcnt := by
  simp [storedCount, found]

lemma storedCount_none (absent : lookup CellInfo.key stored hash = none) : storedCount stored hash = 0 := by
  simp [storedCount, absent]

namespace StoredCells

lemma count_nonneg (cells : StoredCells known stored) (hash : CellHash) : 0 ≤ storedCount stored hash := by
  cases found : lookup CellInfo.key stored hash with
  | none => rw [storedCount_none found]
  | some info =>
    rw [storedCount_some found]
    exact (cells.positive info (lookup_some found).1).le

lemma count_few (cells : StoredCells known stored) (hash : CellHash) : storedCount stored hash + 1 < 2 ^ 31 := by
  cases found : lookup CellInfo.key stored hash with
  | none =>
    rw [storedCount_none found]
    decide
  | some info =>
    rw [storedCount_some found]
    exact cells.few info (lookup_some found).1

lemma lookup_of_count (cells : StoredCells known stored)
    (zero : storedCount stored hash = 0) : lookup CellInfo.key stored hash = none := by
  cases found : lookup CellInfo.key stored hash with
  | none => rfl
  | some info =>
    have positive := cells.positive info (lookup_some found).1
    rw [storedCount_some found] at zero
    omega

end StoredCells

lemma lookup_addDiff (batch : List Info) (hash : CellHash) (change : Int) (other : CellHash) :
    lookup key (addDiff batch hash change) other =
      if other = hash then (lookup key batch hash).map (addRefcnt change) else lookup key batch other :=
  @lookup_change _ _ _ key hash (addRefcnt change) (fun _ isWanted => isWanted) batch
    other

lemma Batch.addDiff (valid : Batch known stored batch) (hash : CellHash) (change : Int) :
    Batch known stored (addDiff batch hash change) where
  keyed := valid.keyed.change fun _ _ => rfl
  known := by
    intro info member
    rcases mem_change member with ⟨before, beforeMember, _, rfl⟩ | ⟨isOld, _⟩
    · exact valid.known before beforeMember
    · exact valid.known info isOld
  dbRefcnt := by
    intro info member
    rcases mem_change member with ⟨before, beforeMember, _, rfl⟩ | ⟨isOld, _⟩
    · exact valid.dbRefcnt before beforeMember
    · exact valid.dbRefcnt info isOld

lemma batchCount_addDiff (found : lookup key batch hash = some info) (change : Int) (other : CellHash) :
    batchCount stored (addDiff batch hash change) other = batchCount stored batch other + change * one hash other := by
  by_cases same : other = hash
  · subst same
    simp only [batchCount, lookup_addDiff, found, if_true, Option.map_some, Option.getD_some, one_self, addRefcnt]
    omega
  · simp [batchCount, lookup_addDiff, same, one_of_ne same]

lemma emplace_of_none (info : Info) (absent : lookup key batch info.cell.reprHash = none) :
    emplace batch info = batch ++ [info] := by
  have absentKey : lookup key batch info.key = none := absent
  unfold emplace
  rw [absentKey]

lemma lookup_emplace (info : Info) (absent : lookup key batch info.cell.reprHash = none) (other : CellHash) :
    lookup key (emplace batch info) other =
      if other = info.cell.reprHash then some info else lookup key batch other := by
  rw [emplace_of_none info absent]
  exact lookup_append_new absent other

lemma Batch.emplace (valid : Batch known stored batch) (info : Info) (isKnown : known info.cell)
    (absent : lookup key batch info.cell.reprHash = none)
    (fromStore : info.dbRefcnt = storedCount stored info.cell.reprHash) : Batch known stored (emplace batch info) := by
  rw [emplace_of_none info absent]
  refine ⟨valid.keyed.append absent, ?_, ?_⟩
  · exact forall_mem_append.mpr ⟨valid.known, forall_mem_singleton.mpr isKnown⟩
  · exact forall_mem_append.mpr ⟨valid.dbRefcnt, forall_mem_singleton.mpr fromStore⟩

lemma batchCount_emplace (info : Info) (absent : lookup key batch info.cell.reprHash = none)
    (fromStore : info.dbRefcnt = storedCount stored info.cell.reprHash) (other : CellHash) :
    batchCount stored (emplace batch info) other =
      batchCount stored batch other + info.diffRefcnt * one info.cell.reprHash other := by
  by_cases same : other = info.cell.reprHash
  · subst same
    rw [batchCount_none absent]
    simp [batchCount, lookup_emplace info absent, fromStore]
  · simp [batchCount, lookup_emplace info absent, same, one_of_ne same]

/-- While counts are raised, every cell of the batch is counted. -/
structure Raising (known : DataCell → Prop) (stored : List CellInfo) (batch : List Info)
    (live : Finset CellHash) (owed : CellHash → Int) : Prop where
  valid : Batch known stored batch
  positive : ∀ info ∈ batch, 0 < info.dbRefcnt + info.diffRefcnt
  counted : Counted (refHashes known) live (batchCount stored batch) owed

variable {live : Finset CellHash} {owed : CellHash → Int} {cell : DataCell}

lemma Raising.known_again (raising : Raising known stored batch live owed) (found : lookup key batch hash = some info) :
    Raising known stored (addDiff batch hash 1) live (owed + one hash) where
  valid := raising.valid.addDiff hash 1
  positive := by
    intro other member
    rcases mem_change member with ⟨before, beforeMember, _, rfl⟩ | ⟨isOld, _⟩
    · have counted := raising.positive before beforeMember
      show 0 < before.dbRefcnt + (before.diffRefcnt + 1)
      omega
    · exact raising.positive other isOld
  counted := by
    have isLive : hash ∈ live := by
      rw [raising.counted.mem_iff, batchCount_some found]
      exact raising.positive info (lookup_some found).1
    have counts : batchCount stored (addDiff batch hash 1) =
        batchCount stored batch + one hash := by
      funext other
      rw [batchCount_addDiff found, Int.one_mul]
      rfl
    rw [counts]
    exact raising.counted.retain isLive

lemma Raising.enter (raising : Raising known stored batch live owed) (info : Info)
    (isKnown : known info.cell) (absent : lookup key batch info.cell.reprHash = none)
    (fromStore : info.dbRefcnt = storedCount stored info.cell.reprHash)
    (nonneg : 0 ≤ info.dbRefcnt) (once : info.diffRefcnt = 1) {nextLive : Finset CellHash} {nextOwed : CellHash → Int}
    (counted : Counted (refHashes known) nextLive (batchCount stored batch + one info.cell.reprHash) nextOwed) :
    Raising known stored (emplace batch info) nextLive nextOwed where
  valid := raising.valid.emplace info isKnown absent fromStore
  positive := by
    rw [emplace_of_none info absent]
    exact forall_mem_append.mpr ⟨raising.positive, forall_mem_singleton.mpr (by omega)⟩
  counted := by
    have counts : batchCount stored (emplace batch info) =
        batchCount stored batch + one info.cell.reprHash := by
      funext other
      rw [batchCount_emplace info absent fromStore, once, Int.one_mul]
      rfl
    rw [counts]
    exact counted

/-- The changes of a batch that only grows are 32-bit integers. -/
def DiffsFit (batch : List Info) : Prop :=
  ∀ hash info, lookup key batch hash = some info → info.diffRefcnt < 2 ^ 31

lemma DiffsFit.of_addDiff (fit : DiffsFit (addDiff batch hash 1)) : DiffsFit batch := by
  intro other info found
  by_cases same : other = hash
  · subst same
    have more : info.diffRefcnt + 1 < 2 ^ 31 := fit other (addRefcnt 1 info) (by simp [lookup_addDiff, found])
    omega
  · exact fit other info (by rw [lookup_addDiff, if_neg same, found])

lemma DiffsFit.of_emplace (absent : lookup key batch info.cell.reprHash = none) (fit : DiffsFit (emplace batch info)) :
    DiffsFit batch := by
  intro other earlier found
  by_cases same : other = info.cell.reprHash
  · rw [same, absent] at found
    cases found
  · exact fit other earlier (by rw [lookup_emplace info absent, if_neg same, found])

lemma Raising.diffsFit (raising : Raising known stored batch live owed) (cells : StoredCells known stored)
    (few : ∀ hash, batchCount stored batch hash + 1 < 2 ^ 31) : DiffsFit batch := by
  intro hash info found
  have count := few hash
  have nonneg := cells.count_nonneg info.key
  rw [← raising.valid.dbRefcnt info (lookup_some found).1] at nonneg
  rw [batchCount_some found] at count
  omega

namespace InMemory

variable {storage : CellStorage}

lemma doInc_eq (sha : Sha256) (storage : CellStorage) (batch : List Info) (cell : DataCell) :
    doInc sha storage batch cell =
      match lookup key batch cell.reprHash with
      | some known =>
        if known.diffRefcnt = 2 ^ 31 - 1 then .error "it->diff_refcnt != std::numeric_limits<td::int32>::max()"
        else .ok (known.cell, addDiff batch cell.reprHash 1)
      | none =>
        match storage.getInfo cell.reprHash with
        | some stored =>
          .ok (stored.cell, emplace batch { dbRefcnt := stored.dbRefcnt, diffRefcnt := 1, cell := stored.cell })
        | none => doIncRefs sha storage batch cell.refs >>= fun built =>
          DataCell.create sha cell.bits built.1 cell.isSpecial DataCell.noHint >>= fun result =>
            if result.reprHash ≠ cell.reprHash then .error "res->get_hash() == cell_hash"
            else .ok (result,
              emplace built.2 { dbRefcnt := 0, diffRefcnt := 1, cell := result }) := by
  cases cell
  rw [doInc]
  rfl

/-- Raising the count of a cell returns the cell if the changes fit in the end, and leaves the
entries of deeper cells as they are. -/
def Incs (sha : Sha256) (known : DataCell → Prop) (storage : CellStorage) (cell : DataCell) : Prop :=
  ∀ (batch : List Info) (live : Finset CellHash) (owed : CellHash → Int),
    Raising known storage.infos batch live owed → known cell → ∃ next nextLive,
      Raising known storage.infos next nextLive (owed + one cell.reprHash) ∧
      (DiffsFit next → DiffsFit batch ∧ doInc sha storage batch cell = .ok (cell, next)) ∧
      ∀ other, known other → cell.getDepth Cell.maxLevel < other.getDepth Cell.maxLevel →
        lookup key next other.reprHash = lookup key batch other.reprHash

lemma doIncRefs_ok {refs : List DataCell} (each : ∀ ref ∈ refs, Incs sha known storage ref)
    (areKnown : ∀ ref ∈ refs, known ref) (raising : Raising known storage.infos batch live owed) :
    ∃ next nextLive, Raising known storage.infos next nextLive (owed + references (refs.map DataCell.reprHash)) ∧
      (DiffsFit next → DiffsFit batch ∧ doIncRefs sha storage batch refs = .ok (refs, next)) ∧
      ∀ other, known other →
        (∀ ref ∈ refs, ref.getDepth Cell.maxLevel < other.getDepth Cell.maxLevel) →
        lookup key next other.reprHash = lookup key batch other.reprHash := by
  induction refs generalizing batch live owed with
  | nil =>
    refine ⟨batch, live, ?_, fun fit => ⟨fit, by rw [doIncRefs]⟩, fun _ _ _ => rfl⟩
    rw [map_nil, references_nil, add_zero]
    exact raising
  | cons ref rest ih =>
    obtain ⟨middle, middleLive, raised, first, kept⟩ := each ref (by simp) batch live owed raising (areKnown ref (by simp))
    obtain ⟨next, nextLive, finished, others, restKept⟩ := ih (forall_mem_cons.mp each).2 (forall_mem_cons.mp areKnown).2 raised
    refine ⟨next, nextLive, ?_, ?_, ?_⟩
    · rw [map_cons, references_cons, ← add_assoc]
      exact finished
    · intro fit
      obtain ⟨middleFits, restDone⟩ := others fit
      obtain ⟨batchFits, done⟩ := first middleFits
      refine ⟨batchFits, ?_⟩
      rw [doIncRefs, done, ok_bind]
      simp only []
      rw [restDone, ok_bind]
    · intro other otherKnown deeper
      rw [restKept other otherKnown (forall_mem_cons.mp deeper).2, kept other otherKnown (deeper ref (by simp))]

/-- The induction is on how the cell was created, which is entered after its references. -/
lemma incs_of_created (graph : CellGraph sha known) (cells : StoredCells known storage.infos)
    (created : cell.Created sha) : Incs sha known storage cell := by
  refine created.byRefs ?_
  intro cell created ih batch live owed raising isKnown
  have deeper : ∀ {other : DataCell}, known other →
      cell.getDepth Cell.maxLevel < other.getDepth Cell.maxLevel →
      other.reprHash ≠ cell.reprHash := fun otherKnown shallower =>
    (graph.hash_ne otherKnown isKnown shallower).symm
  rw [doInc_eq]
  cases found : lookup key batch cell.reprHash with
  | some info =>
    obtain ⟨member, sameHash⟩ := lookup_some found
    have same : info.cell = cell := graph.distinct _ _ (raising.valid.known info member) isKnown sameHash
    subst same
    refine ⟨addDiff batch info.cell.reprHash 1, live, raising.known_again found, ?_, ?_⟩
    · intro fit
      have more : info.diffRefcnt + 1 < 2 ^ 31 :=
        fit info.cell.reprHash (addRefcnt 1 info) (by simp [lookup_addDiff, found])
      refine ⟨fit.of_addDiff, ?_⟩
      simp only []
      rw [if_neg (by omega)]
    intro other otherKnown shallower
    rw [lookup_addDiff, if_neg (deeper otherKnown shallower)]
  | none =>
    cases inStore : storage.getInfo cell.reprHash with
    | some info =>
      obtain ⟨member, sameHash⟩ := lookup_some inStore
      have same : info.cell = cell := graph.distinct _ _ (cells.known info member) isKnown sameHash
      have isLive : cell.reprHash ∈ live := by
        rw [raising.counted.mem_iff, batchCount_none found, storedCount_some inStore]
        exact cells.positive info member
      subst same
      refine ⟨emplace batch ⟨info.dbRefcnt, 1, info.cell⟩, live, ?_, fun fit => ⟨fit.of_emplace found, rfl⟩, ?_⟩
      · exact raising.enter ⟨info.dbRefcnt, 1, info.cell⟩ isKnown found (storedCount_some inStore).symm
          (cells.positive info member).le rfl (raising.counted.retain isLive)
      · intro other otherKnown shallower
        rw [lookup_emplace _ found, if_neg (deeper otherKnown shallower)]
    | none =>
      obtain ⟨next, nextLive, raised, built, kept⟩ := doIncRefs_ok ih (graph.refs cell isKnown) raising
      have untouched : lookup key next cell.reprHash = none := by
        rw [kept cell isKnown fun ref member => created.getDepth_lt member, found]
      have zero : storedCount storage.infos cell.reprHash = 0 := storedCount_none inStore
      have isDead : cell.reprHash ∉ nextLive := by
        rw [raised.counted.mem_iff, batchCount_none untouched, zero]
        exact lt_irrefl 0
      refine ⟨emplace next { dbRefcnt := 0, diffRefcnt := 1, cell }, insert cell.reprHash nextLive, ?_, ?_, ?_⟩
      · have born := raised.counted.birth isDead
        rw [graph.refHashes_eq isKnown, add_right_comm, add_sub_cancel_right] at born
        exact raised.enter ⟨0, 1, cell⟩ isKnown untouched zero.symm le_rfl rfl born
      · intro fit
        obtain ⟨batchFits, done⟩ := built (fit.of_emplace untouched)
        refine ⟨batchFits, ?_⟩
        rw [done, ok_bind]
        rw [created.recreate, ok_bind, if_neg fun different => different rfl]
      · intro other otherKnown shallower
        rw [lookup_emplace _ untouched, if_neg (deeper otherKnown shallower), kept other otherKnown]
        intro ref member
        exact lt_trans (created.getDepth_lt member) shallower

end InMemory

/-- While counts are lowered, what is owed covers the references that are still to be taken
back. -/
structure Lowering (known : DataCell → Prop) (stored : List CellInfo) (batch : List Info)
    (live : Finset CellHash) (owed : CellHash → Int) : Prop where
  valid : Batch known stored batch
  counted : Counted (refHashes known) live (batchCount stored batch) owed
  nonneg : ∀ hash, 0 ≤ owed hash
  few : ∀ hash, batchCount stored batch hash + 1 < 2 ^ 31

namespace InMemory

variable {storage : CellStorage}

lemma decInfo_ok (cells : StoredCells known storage.infos)
    (lowering : Lowering known storage.infos batch live owed) (isOwed : 0 < owed hash) :
    ∃ entry next, decInfo storage batch hash = .ok (entry, next) ∧ Batch known storage.infos next ∧
      batchCount storage.infos next = batchCount storage.infos batch - one hash ∧
      entry.diffRefcnt + entry.dbRefcnt = batchCount storage.infos batch hash - 1 := by
  have positive : 0 < batchCount storage.infos batch hash := lt_of_lt_of_le isOwed (lowering.counted.owed_le hash)
  unfold decInfo
  cases found : lookup key batch hash with
  | some info =>
    rw [batchCount_some found] at positive
    have few := cells.count_few info.key
    rw [← lowering.valid.dbRefcnt info (lookup_some found).1] at few
    simp only []
    rw [if_neg (by omega)]
    refine ⟨_, _, rfl, lowering.valid.addDiff hash (-1), ?_, ?_⟩
    · funext other
      rw [batchCount_addDiff found]
      show _ = batchCount storage.infos batch other - one hash other
      omega
    · rw [batchCount_some found]
      show info.diffRefcnt - 1 + info.dbRefcnt = _
      omega
  | none =>
    rw [batchCount_none found] at positive
    cases inStore : storage.getInfo hash with
    | none =>
      rw [storedCount_none inStore] at positive
      exact absurd positive (lt_irrefl 0)
    | some info =>
      obtain ⟨member, sameHash⟩ := lookup_some inStore
      have sameKey : info.cell.reprHash = hash := sameHash
      subst sameKey
      have count := storedCount_some inStore
      refine ⟨_, _, rfl, ?_, ?_, ?_⟩
      · exact lowering.valid.emplace ⟨info.dbRefcnt, -1, info.cell⟩ (cells.known info member) found count.symm
      · funext other
        rw [batchCount_emplace ⟨info.dbRefcnt, -1, info.cell⟩ found count.symm]
        show _ + -1 * one info.cell.reprHash other = batchCount storage.infos batch other - one info.cell.reprHash other
        omega
      · rw [batchCount_none found, count]
        show -1 + info.dbRefcnt = _
        omega

lemma doDec_eq (storage : CellStorage) (batch : List Info) (cell : DataCell) :
    doDec storage batch cell = decInfo storage batch cell.reprHash >>= fun lowered =>
      if wrapInt (lowered.1.diffRefcnt + lowered.1.dbRefcnt) ≠ 0 then .ok lowered.2 else doDecRefs storage lowered.2 cell.refs := by
  cases cell
  rw [doDec]
  rfl

def Decs (known : DataCell → Prop) (storage : CellStorage) (cell : DataCell) : Prop :=
  ∀ (batch : List Info) (live : Finset CellHash) (owed : CellHash → Int),
    Lowering known storage.infos batch live (owed + one cell.reprHash) → (∀ hash, 0 ≤ owed hash) → known cell →
    ∃ next nextLive, doDec storage batch cell = .ok next ∧ Lowering known storage.infos next nextLive owed

lemma doDecRefs_eq (refs : List DataCell) (batch : List Info) :
    doDecRefs storage batch refs = refs.foldlM (doDec storage) batch := by
  induction refs generalizing batch with
  | nil => rw [doDecRefs, foldlM_nil]; rfl
  | cons ref rest ih => simp only [doDecRefs, foldlM_cons, ih]

/-- The induction is on how the cell was created; only the last reference to a cell goes on to
what the cell refers to. -/
lemma decs_of_created (graph : CellGraph sha known) (cells : StoredCells known storage.infos)
    (created : cell.Created sha) : Decs known storage cell := by
  refine created.byRefs ?_
  intro cell created ih batch live owed lowering nonneg isKnown
  have isOwed : 0 < (owed + one cell.reprHash) cell.reprHash := by
    have before := nonneg cell.reprHash
    show 0 < owed cell.reprHash + one cell.reprHash cell.reprHash
    rw [one_self]
    omega
  obtain ⟨atLeast, remains, dies⟩ := graph.lower isKnown nonneg lowering.counted
  obtain ⟨entry, next, lowered, valid, counts, entryCount⟩ := decInfo_ok cells lowering isOwed
  have atMost := lowering.few cell.reprHash
  have few : ∀ hash, batchCount storage.infos next hash + 1 < 2 ^ 31 := by
    intro hash
    have before := lowering.few hash
    have taken := one_nonneg cell.reprHash hash
    rw [counts]
    show batchCount storage.infos batch hash - one cell.reprHash hash + 1 < 2 ^ 31
    omega
  have fits : wrapInt (entry.diffRefcnt + entry.dbRefcnt) = entry.diffRefcnt + entry.dbRefcnt :=
    wrapInt_of_fits (by omega) (by omega)
  rw [← counts, ← entryCount] at remains dies
  rw [doDec_eq, lowered, ok_bind]
  simp only [fits]
  by_cases isLast : entry.diffRefcnt + entry.dbRefcnt = 0
  · rw [if_neg fun different => different isLast]
    rw [doDecRefs_eq]
    apply foldlM_lowers ih (graph.refs cell isKnown) nonneg
    exact ⟨valid, dies isLast, fun hash => Int.add_nonneg (nonneg hash) (references_nonneg _ _), few⟩
  · rw [if_pos isLast]
    exact ⟨next, live, rfl, valid, remains isLast, nonneg, few⟩

end InMemory

end TonNode.Db
