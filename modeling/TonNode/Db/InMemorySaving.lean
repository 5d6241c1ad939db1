import TonNode.Db.InMemoryCounts

/-!
# Saving a batch

A commit writes the entries of a batch one by one. The key-value store and the table of cells stay
equal, the statistics follow the table, and a root goes with its cell.
-/

namespace TonNode.Db

open Vm Lib CellStorage CellInfo
open List hiding lookup

variable {sha : Sha256} {layout : Layout} {known : DataCell → Prop} {storage : CellStorage} {cell : DataCell}

def Mirrors (kv : KeyValue) (infos : List CellInfo) : Prop :=
  ∀ hash, (lookup StoredCell.key kv hash).map (fun stored => (stored.refcnt, stored.cell)) =
    (lookup key infos hash).map fun info => (info.dbRefcnt, info.cell)

def cellsSize (layout : Layout) (infos : List CellInfo) : Int :=
  (infos.map fun info => (getStorageSize layout info.cell : Int)).sum

structure RootSet (known : DataCell → Prop) (storage : CellStorage) : Prop where
  keyed : Keyed DataCell.reprHash storage.localRoots
  known : ∀ root ∈ storage.localRoots, known root
  copy : storage.roots = storage.localRoots
  total : storage.stats.rootsTotalCount = storage.localRoots.length

def isRoot (storage : CellStorage) (hash : CellHash) : Prop :=
  ∃ root ∈ storage.localRoots, root.reprHash = hash

lemma isRoot_iff {hash : CellHash} : isRoot storage hash ↔ (lookup DataCell.reprHash storage.localRoots hash).isSome := by
  unfold lookup
  simp [isRoot, find?_isSome]

lemma addNewRoot_infos (storage : CellStorage) (cell : DataCell) : (storage.addNewRoot cell).infos = storage.infos := by
  unfold addNewRoot
  split <;> rfl

lemma addNewRoot_cellsTotal (storage : CellStorage) (cell : DataCell) :
    (storage.addNewRoot cell).stats.cellsTotalCount = storage.stats.cellsTotalCount ∧
      (storage.addNewRoot cell).stats.cellsTotalSize = storage.stats.cellsTotalSize := by
  unfold addNewRoot
  split <;> exact ⟨rfl, rfl⟩

lemma RootSet.addNewRoot (roots : RootSet known storage) (isKnown : known cell) : RootSet known (storage.addNewRoot cell) := by
  unfold CellStorage.addNewRoot
  cases found : lookup DataCell.reprHash storage.localRoots cell.reprHash with
  | some root => exact roots
  | none =>
    have inserted : insertRoot storage.localRoots cell =
        storage.localRoots ++ [cell] := by
      unfold insertRoot
      rw [found]
    refine ⟨?_, ?_, ?_, ?_⟩
    · rw [inserted]
      exact roots.keyed.append found
    · rw [inserted]
      exact forall_mem_append.mpr ⟨roots.known, forall_mem_singleton.mpr isKnown⟩
    · rw [roots.copy]
    · rw [inserted, roots.total, length_append, length_singleton]
      exact (Nat.cast_succ _).symm

lemma isRoot_addNewRoot (storage : CellStorage) (cell : DataCell) (hash : CellHash) :
    isRoot (storage.addNewRoot cell) hash ↔ isRoot storage hash ∨ cell.reprHash = hash := by
  unfold addNewRoot
  cases found : lookup DataCell.reprHash storage.localRoots cell.reprHash with
  | some root =>
    obtain ⟨member, sameHash⟩ := lookup_some found
    constructor
    · exact .inl
    · rintro (already | rfl)
      · exact already
      · exact ⟨root, member, sameHash⟩
  | none =>
    have inserted : insertRoot storage.localRoots cell =
        storage.localRoots ++ [cell] := by
      unfold insertRoot
      rw [found]
    rw [inserted]
    simp [isRoot, or_and_right, exists_or]

lemma eraseRoot_ok (roots : RootSet known storage) (hash : CellHash) :
    ∃ next, storage.eraseRoot hash = .ok next ∧ RootSet known next ∧ next.infos = storage.infos ∧
      next.stats.cellsTotalCount = storage.stats.cellsTotalCount ∧ next.stats.cellsTotalSize = storage.stats.cellsTotalSize ∧
      ∀ other, isRoot next other ↔ isRoot storage other ∧ other ≠ hash := by
  unfold eraseRoot
  cases found : lookup DataCell.reprHash storage.localRoots hash with
  | none =>
    refine ⟨storage, rfl, roots, rfl, rfl, rfl, ?_⟩
    intro other
    constructor
    · intro already
      refine ⟨already, ?_⟩
      rintro rfl
      obtain ⟨root, member, sameHash⟩ := already
      exact lookup_eq_none.mp found root member sameHash
    · exact And.left
  | some root =>
    obtain ⟨member, sameHash⟩ := lookup_some found
    have someRoots : 0 < storage.localRoots.length := length_pos_of_mem member
    have positive : ¬storage.stats.rootsTotalCount ≤ 0 := by
      rw [roots.total]
      omega
    rw [roots.copy, found, if_neg (by simp), if_neg positive]
    refine ⟨_, rfl, ⟨?_, ?_, ?_, ?_⟩, rfl, rfl, rfl, ?_⟩
    · exact roots.keyed.discard hash
    · intro other otherMember
      exact roots.known other (mem_filter.mp otherMember).1
    · rfl
    · have lost := sum_discard roots.keyed member fun _ => 1
      rw [sameHash] at lost
      simp only [map_const', sum_replicate, nsmul_eq_mul, mul_one] at lost
      rw [roots.total]
      exact lost.symm
    · intro other
      constructor
      · rintro ⟨root, rootMember, rfl⟩
        obtain ⟨isOld, different⟩ := mem_filter.mp rootMember
        exact ⟨⟨root, isOld, rfl⟩, of_decide_eq_true different⟩
      · rintro ⟨⟨root, rootMember, rfl⟩, different⟩
        exact ⟨root, mem_filter.mpr ⟨rootMember, decide_eq_true different⟩, rfl⟩

variable {infos : List CellInfo}

def Counts (infos next : List CellInfo) (info : Info) : Prop :=
  ∀ hash, storedCount next hash =
    if hash = info.key then info.dbRefcnt + info.diffRefcnt else storedCount infos hash

lemma Batch.saveFirst {info : Info} {rest : List Info} {next : List CellInfo}
    (valid : Batch known infos (info :: rest)) (counts : Counts infos next info) : Batch known next rest ∧
      ∀ hash, batchCount next rest hash = batchCount infos (info :: rest) hash := by
  obtain ⟨fresh, restKeyed⟩ := nodup_cons.mp valid.keyed
  have apart : ∀ other ∈ rest, other.key ≠ info.key := fun other member same =>
    fresh (mem_map.mpr ⟨other, member, same⟩)
  refine ⟨⟨restKeyed, ?_, ?_⟩, ?_⟩
  · exact (forall_mem_cons.mp valid.known).2
  · intro other member
    rw [counts, if_neg (apart other member)]
    exact valid.dbRefcnt other (mem_cons_of_mem _ member)
  · intro hash
    by_cases same : hash = info.key
    · subst same
      have absent : lookup Info.key rest info.key = none := lookup_eq_none.mpr apart
      have first : lookup Info.key (info :: rest) info.key = some info := by simp [lookup]
      rw [batchCount_none absent, batchCount_some first, counts, if_pos rfl]
    · have skip : lookup Info.key (info :: rest) hash = lookup Info.key rest hash := by
        have different : info.key ≠ hash := fun equal => same equal.symm
        simp [lookup, different]
      unfold batchCount
      rw [skip, counts, if_neg same]

lemma lookup_append_info (absent : lookup key infos cell.reprHash = none) (dbRefcnt : Int) (hash : CellHash) :
    lookup key (infos ++ [⟨dbRefcnt, cell⟩]) hash =
      if hash = cell.reprHash then some ⟨dbRefcnt, cell⟩ else lookup key infos hash :=
  lookup_append_new absent hash

/-- What saving has done when the entries `rest` are left. A root that was stored before is gone
when its cell is. -/
structure Saved (layout : Layout) (known : DataCell → Prop) (stored : List CellInfo)
    (startRoots : CellHash → Prop) (target : CellHash → Int) (saving : InMemory.Saving)
    (rest : List Info) : Prop where
  cells : StoredCells known saving.storage.infos
  kvKeyed : Keyed StoredCell.key saving.kv
  mirrors : Mirrors saving.kv saving.storage.infos
  roots : RootSet known saving.storage
  valid : Batch known saving.storage.infos rest
  fromStore : ∀ info ∈ rest, info.dbRefcnt = storedCount stored info.key
  counts : ∀ hash, batchCount saving.storage.infos rest hash = target hash
  cellsTotal : saving.storage.stats.cellsTotalCount + saving.diff.cellsTotalCount = saving.storage.infos.length
  sizeTotal : saving.storage.stats.cellsTotalSize + saving.diff.cellsTotalSize = cellsSize layout saving.storage.infos
  rootsTotal : saving.diff.rootsTotalCount = 0
  isRoot : ∀ hash, isRoot saving.storage hash ↔
    startRoots hash ∧ (0 < storedCount stored hash → 0 < storedCount saving.storage.infos hash)

namespace InMemory

variable {stored : List CellInfo} {startRoots : CellHash → Prop} {target : CellHash → Int}
variable {saving : Saving} {info : Info} {rest : List Info}

lemma saved_unchanged (saved : Saved layout known stored startRoots target saving (info :: rest))
    (unchanged : info.diffRefcnt = 0) : Saved layout known stored startRoots target saving rest := by
  have counts : Counts saving.storage.infos saving.storage.infos info := by
    intro hash
    split
    next same =>
      rw [same, unchanged, Int.add_zero]
      exact (saved.valid.dbRefcnt info (by simp)).symm
    · rfl
  obtain ⟨valid, same⟩ := saved.valid.saveFirst counts
  exact { saved with
    valid
    fromStore := (forall_mem_cons.mp saved.fromStore).2
    counts := fun hash => (same hash).trans (saved.counts hash) }

/-- What all writes have in common: the counts of the entry are saved, and its root is gone if its
cell is. -/
lemma saved_write {next : Saving} (saved : Saved layout known stored startRoots target saving (info :: rest))
    (cells : StoredCells known next.storage.infos)
    (kvKeyed : Keyed StoredCell.key next.kv) (mirrors : Mirrors next.kv next.storage.infos) (roots : RootSet known next.storage)
    (counts : Counts saving.storage.infos next.storage.infos info)
    (cellsTotal : next.storage.stats.cellsTotalCount + next.diff.cellsTotalCount = next.storage.infos.length)
    (sizeTotal : next.storage.stats.cellsTotalSize + next.diff.cellsTotalSize = cellsSize layout next.storage.infos)
    (rootsTotal : next.diff.rootsTotalCount = 0)
    (sameRoots : ∀ hash, Db.isRoot next.storage hash ↔ Db.isRoot saving.storage hash ∧
      (hash = info.key → 0 < info.dbRefcnt → 0 < info.dbRefcnt + info.diffRefcnt)) :
    Saved layout known stored startRoots target next rest := by
  obtain ⟨valid, same⟩ := saved.valid.saveFirst counts
  refine
    { cells, kvKeyed, mirrors, roots, valid, cellsTotal, sizeTotal, rootsTotal
      fromStore := (forall_mem_cons.mp saved.fromStore).2
      counts := fun hash => (same hash).trans (saved.counts hash)
      isRoot := ?_ }
  intro hash
  rw [sameRoots, saved.isRoot, counts, and_assoc]
  by_cases isKey : hash = info.key
  · subst isKey
    rw [if_pos rfl, ← saved.fromStore info (by simp), ← saved.valid.dbRefcnt info (by simp)]
    simp
  · rw [if_neg isKey]
    simp [isKey]

lemma set_new (absent : lookup key storage.infos cell.reprHash = none) (refcnt : Int) : storage.set refcnt cell =
      { storage with infos := storage.infos ++ [{ dbRefcnt := refcnt, cell }] } := by
  unfold CellStorage.set CellStorage.getInfo
  rw [absent]

lemma set_old {entry : CellInfo}
    (found : lookup key storage.infos cell.reprHash = some entry) (refcnt : Int) : storage.set refcnt cell =
      { storage with
        infos := change key cell.reprHash (setRefcnt refcnt) storage.infos } := by
  unfold CellStorage.set CellStorage.getInfo
  rw [found]

lemma lookup_setRefcnt (refcnt : Int) (hash other : CellHash) :
    lookup key (change key hash (setRefcnt refcnt) infos) other =
      if other = hash then (lookup key infos hash).map (setRefcnt refcnt)
      else lookup key infos other :=
  @lookup_change _ _ _ key hash (setRefcnt refcnt) (fun _ isWanted => isWanted) infos other

lemma saveCount_new (saved : Saved layout known stored startRoots target saving (info :: rest))
    (isNew : info.dbRefcnt = 0) (positive : 0 < info.dbRefcnt + info.diffRefcnt)
    (few : info.dbRefcnt + info.diffRefcnt + 1 < 2 ^ 31) :
    ∃ next, saveCount layout saving info (info.dbRefcnt + info.diffRefcnt) = .ok next ∧
      Saved layout known stored startRoots target next rest := by
  have isKnown := saved.valid.known info (by simp)
  have zero : storedCount saving.storage.infos info.cell.reprHash = 0 := (saved.valid.dbRefcnt info (by simp)).symm.trans isNew
  have absent := saved.cells.lookup_of_count zero
  have kept : ¬(!false && decide (info.dbRefcnt + info.diffRefcnt ≤ 0)) = true := by
    simpa using positive
  unfold saveCount storeCount CellStorer.set
  rw [if_pos isNew, if_neg kept, ok_bind, if_pos isNew, set_new absent]
  refine ⟨_, rfl, ?_⟩
  apply saved_write saved
  case cells =>
    refine ⟨saved.cells.keyed.append absent, ?_, ?_, ?_⟩
    · exact forall_mem_append.mpr ⟨saved.cells.known, forall_mem_singleton.mpr isKnown⟩
    · exact forall_mem_append.mpr ⟨saved.cells.positive, forall_mem_singleton.mpr positive⟩
    · exact forall_mem_append.mpr ⟨saved.cells.few, forall_mem_singleton.mpr few⟩
  case kvKeyed =>
    apply (saved.kvKeyed.discard info.cell.reprHash).append
    rw [lookup_discard]
    exact if_pos rfl
  case mirrors =>
    intro hash
    rw [lookup_set, lookup_append_info absent]
    by_cases same : hash = info.cell.reprHash
    · rw [if_pos same, if_pos same]
      rfl
    · rw [if_neg same, if_neg same]
      exact saved.mirrors hash
  case roots => exact ⟨saved.roots.keyed, saved.roots.known, saved.roots.copy, saved.roots.total⟩
  case counts =>
    intro hash
    unfold storedCount
    rw [lookup_append_info absent]
    by_cases same : hash = info.cell.reprHash
    · rw [if_pos same]
      exact (if_pos same).symm
    · rw [if_neg same]
      exact (if_neg same).symm
  case cellsTotal =>
    have total := saved.cellsTotal
    show saving.storage.stats.cellsTotalCount + (saving.diff.cellsTotalCount + 1) = ((saving.storage.infos ++ [_]).length : Int)
    rw [length_append, length_singleton, Nat.cast_succ]
    omega
  case sizeTotal =>
    have total := saved.sizeTotal
    unfold cellsSize at total ⊢
    rw [map_append, sum_append, ← total, map_singleton, sum_singleton]
    ring
  case rootsTotal => exact saved.rootsTotal
  case sameRoots =>
    intro hash
    constructor
    · exact fun already => ⟨already, fun _ _ => positive⟩
    · exact And.left

lemma saveCount_old (saved : Saved layout known stored startRoots target saving (info :: rest))
    (isOld : info.dbRefcnt ≠ 0) (positive : 0 < info.dbRefcnt + info.diffRefcnt)
    (few : info.dbRefcnt + info.diffRefcnt + 1 < 2 ^ 31) :
    ∃ next, saveCount layout saving info (info.dbRefcnt + info.diffRefcnt) = .ok next ∧
      Saved layout known stored startRoots target next rest := by
  have count : info.dbRefcnt = storedCount saving.storage.infos info.cell.reprHash := saved.valid.dbRefcnt info (by simp)
  cases found : lookup key saving.storage.infos info.cell.reprHash with
  | none =>
    rw [storedCount_none found] at count
    exact absurd count isOld
  | some entry =>
    rw [storedCount_some found] at count
    have inKv := saved.mirrors info.cell.reprHash
    rw [found, Option.map_some] at inKv
    obtain ⟨value, valueFound, sameValue⟩ := Option.map_eq_some_iff.mp inKv
    have valueCount : value.refcnt = info.dbRefcnt := (Prod.mk.inj sameValue).1.trans count.symm
    have valueAtKey : lookup StoredCell.key saving.kv info.key = some value := valueFound
    have newCount : wrapInt (value.refcnt + info.diffRefcnt) = info.dbRefcnt + info.diffRefcnt := by
      rw [valueCount]
      exact wrapInt_of_fits (by omega) (by omega)
    unfold saveCount storeCount CellStorer.merge
    rw [if_neg isOld, valueAtKey]
    simp only [newCount]
    rw [if_neg (by omega), ok_bind, if_neg isOld, set_old found]
    refine ⟨_, rfl, ?_⟩
    apply saved_write saved
    case cells =>
      refine ⟨saved.cells.keyed.change fun _ _ => rfl, ?_, ?_, ?_⟩
      · intro other member
        rcases mem_change member with ⟨before, beforeMember, _, rfl⟩ | ⟨unchanged, _⟩
        · exact saved.cells.known before beforeMember
        · exact saved.cells.known other unchanged
      · intro other member
        rcases mem_change member with ⟨before, beforeMember, _, rfl⟩ | ⟨unchanged, _⟩
        · exact positive
        · exact saved.cells.positive other unchanged
      · intro other member
        rcases mem_change member with ⟨before, beforeMember, _, rfl⟩ | ⟨unchanged, _⟩
        · exact few
        · exact saved.cells.few other unchanged
    case kvKeyed => exact saved.kvKeyed.change fun _ _ => rfl
    case mirrors =>
      intro hash
      rw [@lookup_change _ _ _ StoredCell.key _ (StoredCell.addRefcnt _) fun _ isWanted => isWanted, lookup_setRefcnt]
      by_cases same : hash = info.cell.reprHash
      · rw [if_pos same, found]
        rw [if_pos (show hash = info.key from same), valueAtKey]
        show some (wrapInt (value.refcnt + info.diffRefcnt), value.cell) = some (info.dbRefcnt + info.diffRefcnt, entry.cell)
        rw [newCount, (Prod.mk.inj sameValue).2]
      · rw [if_neg same, if_neg (show ¬hash = info.key from same)]
        exact saved.mirrors hash
    case roots =>
      exact ⟨saved.roots.keyed, saved.roots.known, saved.roots.copy, saved.roots.total⟩
    case counts =>
      intro hash
      unfold storedCount
      rw [lookup_setRefcnt]
      by_cases same : hash = info.cell.reprHash
      · rw [if_pos same, found]
        exact (if_pos same).symm
      · rw [if_neg same]
        exact (if_neg same).symm
    case cellsTotal =>
      unfold change
      rw [length_map]
      exact saved.cellsTotal
    case sizeTotal =>
      have same : cellsSize layout (change key info.cell.reprHash
          (setRefcnt (info.dbRefcnt + info.diffRefcnt)) saving.storage.infos) = cellsSize layout saving.storage.infos :=
        congrArg List.sum (@map_change _ _ _ key _
          (setRefcnt (info.dbRefcnt + info.diffRefcnt)) _ _ (fun _ _ => rfl) _)
      exact saved.sizeTotal.trans same.symm
    case rootsTotal => exact saved.rootsTotal
    case sameRoots =>
      intro hash
      constructor
      · exact fun already => ⟨already, fun _ _ => positive⟩
      · exact And.left

lemma saveErased_ok (graph : CellGraph sha known) (saved : Saved layout known stored startRoots target saving (info :: rest))
    (changed : info.diffRefcnt ≠ 0) (zero : info.dbRefcnt + info.diffRefcnt = 0) :
    ∃ next, saveErased layout saving info = .ok next ∧ Saved layout known stored startRoots target next rest := by
  have count : info.dbRefcnt = storedCount saving.storage.infos info.cell.reprHash := saved.valid.dbRefcnt info (by simp)
  have nonneg := saved.cells.count_nonneg info.cell.reprHash
  cases found : lookup key saving.storage.infos info.cell.reprHash with
  | none =>
    rw [storedCount_none found] at count
    omega
  | some entry =>
    obtain ⟨member, sameKey⟩ := lookup_some found
    have withoutCell : RootSet known { saving.storage with infos := discard key info.key saving.storage.infos } :=
      ⟨saved.roots.keyed, saved.roots.known, saved.roots.copy, saved.roots.total⟩
    obtain ⟨storage, erased, roots, sameInfos, sameCount, sameSize, sameRoots⟩ := eraseRoot_ok withoutCell info.key
    have erasedAll : saving.storage.erase info.key = .ok storage := by
      unfold erase getInfo Info.key
      rw [found]
      exact erased
    unfold saveErased
    rw [erasedAll, ok_bind]
    refine ⟨_, rfl, ?_⟩
    apply saved_write saved
    case cells =>
      rw [sameInfos]
      refine ⟨saved.cells.keyed.discard info.key, ?_, ?_, ?_⟩
      · exact fun other isOld => saved.cells.known other (mem_filter.mp isOld).1
      · exact fun other isOld => saved.cells.positive other (mem_filter.mp isOld).1
      · exact fun other isOld => saved.cells.few other (mem_filter.mp isOld).1
    case kvKeyed => exact saved.kvKeyed.discard info.key
    case mirrors =>
      intro hash
      rw [sameInfos]
      unfold CellStorer.erase
      rw [lookup_discard, lookup_discard]
      by_cases same : hash = info.key
      · rw [if_pos same, if_pos same]
        rfl
      · rw [if_neg same, if_neg same]
        exact saved.mirrors hash
    case roots => exact roots
    case counts =>
      intro hash
      rw [sameInfos]
      unfold storedCount
      rw [lookup_discard, zero]
      by_cases same : hash = info.key
      · rw [if_pos same, if_pos same]
        rfl
      · rw [if_neg same, if_neg same]
    case cellsTotal =>
      have total := saved.cellsTotal
      have lost := sum_discard saved.cells.keyed member fun _ => 1
      rw [sameKey] at lost
      simp only [map_const', sum_replicate, nsmul_eq_mul, mul_one] at lost
      rw [sameInfos, sameCount]
      show saving.storage.stats.cellsTotalCount + (saving.diff.cellsTotalCount - 1) =
        ((discard key info.cell.reprHash saving.storage.infos).length : Int)
      omega
    case sizeTotal =>
      have total := saved.sizeTotal
      have lost := sum_discard saved.cells.keyed member fun other =>
        (getStorageSize layout other.cell : Int)
      have sameCell : entry.cell = info.cell :=
        graph.distinct _ _ (saved.cells.known entry member) (saved.valid.known info (by simp))
          sameKey
      rw [sameKey, sameCell] at lost
      rw [sameInfos, sameSize]
      show saving.storage.stats.cellsTotalSize +
          (saving.diff.cellsTotalSize - getStorageSize layout info.cell) =
        ((discard key info.cell.reprHash saving.storage.infos).map fun other =>
          (getStorageSize layout other.cell : Int)).sum
      unfold cellsSize at total
      omega
    case rootsTotal => exact saved.rootsTotal
    case sameRoots =>
      intro hash
      rw [sameRoots hash]
      have stays : (hash = info.key → 0 < info.dbRefcnt → 0 < info.dbRefcnt + info.diffRefcnt) ↔
          hash ≠ info.key := by
        constructor
        · intro onlyIf same
          have positive := onlyIf same (by omega)
          omega
        · exact fun different same => absurd same different
      rw [stays]
      exact Iff.rfl

end InMemory

end TonNode.Db
