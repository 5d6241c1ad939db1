import TonNode.Db.InMemorySaving

/-!
# A whole commit

From a settled database a commit of any changes that owe no negative counts succeeds and settles
again.
-/

namespace TonNode.Db

open Vm Lib CellStorage
open List hiding lookup

variable {sha : Sha256} {layout : Layout} {known : DataCell → Prop} {kv : KeyValue}
variable {owed : CellHash → Int}

/-- The database between commits: the counts are exact for the roots that are owed, and the store
holds what the table holds. -/
structure Settled (layout : Layout) (known : DataCell → Prop) (storage : CellStorage)
    (kv : KeyValue) (owed : CellHash → Int) : Prop where
  cells : StoredCells known storage.infos
  counted : ∃ live, Counted (refHashes known) live (storedCount storage.infos) owed
  nonneg : ∀ hash, 0 ≤ owed hash
  kvKeyed : Keyed StoredCell.key kv
  mirrors : Mirrors kv storage.infos
  roots : RootSet known storage
  owedRoot : ∀ hash, 0 < owed hash → isRoot storage hash
  cellsTotal : storage.stats.cellsTotalCount = storage.infos.length
  sizeTotal : storage.stats.cellsTotalSize = cellsSize layout storage.infos

namespace InMemory

variable {stored : List CellInfo} {startRoots : CellHash → Prop} {target : CellHash → Int}
variable {saving : Saving} {batch : List Info} {storage : CellStorage} {final : CellHash → Int}

lemma saveInfo_ok (graph : CellGraph sha known) {info : Info} {rest : List Info}
    (saved : Saved layout known stored startRoots target saving (info :: rest)) (nonneg : ∀ hash, 0 ≤ target hash)
    (few : ∀ hash, target hash + 1 < 2 ^ 31) :
    ∃ next, saveInfo layout saving info = .ok next ∧ Saved layout known stored startRoots target next rest := by
  have count : info.dbRefcnt + info.diffRefcnt = target info.key := by
    rw [← saved.counts]
    symm
    apply batchCount_some
    simp [lookup]
  have atLeast := nonneg info.key
  have atMost := few info.key
  rw [← count] at atLeast atMost
  have fits : wrapInt (info.dbRefcnt + info.diffRefcnt) = info.dbRefcnt + info.diffRefcnt :=
    wrapInt_of_fits (by omega) (by omega)
  unfold saveInfo
  by_cases unchanged : info.diffRefcnt = 0
  · rw [if_pos unchanged]
    exact ⟨saving, rfl, saved_unchanged saved unchanged⟩
  · simp only []
    rw [if_neg unchanged, if_neg fun different => different fits, if_neg (by omega)]
    by_cases positive : 0 < info.dbRefcnt + info.diffRefcnt
    · rw [if_pos positive]
      by_cases isNew : info.dbRefcnt = 0
      · exact saveCount_new saved isNew positive atMost
      · exact saveCount_old saved isNew positive atMost
    · rw [if_neg positive]
      exact saveErased_ok graph saved unchanged (by omega)

lemma saveInfos_ok (graph : CellGraph sha known) (saved : Saved layout known stored startRoots target saving batch)
    (nonneg : ∀ hash, 0 ≤ target hash) (few : ∀ hash, target hash + 1 < 2 ^ 31) : ∃ final, batch.foldlM (saveInfo layout) saving = .ok final ∧
      Saved layout known stored startRoots target final [] := by
  induction batch generalizing saving with
  | nil => exact ⟨saving, rfl, saved⟩
  | cons info rest ih =>
    obtain ⟨next, written, nextSaved⟩ := saveInfo_ok graph saved nonneg few
    obtain ⟨final, others, finished⟩ := ih nextSaved
    refine ⟨final, ?_, finished⟩
    rw [foldlM_cons, written, ok_bind]
    exact others

lemma cellsSize_nonneg (layout : Layout) (infos : List CellInfo) : 0 ≤ cellsSize layout infos := by
  apply sum_nonneg
  intro size member
  obtain ⟨info, _, rfl⟩ := mem_map.mp member
  exact Int.natCast_nonneg _

lemma applyStatsDiff_ok (saved : Saved layout known stored startRoots target saving []) :
    saving.storage.applyStatsDiff saving.diff = .ok { saving.storage with
      stats :=
        { rootsTotalCount := saving.storage.stats.rootsTotalCount
          cellsTotalCount := saving.storage.infos.length
          cellsTotalSize := cellsSize layout saving.storage.infos } } := by
  have size := cellsSize_nonneg layout saving.storage.infos
  unfold applyStatsDiff Stats.applyDiff
  simp only [saved.rootsTotal, saved.cellsTotal, saved.sizeTotal, saved.roots.total, Int.add_zero]
  rw [if_neg (by omega), if_neg (by omega), if_neg (by omega), ok_bind]
  simp

variable {db : InMemory}

lemma saveDiff_ok (graph : CellGraph sha known)
    (saved : Saved layout known stored startRoots target { storage := db.storage, kv, diff := Stats.empty } db.infos)
    (nonneg : ∀ hash, 0 ≤ target hash) (few : ∀ hash, target hash + 1 < 2 ^ 31) (noDec : db.toDec = []) :
    ∃ final, saveDiff layout db kv = .ok
        ({ db with
            storage := { final.storage with
              stats :=
                { rootsTotalCount := final.storage.stats.rootsTotalCount
                  cellsTotalCount := final.storage.infos.length
                  cellsTotalSize := cellsSize layout final.storage.infos } }
            infos := [] }, final.kv) ∧
      Saved layout known stored startRoots target final [] := by
  obtain ⟨final, written, finished⟩ := saveInfos_ok graph saved nonneg few
  refine ⟨final, ?_, finished⟩
  unfold saveDiff
  rw [noDec, if_neg (by simp), written, ok_bind, applyStatsDiff_ok finished, ok_bind]

/-! ### Preparing -/

/-- What raising the counts of new roots leaves alone, and the roots it adds. -/
structure Rooted (known : DataCell → Prop) (before after : CellStorage) (added : List DataCell) :
    Prop where
  infos : after.infos = before.infos
  cellsTotal : after.stats.cellsTotalCount = before.stats.cellsTotalCount
  sizeTotal : after.stats.cellsTotalSize = before.stats.cellsTotalSize
  roots : RootSet known after
  isRoot : ∀ hash, Db.isRoot after hash ↔ Db.isRoot before hash ∨ hash ∈ hashes added

lemma Rooted.refl (roots : RootSet known storage) : Rooted known storage storage [] where
  infos := rfl
  cellsTotal := rfl
  sizeTotal := rfl
  roots := roots
  isRoot := by simp [hashes]

section

variable (graph : CellGraph sha known) {cells : List DataCell} {live : Finset CellHash}
include graph

lemma prepareIncs_ok (areKnown : ∀ cell ∈ cells, known cell) (stored : StoredCells known storage.infos)
    (roots : RootSet known storage) (raising : Raising known storage.infos batch live owed) :
    ∃ after next nextLive, Rooted known storage after cells ∧
      Raising known storage.infos next nextLive (owed + references (hashes cells)) ∧
      (DiffsFit next → DiffsFit batch ∧ cells.foldlM (prepareInc sha) (storage, batch) = .ok (after, next)) := by
  induction cells generalizing storage batch live owed with
  | nil =>
    refine ⟨storage, batch, live, Rooted.refl roots, ?_, fun fit => ⟨fit, rfl⟩⟩
    have none : owed + references (hashes []) = owed := by
      show owed + references [] = owed
      rw [references_nil, add_zero]
    rw [none]
    exact raising
  | cons cell rest ih =>
    have isKnown := areKnown cell (by simp)
    obtain ⟨middle, middleLive, middleRaising, raised, _⟩ :=
      incs_of_created graph stored (graph.created cell isKnown) batch live owed raising isKnown
    have sameInfos := addNewRoot_infos storage cell
    rw [← sameInfos] at middleRaising stored
    obtain ⟨after, next, nextLive, rooted, nextRaising, others⟩ := ih (forall_mem_cons.mp areKnown).2 stored
        (roots.addNewRoot isKnown) middleRaising
    rw [sameInfos] at nextRaising
    refine ⟨after, next, nextLive, ⟨?_, ?_, ?_, rooted.roots, ?_⟩, ?_, ?_⟩
    · rw [rooted.infos, sameInfos]
    · rw [rooted.cellsTotal, (addNewRoot_cellsTotal storage cell).1]
    · rw [rooted.sizeTotal, (addNewRoot_cellsTotal storage cell).2]
    · intro hash
      rw [rooted.isRoot, isRoot_addNewRoot, or_assoc]
      simp [hashes, eq_comm]
    · have sum : owed + references (hashes (cell :: rest)) =
          owed + one cell.reprHash + references (hashes rest) := by
        unfold hashes
        rw [map_cons, references_cons, add_assoc]
      rw [sum]
      exact nextRaising
    · intro fit
      obtain ⟨middleFits, restDone⟩ := others fit
      obtain ⟨batchFits, done⟩ := raised middleFits
      refine ⟨batchFits, ?_⟩
      rw [foldlM_cons]
      unfold prepareInc at restDone ⊢
      rw [done, ok_bind]
      exact restDone

lemma prepareDecs_ok (areKnown : ∀ cell ∈ cells, known cell) (stored : StoredCells known storage.infos)
    (nonneg : ∀ hash, 0 ≤ owed hash) (lowering : Lowering known storage.infos batch live (owed + references (hashes cells))) :
    ∃ next nextLive, cells.foldlM (doDec storage) batch = .ok next ∧ Lowering known storage.infos next nextLive owed := by
  have each : ∀ cell ∈ cells, Decs known storage cell := fun cell member =>
    decs_of_created graph stored (graph.created cell (areKnown cell member))
  exact foldlM_lowers each areKnown nonneg lowering

section

variable (settled : Settled layout known db.storage kv owed)
include settled

variable (noInfos : db.infos = []) (incKnown : ∀ cell ∈ db.toInc, known cell) (decKnown : ∀ cell ∈ db.toDec, known cell)
variable (nonneg : ∀ hash, 0 ≤ final hash) (sum : owed + references (hashes db.toInc) = final + references (hashes db.toDec))
variable (few : ∀ live counts, Counted (refHashes known) live counts (final + references (hashes db.toDec)) →
  ∀ hash, counts hash + 1 < 2 ^ 31)
include noInfos incKnown decKnown nonneg sum few

lemma prepareCommit_ok : ∃ prepared live, prepareCommit sha db = .ok prepared ∧ prepared.toInc = [] ∧
      prepared.toDec = [] ∧ Rooted known db.storage prepared.storage db.toInc ∧
      Lowering known db.storage.infos prepared.infos live final := by
  obtain ⟨live, counted⟩ := settled.counted
  have raising : Raising known db.storage.infos db.infos live owed := by
    rw [noInfos]
    exact ⟨Batch.nil known _, fun _ member => absurd member not_mem_nil, counted⟩
  obtain ⟨after, batch, raisedLive, rooted, afterRaising, done⟩ :=
    prepareIncs_ok graph incKnown settled.cells settled.roots raising
  rw [sum] at afterRaising
  have afterFew := few _ _ afterRaising.counted
  obtain ⟨_, raised⟩ := done (afterRaising.diffsFit settled.cells afterFew)
  rw [← rooted.infos] at afterRaising afterFew
  have stored : StoredCells known after.infos := by
    rw [rooted.infos]
    exact settled.cells
  have lowering : Lowering known after.infos batch raisedLive (final + references (hashes db.toDec)) :=
    ⟨afterRaising.valid, afterRaising.counted, fun hash => Int.add_nonneg (nonneg hash) (references_nonneg _ _), afterFew⟩
  obtain ⟨next, nextLive, lowered, finished⟩ := prepareDecs_ok graph decKnown stored nonneg lowering
  rw [rooted.infos] at finished
  refine ⟨{ storage := after, infos := next, toInc := [], toDec := [] }, nextLive, ?_, rfl, rfl, rooted, finished⟩
  unfold prepareCommit
  rw [if_neg (by simp [noInfos]), raised, ok_bind]
  simp only []
  rw [lowered, ok_bind]

/-- A commit saves a batch that counts the new roots; without changes it is the empty batch. -/
lemma commit_eq_saveDiff :
    ∃ prepared live, commit sha layout db kv = saveDiff layout prepared kv ∧ prepared.toInc = [] ∧ prepared.toDec = [] ∧
      Rooted known db.storage prepared.storage db.toInc ∧ Lowering known db.storage.infos prepared.infos live final := by
  unfold commit
  by_cases changes : (!db.toInc.isEmpty || !db.toDec.isEmpty) = true
  · rw [if_pos changes]
    obtain ⟨prepared, live, done, noInc, noDec, rooted, lowering⟩ :=
      prepareCommit_ok graph settled noInfos incKnown decKnown nonneg sum few
    refine ⟨prepared, live, ?_, noInc, noDec, rooted, lowering⟩
    rw [done, ok_bind]
  · rw [if_neg changes]
    have noInc : db.toInc = [] := by
      cases same : db.toInc with
      | nil => rfl
      | cons cell rest => simp [same] at changes
    have noDec : db.toDec = [] := by
      cases same : db.toDec with
      | nil => rfl
      | cons cell rest => simp [same] at changes
    have unchanged : owed = final := by
      rw [noInc, noDec] at sum
      exact add_right_cancel sum
    subst unchanged
    obtain ⟨live, counted⟩ := settled.counted
    refine ⟨db, live, rfl, noInc, noDec, ?_, ?_⟩
    · rw [noInc]
      exact Rooted.refl settled.roots
    · rw [noInfos]
      refine ⟨Batch.nil known _, counted, nonneg, ?_⟩
      rw [noDec] at few
      apply few live
      show Counted _ _ _ (owed + references [])
      rw [references_nil, add_zero]
      exact counted

/-- A commit settles the database at the new counts, with the old and new roots whose cells it
did not remove. -/
lemma commit_ok : ∃ next nextKv, commit sha layout db kv = .ok (next, nextKv) ∧ next.infos = [] ∧
      next.toInc = [] ∧ next.toDec = [] ∧ Settled layout known next.storage nextKv final ∧ ∀ hash, isRoot next.storage hash ↔
        (isRoot db.storage hash ∨ hash ∈ hashes db.toInc) ∧
        (0 < storedCount db.storage.infos hash → 0 < storedCount next.storage.infos hash) := by
  obtain ⟨prepared, live, same, noInc, noDec, rooted, lowering⟩ :=
    commit_eq_saveDiff graph settled noInfos incKnown decKnown nonneg sum few
  have start : Saved layout known db.storage.infos
      (fun hash => isRoot db.storage hash ∨ hash ∈ hashes db.toInc)
      (batchCount db.storage.infos prepared.infos)
      { storage := prepared.storage, kv, diff := Stats.empty } prepared.infos := by
    constructor
    case roots => exact rooted.roots
    case kvKeyed => exact settled.kvKeyed
    case rootsTotal => rfl
    case fromStore => exact lowering.valid.dbRefcnt
    case cells => simpa only [rooted.infos] using settled.cells
    case mirrors => simpa only [rooted.infos] using settled.mirrors
    case valid => simpa only [rooted.infos] using lowering.valid
    case counts =>
      intro hash
      simp only [rooted.infos]
    case cellsTotal =>
      simp only [rooted.infos, rooted.cellsTotal, settled.cellsTotal, Stats.empty, Int.add_zero]
    case sizeTotal =>
      simp only [rooted.infos, rooted.sizeTotal, settled.sizeTotal, Stats.empty, Int.add_zero]
    case isRoot =>
      intro hash
      simp only [rooted.infos, rooted.isRoot, imp_self, and_true]
  obtain ⟨saved, written, finished⟩ := saveDiff_ok graph start lowering.counted.nonneg lowering.few noDec
  rw [written] at same
  have counts : storedCount saved.storage.infos = batchCount db.storage.infos prepared.infos := funext finished.counts
  have counted : Counted (refHashes known) live (storedCount saved.storage.infos) final := by
    rw [counts]
    exact lowering.counted
  refine ⟨_, _, same, rfl, noInc, noDec, ?_, finished.isRoot⟩
  constructor
  case cells => exact finished.cells
  case counted => exact ⟨live, counted⟩
  case nonneg => exact nonneg
  case kvKeyed => exact finished.kvKeyed
  case mirrors => exact finished.mirrors
  case cellsTotal => rfl
  case sizeTotal => rfl
  case roots =>
    exact ⟨finished.roots.keyed, finished.roots.known, finished.roots.copy, finished.roots.total⟩
  case owedRoot =>
    intro hash isOwed
    apply (finished.isRoot hash).mpr
    constructor
    · by_cases before : 0 < owed hash
      · exact .inl (settled.owedRoot hash before)
      · have sumAt : owed hash + references (hashes db.toInc) hash =
            final hash + references (hashes db.toDec) hash := congrFun sum hash
        have taken := references_nonneg (hashes db.toDec) hash
        exact .inr (references_pos.mp (by omega))
    · intro _
      exact counted.positive hash (counted.mem_of_owed isOwed)

end

end

end InMemory

/-! ### Creating the database from a key-value store

A consistent store gives a settled database whose roots are the cells that are counted more often
than the other cells refer to them. -/

variable {infos : List CellInfo} {live : Finset CellHash}

def scan (stored : StoredCell) : CellInfo := { dbRefcnt := stored.refcnt, cell := stored.cell }

lemma lookup_scan (kv : KeyValue) (hash : CellHash) :
    lookup CellInfo.key (kv.map scan) hash = (lookup StoredCell.key kv hash).map scan := by
  unfold lookup
  rw [find?_map]
  rfl

lemma mirrors_scan (kv : KeyValue) : Mirrors kv (kv.map scan) := by
  intro hash
  rw [lookup_scan, Option.map_map]
  rfl

lemma storedCount_scan (kv : KeyValue) : storedCount (kv.map scan) = kvCount kv := by
  funext hash
  unfold storedCount kvCount
  rw [lookup_scan, Option.map_map]
  rfl

lemma ConsistentStore.storedCells (consistent : ConsistentStore known kv owed) : StoredCells known (kv.map scan) where
  keyed := by
    unfold Keyed
    rw [map_map]
    exact consistent.keyed
  known := by
    intro info member
    obtain ⟨stored, isStored, rfl⟩ := mem_map.mp member
    exact consistent.areKnown stored isStored
  positive := by
    intro info member
    obtain ⟨stored, isStored, rfl⟩ := mem_map.mp member
    exact consistent.positive stored isStored
  few := by
    intro info member
    obtain ⟨stored, isStored, rfl⟩ := mem_map.mp member
    exact consistent.few stored isStored

/-! ### References held by the stored cells -/

lemma StoredCells.mem_live (cells : StoredCells known infos)
    (counted : Counted (refHashes known) live (storedCount infos) owed) {hash : CellHash} :
    hash ∈ live ↔ ∃ info ∈ infos, info.key = hash := by
  rw [counted.mem_iff]
  constructor
  · intro positive
    cases found : lookup CellInfo.key infos hash with
    | none =>
      rw [storedCount_none found] at positive
      exact absurd positive (lt_irrefl 0)
    | some info => exact ⟨info, lookup_some found⟩
  · rintro ⟨info, member, rfl⟩
    rw [storedCount_some (cells.keyed.lookup_mem member)]
    exact cells.positive info member

lemma StoredCells.held_eq (graph : CellGraph sha known) (cells : StoredCells known infos)
    (counted : Counted (refHashes known) live (storedCount infos) owed) (hash : CellHash) :
    heldReferences (infos.map CellInfo.cell) hash = ∑ parent ∈ live, references (refHashes known parent) hash := by
  have isLive : live = (infos.map CellInfo.key).toFinset := by
    ext other
    rw [cells.mem_live counted, mem_toFinset, mem_map]
  rw [isLive, sum_toFinset _ cells.keyed]
  unfold heldReferences
  rw [map_map, map_map]
  congr 1
  apply map_congr_left
  intro info member
  show ((info.cell.refs.map DataCell.reprHash).count hash : Int) = references (refHashes known info.cell.reprHash) hash
  rw [graph.refHashes_eq (cells.known info member)]
  unfold references List.count
  congr 1
  apply countP_congr
  intro other _
  simp

namespace CellStorage

section

variable (graph : CellGraph sha known) (cells : StoredCells known infos)
variable (counted : Counted (refHashes known) live (storedCount infos) owed) {info : CellInfo}
include graph cells counted

lemma resetRefs_ok (nonneg : ∀ hash, 0 ≤ owed hash) (member : info ∈ infos) : resetRefs infos info = .ok info := by
  have isKnown := cells.known info member
  have isLive : info.cell.reprHash ∈ live := (cells.mem_live counted).mpr ⟨info, member, rfl⟩
  have found : ∀ ref ∈ info.cell.refs, fullCell infos ref = .ok ref := by
    intro ref isRef
    have isChild : ref.reprHash ∈ refHashes known info.cell.reprHash := by
      rw [graph.refHashes_eq isKnown]
      exact mem_map_of_mem isRef
    obtain ⟨full, fullMember, sameHash⟩ := (cells.mem_live counted).mp (counted.children_live nonneg isLive isChild)
    have same : full.cell = ref := graph.distinct _ _ (cells.known full fullMember) (graph.refs _ isKnown ref isRef) sameHash
    unfold fullCell
    rw [(cells.keyed.lookup_iff).mpr ⟨fullMember, sameHash⟩]
    exact congrArg Except.ok same
  unfold resetRefs
  rw [mapM_ok_of_forall found, ok_bind, map_id']
  obtain ⟨dbRefcnt, cell⟩ := info
  cases cell
  rfl

lemma cellRefCnt_eq (member : info ∈ infos) : wrapInt (info.dbRefcnt + 1) - cellRefCnt infos info = owed info.key := by
  have positive := cells.positive info member
  rw [wrapInt_of_fits (by omega) (cells.few info member)]
  have balance := counted.balance info.key
  rw [storedCount_some (cells.keyed.lookup_mem member), ← cells.held_eq graph counted] at balance
  unfold cellRefCnt
  omega

end

def foundRoots (owed : CellHash → Int) (infos : List CellInfo) : List DataCell :=
  (infos.filter fun info => decide (owed info.key ≠ 0)).map CellInfo.cell

def foundStats (layout : Layout) (owed : CellHash → Int) (infos : List CellInfo) : Stats where
  rootsTotalCount := (foundRoots owed infos).length
  cellsTotalCount := infos.length
  cellsTotalSize := cellsSize layout infos

lemma foundRoots_append (owed : CellHash → Int) (passed : List CellInfo) (info : CellInfo) :
    foundRoots owed (passed ++ [info]) = if owed info.key ≠ 0 then foundRoots owed passed ++ [info.cell]
      else foundRoots owed passed := by
  unfold foundRoots
  rw [filter_append, map_append]
  by_cases isRoot : owed info.key = 0
  · simp [isRoot]
  · simp [isRoot]

lemma validateInfos_ok (graph : CellGraph sha known) (cells : StoredCells known infos)
    (counted : Counted (refHashes known) live (storedCount infos) owed)
    (nonneg : ∀ hash, 0 ≤ owed hash) (passed rest : List CellInfo) (whole : passed ++ rest = infos) :
    rest.foldlM (validateInfo layout infos) (foundRoots owed passed, foundStats layout owed passed) =
      .ok (foundRoots owed infos, foundStats layout owed infos) := by
  induction rest generalizing passed with
  | nil =>
    rw [append_nil] at whole
    subst whole
    rfl
  | cons info rest ih =>
    have member : info ∈ infos := by
      rw [← whole]
      simp
    have extra := cellRefCnt_eq graph cells counted member
    have atLeast := nonneg info.key
    have step : validateInfo layout infos (foundRoots owed passed, foundStats layout owed passed)
        info = .ok (foundRoots owed (passed ++ [info]),
          foundStats layout owed (passed ++ [info])) := by
      unfold validateInfo
      simp only [extra]
      rw [if_neg (by omega), foundRoots_append]
      unfold foundStats
      rw [foundRoots_append]
      congr 2
      · simp only [Stats.mk.injEq]
        refine ⟨?_, ?_, ?_⟩
        · split <;> simp
        · simp
        · simp [cellsSize]
    rw [foldlM_cons, step, ok_bind]
    apply ih
    rw [append_assoc]
    exact whole

lemma buildRoots_eq {roots : List DataCell} (keyed : Keyed DataCell.reprHash roots) : buildRoots roots = roots := by
  suffices all : ∀ passed rest : List DataCell, passed ++ rest = roots →
      rest.foldl insertRoot passed = roots from all [] roots rfl
  intro passed rest
  induction rest generalizing passed with
  | nil =>
    intro whole
    rw [append_nil] at whole
    exact whole
  | cons root rest ih =>
    intro whole
    have fresh : lookup DataCell.reprHash passed root.reprHash = none := by
      rw [lookup_eq_none]
      intro other member same
      unfold Keyed at keyed
      rw [← whole, map_append, map_cons] at keyed
      have disjoint := (nodup_append.mp keyed).2.2
      exact disjoint _ (mem_map_of_mem member) _ mem_cons_self same
    have inserted : insertRoot passed root = passed ++ [root] := by
      unfold insertRoot
      rw [fresh]
    rw [foldl_cons, inserted]
    apply ih
    rw [append_assoc]
    exact whole

lemma foundRoots_keyed (owed : CellHash → Int) (cells : StoredCells known infos) :
    Keyed DataCell.reprHash (foundRoots owed infos) := by
  unfold Keyed foundRoots
  rw [map_map]
  exact cells.keyed.sublist (List.Sublist.map CellInfo.key filter_sublist)

lemma build_eq (graph : CellGraph sha known) (consistent : ConsistentStore known kv owed) :
    build layout kv = .ok
      { infos := kv.map scan
        localRoots := foundRoots owed (kv.map scan)
        roots := foundRoots owed (kv.map scan)
        stats := foundStats layout owed (kv.map scan) } := by
  obtain ⟨live, counted⟩ := consistent.counted
  rw [← storedCount_scan] at counted
  have cells := consistent.storedCells
  have resets : (kv.map scan).mapM (resetRefs (kv.map scan)) = .ok (kv.map scan) := by
    rw [mapM_ok_of_forall fun info member =>
      resetRefs_ok graph cells counted consistent.nonneg member, map_id']
  have validated := @validateInfos_ok _ layout _ _ _ _ graph cells counted consistent.nonneg [] (kv.map scan) rfl
  have size := InMemory.cellsSize_nonneg layout (kv.map scan)
  have checked : Stats.empty.applyDiff (foundStats layout owed (kv.map scan)) =
      .ok (foundStats layout owed (kv.map scan)) := by
    unfold Stats.applyDiff Stats.empty foundStats
    simp only [Int.zero_add]
    rw [if_neg (by omega), if_neg (by omega), if_neg (by omega)]
  unfold build
  show ((kv.map scan).mapM (resetRefs (kv.map scan)) >>= _) = _
  rw [resets, ok_bind]
  unfold validateBucketA
  rw [show (([], Stats.empty) : List DataCell × Stats) =
    (foundRoots owed [], foundStats layout owed []) from rfl, validated, ok_bind]
  simp only []
  rw [checked, ok_bind, buildRoots_eq (foundRoots_keyed owed cells)]

end CellStorage

lemma isRoot_found (consistent : ConsistentStore known kv owed) {stats : Stats}
    (hash : CellHash) :
    isRoot
        { infos := kv.map scan
          localRoots := foundRoots owed (kv.map scan)
          roots := foundRoots owed (kv.map scan), stats } hash ↔
      0 < owed hash := by
  obtain ⟨live, counted⟩ := consistent.counted
  rw [← storedCount_scan] at counted
  have cells := consistent.storedCells
  have atLeast := consistent.nonneg hash
  show (∃ root ∈ foundRoots owed (kv.map scan), root.reprHash = hash) ↔ _
  unfold foundRoots
  constructor
  · rintro ⟨root, member, rfl⟩
    obtain ⟨info, isFound, rfl⟩ := mem_map.mp member
    have different : owed info.cell.reprHash ≠ 0 := of_decide_eq_true (mem_filter.mp isFound).2
    omega
  · intro isOwed
    obtain ⟨info, member, rfl⟩ := (cells.mem_live counted).mp (counted.mem_of_owed isOwed)
    refine ⟨info.cell, mem_map_of_mem (mem_filter.mpr ⟨member, ?_⟩), rfl⟩
    exact decide_eq_true (by omega)

lemma build_ok (graph : CellGraph sha known) (consistent : ConsistentStore known kv owed) :
    ∃ storage, build layout kv = .ok storage ∧
      Settled layout known storage kv owed ∧ ∀ hash, isRoot storage hash ↔ 0 < owed hash := by
  have cells := consistent.storedCells
  refine ⟨_, build_eq graph consistent, ?_, isRoot_found consistent⟩
  constructor
  case cells => exact cells
  case counted =>
    obtain ⟨live, counted⟩ := consistent.counted
    rw [← storedCount_scan] at counted
    exact ⟨live, counted⟩
  case nonneg => exact consistent.nonneg
  case kvKeyed => exact consistent.keyed
  case mirrors => exact mirrors_scan kv
  case owedRoot => exact fun hash => (isRoot_found consistent hash).mpr
  case cellsTotal => rfl
  case sizeTotal => rfl
  case roots =>
    refine ⟨foundRoots_keyed owed cells, ?_, rfl, rfl⟩
    intro root member
    obtain ⟨info, isFound, rfl⟩ := mem_map.mp member
    exact cells.known info (mem_filter.mp isFound).1

lemma Settled.consistent {storage : CellStorage}
    (settled : Settled layout known storage kv owed) : ConsistentStore known kv owed := by
  have inTable : ∀ stored ∈ kv, ∃ info ∈ storage.infos,
      info.dbRefcnt = stored.refcnt ∧ info.cell = stored.cell := by
    intro stored member
    have same := settled.mirrors stored.key
    rw [settled.kvKeyed.lookup_mem member, Option.map_some] at same
    obtain ⟨info, found, value⟩ := Option.map_eq_some_iff.mp same.symm
    exact ⟨info, (lookup_some found).1, (Prod.mk.inj value).1, (Prod.mk.inj value).2⟩
  refine ⟨settled.kvKeyed, ?_, ?_, ?_, ?_, settled.nonneg⟩
  · intro stored member
    obtain ⟨info, isInfo, _, sameCell⟩ := inTable stored member
    rw [← sameCell]
    exact settled.cells.known info isInfo
  · intro stored member
    obtain ⟨info, isInfo, sameCount, _⟩ := inTable stored member
    rw [← sameCount]
    exact settled.cells.positive info isInfo
  · intro stored member
    obtain ⟨info, isInfo, sameCount, _⟩ := inTable stored member
    rw [← sameCount]
    exact settled.cells.few info isInfo
  · have sameCounts : kvCount kv = storedCount storage.infos := by
      funext hash
      have same := congrArg (fun value => (value.map Prod.fst).getD 0) (settled.mirrors hash)
      simp only [Option.map_map] at same
      exact same
    rw [sameCounts]
    exact settled.counted

end TonNode.Db
