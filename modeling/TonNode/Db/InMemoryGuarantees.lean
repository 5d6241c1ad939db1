import TonNode.Db.InMemoryCommit
import TonNode.Vm.BocGuarantees

/-!
# The in-memory database and a reload of what it wrote

The cells and their counts always agree with a reload. The roots agree after a commit exactly if
every root that the commit leaves without a count is a stored cell that goes with it.
-/

namespace TonNode.Db

open Vm Lib InMemory
open List hiding lookup

variable {sha : Sha256} {layout : Layout} {known : DataCell → Prop} {hash : CellHash}

/-- Two databases with the same cells, counts, statistics and roots. -/
structure Agrees (first second : CellStorage) : Prop where
  cells : ∀ hash, first.getInfo hash = second.getInfo hash
  stats : first.stats = second.stats
  roots : ∀ hash, (∃ root, first.loadRootLocal hash = .ok root) ↔ ∃ root, second.loadRootLocal hash = .ok root

lemma loadRootLocal_ok {storage : CellStorage} : (∃ root, storage.loadRootLocal hash = .ok root) ↔ isRoot storage hash := by
  rw [isRoot_iff]
  unfold CellStorage.loadRootLocal
  cases lookup DataCell.reprHash storage.localRoots hash with
  | none => simp
  | some root => simp

section Comparing

variable {first second : CellStorage} {kv : KeyValue} {owed : CellHash → Int}

section

variable (left : Settled layout known first kv owed) (right : Settled layout known second kv owed)
include left right

lemma Settled.sameCells (hash : CellHash) : first.getInfo hash = second.getInfo hash := by
  have injective : Function.Injective fun info : CellInfo => (info.dbRefcnt, info.cell) := by
    rintro ⟨_, _⟩ ⟨_, _⟩ same
    simpa using same
  apply Option.map_injective injective
  exact (left.mirrors hash).symm.trans (right.mirrors hash)

lemma Settled.infos_perm : first.infos.Perm second.infos := by
  rw [perm_ext_iff_of_nodup left.cells.keyed.of_map right.cells.keyed.of_map]
  intro info
  have same := left.sameCells right info.key
  unfold CellStorage.getInfo at same
  constructor
  · intro member
    rw [left.cells.keyed.lookup_mem member] at same
    exact (lookup_some same.symm).1
  · intro member
    rw [right.cells.keyed.lookup_mem member] at same
    exact (lookup_some same).1

end

lemma RootSet.perm (graph : CellGraph sha known) (left : RootSet known first)
    (right : RootSet known second) (same : ∀ hash, isRoot first hash ↔ isRoot second hash) :
    first.localRoots.Perm second.localRoots := by
  rw [perm_ext_iff_of_nodup left.keyed.of_map right.keyed.of_map]
  intro root
  constructor
  · intro member
    obtain ⟨other, otherMember, sameHash⟩ := (same root.reprHash).mp ⟨root, member, rfl⟩
    rw [← graph.distinct _ _ (right.known other otherMember) (left.known root member) sameHash]
    exact otherMember
  · intro member
    obtain ⟨other, otherMember, sameHash⟩ := (same root.reprHash).mpr ⟨root, member, rfl⟩
    rw [← graph.distinct _ _ (left.known other otherMember) (right.known root member) sameHash]
    exact otherMember

lemma Settled.agrees_iff (graph : CellGraph sha known)
    (left : Settled layout known first kv owed) (right : Settled layout known second kv owed) :
    Agrees first second ↔ ∀ hash, isRoot first hash ↔ isRoot second hash := by
  constructor
  · intro agrees hash
    rw [← loadRootLocal_ok, ← loadRootLocal_ok]
    exact agrees.roots hash
  intro same
  have cellsPerm := left.infos_perm right
  have rootsPerm := left.roots.perm graph right.roots same
  refine ⟨left.sameCells right, ?_, ?_⟩
  · have size : cellsSize layout first.infos = cellsSize layout second.infos := (cellsPerm.map _).sum_eq
    have roots : first.stats.rootsTotalCount = second.stats.rootsTotalCount := by
      rw [left.roots.total, right.roots.total, rootsPerm.length_eq]
    have count : first.stats.cellsTotalCount = second.stats.cellsTotalCount := by
      rw [left.cellsTotal, right.cellsTotal, cellsPerm.length_eq]
    have sizes : first.stats.cellsTotalSize = second.stats.cellsTotalSize := by
      rw [left.sizeTotal, right.sizeTotal, size]
    cases firstStats : first.stats
    cases secondStats : second.stats
    simp_all
  · intro hash
    rw [loadRootLocal_ok, loadRootLocal_ok]
    exact same hash

lemma Settled.stored_iff (graph : CellGraph sha known) (settled : Settled layout known first kv owed) :
    0 < storedCount first.infos hash ↔ ReachableFrom (refHashes known) (fun root => 0 < owed root) hash := by
  obtain ⟨live, counted⟩ := settled.counted
  rw [← counted.mem_iff]
  refine @Counted.mem_iff_reachable _ _ _ _ _ _ counted settled.nonneg (hashDepth known) ?_ hash
  intro parent isLive child isChild
  obtain ⟨info, member, rfl⟩ := (settled.cells.mem_live counted).mp isLive
  exact graph.descends (settled.cells.known info member) isChild

end Comparing

structure Session where
  db : InMemory
  kv : KeyValue
  owed : CellHash → Int

namespace Session

def Candidate (session : Session) (hash : CellHash) : Prop :=
  isRoot session.db.storage hash ∨ hash ∈ hashes session.db.toInc

/-- Every root that is no longer needed is a stored cell that is not below a needed root. -/
def RootsVanish (known : DataCell → Prop) (session : Session) : Prop :=
  ∀ hash, session.Candidate hash → session.owed hash = 0 → 0 < storedCount session.db.storage.infos hash ∧
      ¬ReachableFrom (refHashes known) (fun root => 0 < session.owed root) hash

/-- With all that is to be added and nothing yet given back, every cell is counted less than
`2 ^ 31 - 1` times, so that no 32-bit count overflows. -/
def CountsFit (known : DataCell → Prop) (session : Session) : Prop :=
  ∃ live counts, Counted (refHashes known) live counts (session.owed + references (hashes session.db.toDec)) ∧
    ∀ hash, counts hash + 1 < 2 ^ 31

/-- Runs on a database created from a consistent store; only needed roots are given back, and
at a commit the counts fit and the roots that are not needed vanish. -/
inductive Reaches (sha : Sha256) (layout : Layout) (known : DataCell → Prop) : Session → Prop where
  | create {db : InMemory} {kv : KeyValue} {owed : CellHash → Int} :
      ConsistentStore known kv owed → createInMemory layout kv = .ok db →
      Reaches sha layout known ⟨db, kv, owed⟩
  | inc {session : Session} {cell : DataCell} :
      Reaches sha layout known session → known cell →
      Reaches sha layout known { session with db := session.db.inc cell, owed := session.owed + one cell.reprHash }
  | dec {session : Session} {cell : DataCell} :
      Reaches sha layout known session → known cell → 0 < session.owed cell.reprHash →
      Reaches sha layout known { session with db := session.db.dec cell, owed := session.owed - one cell.reprHash }
  | commit {session : Session} {db : InMemory} {kv : KeyValue} :
      Reaches sha layout known session → session.CountsFit known → session.RootsVanish known →
      commit sha layout session.db session.kv = .ok (db, kv) →
      Reaches sha layout known { session with db, kv }

/-- What holds between two operations. `before` counts the roots at the last commit. -/
structure Valid (layout : Layout) (known : DataCell → Prop) (session : Session)
    (before : CellHash → Int) : Prop where
  settled : Settled layout known session.db.storage session.kv before
  noInfos : session.db.infos = []
  incKnown : ∀ cell ∈ session.db.toInc, known cell
  decKnown : ∀ cell ∈ session.db.toDec, known cell
  nonneg : ∀ hash, 0 ≤ session.owed hash
  sum : before + references (hashes session.db.toInc) = session.owed + references (hashes session.db.toDec)
  exactRoots : ∀ hash, isRoot session.db.storage hash ↔ 0 < before hash

variable {session : Session} {before : CellHash → Int} {cell : DataCell}

lemma Valid.inc (valid : Valid layout known session before)
    (isKnown : known cell) :
    Valid layout known
      { session with db := session.db.inc cell, owed := session.owed + one cell.reprHash }
      before :=
  { valid with
    incKnown := forall_mem_append.mpr ⟨valid.incKnown, forall_mem_singleton.mpr isKnown⟩
    nonneg := fun hash => Int.add_nonneg (valid.nonneg hash) (one_nonneg _ _)
    sum := by
      show before + references (hashes (session.db.toInc ++ [cell])) =
        session.owed + one cell.reprHash + references (hashes session.db.toDec)
      rw [references_hashes_append, ← add_assoc, valid.sum, add_right_comm] }

lemma Valid.dec (valid : Valid layout known session before)
    (isKnown : known cell) (needed : 0 < session.owed cell.reprHash) :
    Valid layout known
      { session with db := session.db.dec cell, owed := session.owed - one cell.reprHash }
      before :=
  { valid with
    decKnown := forall_mem_append.mpr ⟨valid.decKnown, forall_mem_singleton.mpr isKnown⟩
    nonneg := sub_one_nonneg valid.nonneg needed
    sum := by
      show before + references (hashes session.db.toInc) =
        session.owed - one cell.reprHash + references (hashes (session.db.toDec ++ [cell]))
      rw [references_hashes_append, valid.sum]
      abel }

/-- A commit succeeds, and its roots are those that are still needed exactly if the others
vanish. -/
lemma Valid.commit (graph : CellGraph sha known) (valid : Valid layout known session before)
    (fit : session.CountsFit known) :
    ∃ db kv, commit sha layout session.db session.kv = .ok (db, kv) ∧ db.infos = [] ∧ db.toInc = [] ∧ db.toDec = [] ∧
      Settled layout known db.storage kv session.owed ∧
      ((∀ hash, isRoot db.storage hash ↔ 0 < session.owed hash) ↔ session.RootsVanish known) := by
  obtain ⟨fitLive, fitCounts, fitCounted, few⟩ := fit
  have allFew : ∀ live counts, Counted (refHashes known) live counts (session.owed + references (hashes session.db.toDec)) →
      ∀ hash, counts hash + 1 < 2 ^ 31 := by
    intro live counts counted
    have nonneg : ∀ hash, 0 ≤ (session.owed + references (hashes session.db.toDec)) hash := fun hash =>
      Int.add_nonneg (valid.nonneg hash) (references_nonneg _ _)
    rw [counted.unique fitCounted nonneg graph.descends_hash]
    exact few
  obtain ⟨db, kv, committed, noInfos, noInc, noDec, settled, roots⟩ :=
    commit_ok graph valid.settled valid.noInfos valid.incKnown valid.decKnown valid.nonneg valid.sum allFew
  refine ⟨db, kv, committed, noInfos, noInc, noDec, settled, ?_⟩
  constructor
  · intro exact hash candidate notNeeded
    have isGone : ¬isRoot db.storage hash := by
      rw [exact hash, notNeeded]
      exact lt_irrefl 0
    rw [roots hash] at isGone
    have lost : ¬(0 < storedCount session.db.storage.infos hash →
        0 < storedCount db.storage.infos hash) := fun kept => isGone ⟨candidate, kept⟩
    rw [Classical.not_imp] at lost
    exact ⟨lost.1, fun reachable => lost.2 ((settled.stored_iff graph).mpr reachable)⟩
  · intro vanish hash
    constructor
    · intro isRoot
      obtain ⟨candidate, kept⟩ := (roots hash).mp isRoot
      by_contra notNeeded
      have atLeast := valid.nonneg hash
      obtain ⟨wasStored, notBelow⟩ := vanish hash candidate (by omega)
      exact notBelow ((settled.stored_iff graph).mp (kept wasStored))
    · exact settled.owedRoot hash

lemma Reaches.valid (graph : CellGraph sha known) (reaches : Reaches sha layout known session) :
    ∃ before, Valid layout known session before := by
  induction reaches with
  | @create db kv owed consistent created =>
    obtain ⟨storage, built, settled, roots⟩ := @build_ok _ layout _ _ _ graph consistent
    unfold createInMemory at created
    rw [built, ok_bind] at created
    cases Except.ok.inj created
    refine ⟨owed, settled, rfl, ?_, ?_, consistent.nonneg, rfl, roots⟩
    · exact fun _ member => absurd member not_mem_nil
    · exact fun _ member => absurd member not_mem_nil
  | inc _ isKnown ih =>
    obtain ⟨before, valid⟩ := ih
    exact ⟨before, valid.inc isKnown⟩
  | dec _ isKnown needed ih =>
    obtain ⟨before, valid⟩ := ih
    exact ⟨before, valid.dec isKnown needed⟩
  | @commit session db kv _ fit vanish committed ih =>
    obtain ⟨before, valid⟩ := ih
    obtain ⟨next, nextKv, same, noInfos, noInc, noDec, settled, roots⟩ := valid.commit graph fit
    obtain ⟨rfl, rfl⟩ := Prod.mk.inj (Except.ok.inj (committed.symm.trans same))
    refine ⟨session.owed, settled, noInfos, ?_, ?_, valid.nonneg, ?_, roots.mpr vanish⟩
    · rw [noInc]
      exact fun _ member => absurd member not_mem_nil
    · rw [noDec]
      exact fun _ member => absurd member not_mem_nil
    · rw [noInc, noDec]

end Session

/-- After any run a commit of counts that fit succeeds and its store can be loaded, with the same
cells and counts, and with the same statistics and roots exactly if every root that is no longer
needed vanishes. -/
theorem inMemory_commit_agrees_iff (graph : CellGraph sha known) {session : Session}
    (reaches : session.Reaches sha layout known) (fit : session.CountsFit known) :
    ∃ db kv fresh,
      commit sha layout session.db session.kv = .ok (db, kv) ∧
      createInMemory layout kv = .ok fresh ∧
      (∀ hash, db.storage.getInfo hash = fresh.storage.getInfo hash) ∧
      (Agrees db.storage fresh.storage ↔ session.RootsVanish known) := by
  obtain ⟨before, valid⟩ := reaches.valid graph
  obtain ⟨db, kv, committed, _, _, _, settled, roots⟩ := valid.commit graph fit
  obtain ⟨storage, built, fresh, freshRoots⟩ := @build_ok _ layout _ _ _ graph settled.consistent
  refine ⟨db, kv, { storage, infos := [], toInc := [], toDec := [] }, committed, ?_, settled.sameCells fresh, ?_⟩
  · unfold createInMemory
    rw [built, ok_bind]
  · rw [settled.agrees_iff graph fresh, ← roots]
    simp only [freshRoots]

/-! Four cells and two roots, one of them below the other. Both are counted by one commit, and the
upper one is given back before the next. -/

def isShared (cell : DataCell) : Prop := cell ∈ sharedCells

lemma sharedCells_graph : CellGraph countSha isShared where
  created := sharedCells_created
  refs := by
    intro cell isKnown ref isRef
    exact mem_sharedCells (forall_mem_singleton.mpr isKnown) (.ref (.root mem_cons_self) isRef)
  distinct := fun _ _ firstShared secondShared same =>
    inj_on_of_nodup_map sharedCells_nodup firstShared secondShared same

def sharedHashes : Finset CellHash := (hashes sharedCells).toFinset

lemma mem_sharedHashes : hash ∈ sharedHashes ↔ ∃ cell, isShared cell ∧ cell.reprHash = hash := by
  simp [sharedHashes, hashes, isShared]

def sharedRoots : CellHash → Int := one topCell.reprHash + one lowCell.reprHash

noncomputable def sharedCounts (hash : CellHash) : Int :=
  sharedRoots hash + ∑ parent ∈ sharedHashes, references (refHashes isShared parent) hash

lemma sharedRoots_eq_zero (notTop : hash ≠ topCell.reprHash) (notLow : hash ≠ lowCell.reprHash) : sharedRoots hash = 0 := by
  show one topCell.reprHash hash + one lowCell.reprHash hash = 0
  rw [one_of_ne notTop, one_of_ne notLow, add_zero]

lemma sharedRoots_pos : 0 < sharedRoots topCell.reprHash ∧ 0 < sharedRoots lowCell.reprHash := by
  have top := one_nonneg topCell.reprHash lowCell.reprHash
  have low := one_nonneg lowCell.reprHash topCell.reprHash
  constructor
  · show 0 < one topCell.reprHash topCell.reprHash + one lowCell.reprHash topCell.reprHash
    rw [one_self]
    omega
  · show 0 < one topCell.reprHash lowCell.reprHash + one lowCell.reprHash lowCell.reprHash
    rw [one_self]
    omega

lemma sharedRoots_nonneg (hash : CellHash) : 0 ≤ sharedRoots hash :=
  Int.add_nonneg (one_nonneg _ _) (one_nonneg _ _)

lemma sharedCounts_root (isOwed : 0 < sharedRoots hash) : 0 < sharedCounts hash :=
  Int.add_pos_of_pos_of_nonneg isOwed (Finset.sum_nonneg fun _ _ => references_nonneg _ _)

lemma sharedCounts_ref {cell ref : DataCell} (shared : isShared cell) (isRef : ref ∈ cell.refs) :
    0 < sharedCounts ref.reprHash := by
  have held : 0 < references (refHashes isShared cell.reprHash) ref.reprHash := by
    rw [sharedCells_graph.refHashes_eq shared, references_pos]
    exact mem_map_of_mem isRef
  have one := Finset.single_le_sum (fun parent _ => references_nonneg (refHashes isShared parent) ref.reprHash)
    (mem_sharedHashes.mpr ⟨cell, shared, rfl⟩)
  have owed := sharedRoots_nonneg ref.reprHash
  unfold sharedCounts
  omega

lemma sharedCells_counted : Counted (refHashes isShared) sharedHashes sharedCounts sharedRoots where
  positive := by
    obtain ⟨_, low, middle, top⟩ := sharedCells_refs
    have all : ∀ cell ∈ sharedCells, 0 < sharedCounts cell.reprHash := by
      simp only [sharedCells, forall_mem_cons]
      refine ⟨sharedCounts_root sharedRoots_pos.1, ?_, sharedCounts_root sharedRoots_pos.2, ?_, by simp⟩
      · exact @sharedCounts_ref topCell middleCell (by simp [isShared, sharedCells]) (by simp [top])
      · exact @sharedCounts_ref lowCell leafCell (by simp [isShared, sharedCells]) (by simp [low])
    intro hash member
    obtain ⟨cell, shared, rfl⟩ := mem_sharedHashes.mp member
    exact all cell shared
  dead := by
    intro hash notShared
    have apart : ∀ cell, isShared cell → hash ≠ cell.reprHash := fun cell shared same =>
      notShared (mem_sharedHashes.mpr ⟨cell, shared, same.symm⟩)
    have noRefs : ∑ parent ∈ sharedHashes, references (refHashes isShared parent) hash = 0 := by
      apply Finset.sum_eq_zero
      intro parent member
      obtain ⟨cell, shared, rfl⟩ := mem_sharedHashes.mp member
      rw [sharedCells_graph.refHashes_eq shared]
      have absent : ¬0 < references (cell.refs.map DataCell.reprHash) hash := by
        rw [references_pos]
        intro isRef
        obtain ⟨ref, refMember, rfl⟩ := mem_map.mp isRef
        exact apart ref (sharedCells_graph.refs cell shared ref refMember) rfl
      exact le_antisymm (Int.not_lt.mp absent) (references_nonneg _ _)
    unfold sharedCounts
    rw [noRefs, sharedRoots_eq_zero (apart topCell (by simp [isShared, sharedCells]))
      (apart lowCell (by simp [isShared, sharedCells])), add_zero]
  balance := fun _ => rfl

lemma sharedCounts_few (hash : CellHash) : sharedCounts hash + 1 < 2 ^ 31 := by
  have roots : sharedRoots hash ≤ 2 := by
    show one topCell.reprHash hash + one lowCell.reprHash hash ≤ 2
    unfold one
    split <;> split <;> decide
  have refs : ∀ cell ∈ sharedCells, cell.refs.length ≤ 2 := by decide +kernel
  have held : ∑ parent ∈ sharedHashes, references (refHashes isShared parent) hash ≤ ∑ _parent ∈ sharedHashes, 2 := by
    apply Finset.sum_le_sum
    intro parent member
    obtain ⟨cell, shared, rfl⟩ := mem_sharedHashes.mp member
    rw [sharedCells_graph.refHashes_eq shared]
    have atMost := references_le_length (cell.refs.map DataCell.reprHash) hash
    have two := refs cell shared
    rw [length_map] at atMost
    omega
  have four : sharedHashes.card ≤ 4 := toFinset_card_le _
  rw [Finset.sum_const, nsmul_eq_mul] at held
  unfold sharedCounts
  omega

/-- Nothing below the lower root is the upper one. -/
lemma topCell_not_below {isRoot : CellHash → Prop} (only : ∀ root, isRoot root → root = lowCell.reprHash) :
    ¬ReachableFrom (refHashes isShared) isRoot topCell.reprHash := by
  intro reachable
  have shallow : ∀ node, ReachableFrom (refHashes isShared) isRoot node →
      hashDepth isShared node ≤ hashDepth isShared lowCell.reprHash := by
    intro node below
    induction below with
    | root found => rw [only _ found]
    | child _ isChild ih => exact (sharedCells_graph.descends_hash _ _ isChild).le.trans ih
  have deep := shallow _ reachable
  rw [sharedCells_graph.hashDepth_eq (show isShared topCell by simp [isShared, sharedCells]),
    sharedCells_graph.hashDepth_eq (show isShared lowCell by simp [isShared, sharedCells])] at deep
  exact absurd deep (by decide +kernel)

lemma emptyStore_consistent (known : DataCell → Prop) : ConsistentStore known [] 0 where
  keyed := nodup_nil
  areKnown := fun _ member => absurd member not_mem_nil
  positive := fun _ member => absurd member not_mem_nil
  few := fun _ member => absurd member not_mem_nil
  counted := by
    refine ⟨∅, ?_, ?_, ?_⟩
    · exact fun _ member => absurd member (Finset.notMem_empty _)
    · exact fun _ _ => rfl
    · exact fun _ => rfl
  nonneg := fun _ => le_rfl

/-- The session before its first commit. -/
def sharedSession : Session where
  db :=
    { storage := { infos := [], localRoots := [], roots := [], stats := Stats.empty }
      infos := []
      toInc := [topCell, lowCell]
      toDec := [] }
  kv := []
  owed := 0 + one topCell.reprHash + one lowCell.reprHash

lemma sharedSession_reaches : sharedSession.Reaches countSha ⟨0, 0⟩ isShared := by
  have start : Session.Reaches countSha ⟨0, 0⟩ isShared
      { sharedSession with db := { sharedSession.db with toInc := [] }, owed := 0 } :=
    .create (emptyStore_consistent isShared) rfl
  exact (start.inc (show isShared topCell by simp [isShared, sharedCells])).inc
    (show isShared lowCell by simp [isShared, sharedCells])

lemma sharedSession_owed : sharedSession.owed = sharedRoots := by
  show 0 + one topCell.reprHash + one lowCell.reprHash = sharedRoots
  rw [zero_add]
  rfl

lemma sharedSession_fit : sharedSession.CountsFit isShared := by
  refine ⟨sharedHashes, sharedCounts, ?_, sharedCounts_few⟩
  show Counted _ _ _ (sharedSession.owed + references [])
  rw [references_nil, add_zero, sharedSession_owed]
  exact sharedCells_counted

lemma sharedSession_vanish : sharedSession.RootsVanish isShared := by
  intro hash candidate notNeeded
  exfalso
  rw [sharedSession_owed] at notNeeded
  rcases candidate with ⟨root, member, _⟩ | isNew
  · exact absurd member not_mem_nil
  · have isRoot : hash = topCell.reprHash ∨ hash = lowCell.reprHash := by
      simpa [sharedSession, hashes] using isNew
    rcases isRoot with isTop | isLow
    · rw [isTop] at notNeeded
      exact absurd notNeeded sharedRoots_pos.1.ne'
    · rw [isLow] at notNeeded
      exact absurd notNeeded sharedRoots_pos.2.ne'

/-- The session that gives the upper root back after a commit. -/
def Session.withoutTop (session : Session) : Session :=
  { session with db := session.db.dec topCell, owed := session.owed - one topCell.reprHash }

section

variable {db : InMemory} {kv : KeyValue}

lemma withoutTop_owed : (Session.withoutTop ⟨db, kv, sharedRoots⟩).owed = one lowCell.reprHash :=
  add_sub_cancel_left _ _

lemma withoutTop_fit (noDec : db.toDec = []) : (Session.withoutTop ⟨db, kv, sharedRoots⟩).CountsFit isShared := by
  refine ⟨sharedHashes, sharedCounts, ?_, sharedCounts_few⟩
  show Counted _ _ _ (sharedRoots - one topCell.reprHash + references (hashes (db.toDec ++ [topCell])))
  rw [noDec, references_hashes_append]
  show Counted _ _ _ (sharedRoots - one topCell.reprHash + (references [] + one topCell.reprHash))
  rw [references_nil, zero_add, sub_add_cancel]
  exact sharedCells_counted

lemma withoutTop_vanish {layout : Layout} (noInc : db.toInc = []) (settled : Settled layout isShared db.storage kv sharedRoots)
    (exactRoots : ∀ hash, isRoot db.storage hash ↔ 0 < sharedRoots hash) :
    (Session.withoutTop ⟨db, kv, sharedRoots⟩).RootsVanish isShared := by
  intro hash candidate notNeeded
  rw [withoutTop_owed] at notNeeded
  have isRoot : 0 < sharedRoots hash := by
    rcases candidate with already | isNew
    · exact (exactRoots hash).mp already
    · have new : hash ∈ hashes db.toInc := isNew
      rw [noInc] at new
      exact absurd new not_mem_nil
  have notLow : hash ≠ lowCell.reprHash := by
    intro isLow
    rw [isLow, one_self] at notNeeded
    exact absurd notNeeded one_ne_zero
  have isTop : hash = topCell.reprHash := by
    by_contra notTop
    exact absurd (sharedRoots_eq_zero notTop notLow) isRoot.ne'
  rw [isTop]
  refine ⟨(settled.stored_iff sharedCells_graph).mpr (.root sharedRoots_pos.1), topCell_not_below ?_⟩
  intro root needed
  rw [withoutTop_owed] at needed
  by_contra different
  rw [one_of_ne different] at needed
  exact absurd needed (lt_irrefl 0)

end

theorem inMemory_commit_agrees_shared : ∃ session : Session,
    session.Reaches countSha ⟨0, 0⟩ isShared ∧
    session.CountsFit isShared ∧
    hashes session.db.toDec = [topCell.reprHash] ∧
    isRoot session.db.storage topCell.reprHash ∧
    isRoot session.db.storage lowCell.reprHash ∧
    ∃ db kv fresh,
      commit countSha ⟨0, 0⟩ session.db session.kv = .ok (db, kv) ∧
      createInMemory ⟨0, 0⟩ kv = .ok fresh ∧
      Agrees db.storage fresh.storage := by
  obtain ⟨before, valid⟩ := sharedSession_reaches.valid sharedCells_graph
  obtain ⟨db, kv, committed, _, noInc, noDec, settled, roots⟩ := valid.commit sharedCells_graph sharedSession_fit
  have exactRoots := roots.mpr sharedSession_vanish
  have afterCommit := sharedSession_reaches.commit sharedSession_fit sharedSession_vanish committed
  rw [sharedSession_owed] at exactRoots settled afterCommit
  have reaches : (Session.withoutTop ⟨db, kv, sharedRoots⟩).Reaches countSha ⟨0, 0⟩ isShared :=
    afterCommit.dec (show isShared topCell by simp [isShared, sharedCells]) sharedRoots_pos.1
  have fit := @withoutTop_fit db kv noDec
  obtain ⟨next, nextKv, fresh, done, created, _, agrees⟩ := inMemory_commit_agrees_iff sharedCells_graph reaches fit
  refine ⟨_, reaches, fit, ?_, (exactRoots _).mpr sharedRoots_pos.1, (exactRoots _).mpr sharedRoots_pos.2,
    next, nextKv, fresh, done, created, agrees.mpr (withoutTop_vanish noInc settled exactRoots)⟩
  show hashes (db.toDec ++ [topCell]) = _
  rw [noDec]
  rfl

/-! A cell that is a root of its own and is also referred to by another root stays a root of the
live database when it is given back. -/

def leadingSha : Sha256 where
  digest data := (data ++ List.replicate 256 false).take 256
  length_digest data := by
    rw [length_take, length_append, length_replicate]
    omega

def leadingCell (refs : List DataCell) : DataCell :=
  match DataCell.create leadingSha [] refs false DataCell.noHint with
  | .ok cell => cell
  | .error _ => emptyCell

def innerCell : DataCell := leadingCell []

def outerCell : DataCell := leadingCell [innerCell]

def innerGivenBack : Except String (InMemory × KeyValue) :=
  run leadingSha ⟨0, 0⟩ [] [.inc innerCell, .inc outerCell, .commit, .dec innerCell, .commit]

lemma innerGivenBack_roots : (innerGivenBack >>= fun (db, kv) => createInMemory ⟨0, 0⟩ kv >>= fun fresh =>
      .ok (db.storage.localRoots.map DataCell.reprHash, fresh.storage.localRoots.map DataCell.reprHash)) =
      .ok ([innerCell.reprHash, outerCell.reprHash], [outerCell.reprHash]) := by
  decide +kernel

theorem inMemory_commit_not_agrees : ∃ db kv fresh, innerGivenBack = .ok (db, kv) ∧
      createInMemory ⟨0, 0⟩ kv = .ok fresh ∧ (∃ root, db.storage.loadRootLocal innerCell.reprHash = .ok root) ∧
      (¬∃ root, fresh.storage.loadRootLocal innerCell.reprHash = .ok root) ∧ ¬Agrees db.storage fresh.storage := by
  obtain ⟨⟨db, kv⟩, ran, rest⟩ := bind_eq_ok.mp innerGivenBack_roots
  obtain ⟨fresh, created, hashLists⟩ := bind_eq_ok.mp rest
  obtain ⟨liveRoots, freshRoots⟩ := Prod.mk.inj (Except.ok.inj hashLists)
  have isLive : isRoot db.storage innerCell.reprHash := by
    have member : innerCell.reprHash ∈ db.storage.localRoots.map DataCell.reprHash := by
      rw [liveRoots]
      exact mem_cons_self
    exact mem_map.mp member
  have notFresh : ¬isRoot fresh.storage innerCell.reprHash := by
    rintro ⟨root, member, sameHash⟩
    have listed : innerCell.reprHash ∈ fresh.storage.localRoots.map DataCell.reprHash := mem_map.mpr ⟨root, member, sameHash⟩
    rw [freshRoots, mem_singleton] at listed
    exact absurd listed (by decide +kernel)
  refine ⟨db, kv, fresh, ran, created, loadRootLocal_ok.mpr isLive, ?_, ?_⟩
  · rw [loadRootLocal_ok]
    exact notFresh
  · intro agrees
    exact notFresh (loadRootLocal_ok.mp ((agrees.roots _).mp (loadRootLocal_ok.mpr isLive)))

end TonNode.Db
