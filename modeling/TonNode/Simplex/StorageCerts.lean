import TonNode.Simplex.PoolTallies

/-!
# Certificates are saved once

The table on disk together with the writes under way has at most one certificate
per slot and type. Each of them is stored in the pool, is waited for by a
coroutine, or belongs to a finalized slot.
-/

namespace TonNode.Simplex

open Consensus Lib List Nat

variable {n : Nat} {pool : Pool n} {disk : Disk} {entries : List (Bits256 × DbValue)} {params : NoncriticalParams}
variable {session : Session n} {records : Set (DbRecord n)}
variable {certificates : List (Certificate n)}
variable {poolState : Option Nat}
variable {bootstrap : Pool.Bootstrap n}

def Write.entry? : Write n → Option (Bits256 × DbValue)
  | .ourVote key vote seqno => some (key, .ourVote vote seqno)
  | .cert key certificate => some (key, .cert certificate.toTl)
  | .poolState _ _ _ => none

def Write.cert? : Write n → Option (Certificate n)
  | .cert _ certificate => some certificate
  | _ => none

def certs (writes : List (Write n)) : List (Certificate n) := writes.filterMap Write.cert?

@[simp] lemma certs_append (left right : List (Write n)) : certs (left ++ right) = certs left ++ certs right := by
  simp [certs]

def DbValue.certVote? : DbValue → Option Vote
  | .cert certificate => some certificate.vote
  | .ourVote _ _ => none

def certVotes (table : List (Bits256 × DbValue)) : List Vote :=
  table.filterMap fun entry => entry.2.certVote?

@[simp] lemma certVotes_append (left right : List (Bits256 × DbValue)) :
    certVotes (left ++ right) = certVotes left ++ certVotes right := by
  simp [certVotes]

/-- The key of an entry is the hash of the record it holds. -/
def Hashed (session : Session n) (records : Set (DbRecord n)) (entry : Bits256 × DbValue) : Prop :=
  (∃ vote seqno, .vote vote ∈ records ∧ entry = (session.recordHash (.vote vote), .ourVote vote seqno)) ∨
  ∃ cert, .certificate cert ∈ records ∧ entry = (session.recordHash (.certificate cert), .cert cert.toTl)

namespace Storage

def table (storage : Storage n) : List (Bits256 × DbValue) :=
  storage.disk.votes ++ storage.writes.filterMap Write.entry?

structure Indexed (session : Session n) (records : Set (DbRecord n)) (storage : Storage n) : Prop where
  saved : storage.db.savedVotes = (storage.table.map (·.1)).toFinset
  unique : (storage.table.map (·.1)).Nodup
  hashed : ∀ entry ∈ storage.table, Hashed session records entry

/-- `unsent` are certificates the pool is about to hand to the database. -/
structure SavedOnce (session : Session n) (records : Set (DbRecord n)) (unsent : List (Certificate n))
    (storage : Storage n) : Prop extends Indexed session records storage where
  saving : storage.pool.Saving
  pending : (certs storage.writes ++ certs storage.completed ++ unsent).Perm storage.pool.saving
  accepted : storage.refused = []
  distinct : ((certVotes storage.table ++ unsent.map (·.vote)).map Vote.entryKey).Nodup
  settled : ∀ vote ∈ certVotes storage.table, (∃ cert ∈ storage.pool.saving, cert.vote = vote) ∨
    storage.pool.certAt vote.referencedSlot vote.kind ≠ none ∨ vote.referencedSlot < storage.pool.state.firstNonFinalizedSlot

variable {session : Session n} {storage next : Storage n}

/-! ### Requests to the database -/

lemma table_accept (storage : Storage n) (write : Write n) (db : Db) :
    (storage.accept write db).table = storage.table ++ write.entry?.toList := by
  rw [table, accept, filterMap_append, ← append_assoc, table]
  cases entry : write.entry? <;> simp [entry]

variable {write : Write n} {db : Db} {key : Bits256} {cert : Certificate n}
variable {unsent : List (Certificate n)} {events : List (Published n)} {votes : List Vote}

lemma Indexed.append (indexed : storage.Indexed session records) {value : DbValue}
    (entry : write.entry? = some (key, value)) (hashed : Hashed session records (key, value))
    (absent : key ∉ storage.db.savedVotes) (saved : db.savedVotes = insert key storage.db.savedVotes) :
    (storage.accept write db).Indexed session records := by
  have table : (storage.accept write db).table = storage.table ++ [(key, value)] := by
    rw [table_accept, entry, Option.toList_some]
  rw [indexed.saved, mem_toFinset] at absent
  refine ⟨?_, ?_, ?_⟩
  · rw [accept, saved, ← accept, table, indexed.saved]
    ext other
    simp
  · rw [table, map_append]
    exact indexed.unique.append (by simp) (by simpa using absent)
  · rw [table]
    exact forall_mem_append.mpr ⟨indexed.hashed, forall_mem_singleton.mpr hashed⟩

/-- Without hash collisions a new certificate is never refused. -/
lemma Indexed.certificate_absent (collisionFree : Set.InjOn session.recordHash records)
    (indexed : storage.Indexed session records) (handed : .certificate cert ∈ records)
    (fresh : cert.vote ∉ certVotes storage.table) :
    session.recordHash (.certificate cert) ∉ storage.db.savedVotes := by
  rw [indexed.saved, mem_toFinset]
  intro member
  obtain ⟨entry, found, key⟩ := mem_map.mp member
  rcases indexed.hashed entry found with ⟨vote, seqno, earlier, rfl⟩ | ⟨other, earlier, rfl⟩
  · cases collisionFree earlier handed key
  · cases collisionFree earlier handed key
    exact fresh (mem_filterMap.mpr ⟨_, found, rfl⟩)

lemma SavedOnce.saveCertificate (collisionFree : Set.InjOn session.recordHash records)
    (savedOnce : storage.SavedOnce session records (cert :: unsent)) (handed : .certificate cert ∈ records) :
    (storage.saveCertificate session cert).SavedOnce session records unsent := by
  have distinct := savedOnce.distinct
  simp only [map_cons, map_append] at distinct
  have fresh : cert.vote ∉ certVotes storage.table := by
    intro member
    exact (nodup_append.mp distinct).2.2 _ (mem_map.mpr ⟨_, member, rfl⟩)
      _ (by simp) rfl
  have absent := savedOnce.certificate_absent collisionFree handed fresh
  simp only [Storage.saveCertificate, Db.processSaveCertificate, absent, if_false]
  refine { savedOnce.append rfl (.inr ⟨cert, handed, rfl⟩) absent rfl with
    saving := savedOnce.saving
    pending := ?_
    accepted := savedOnce.accepted
    distinct := ?_
    settled := ?_ }
  · refine List.Perm.trans ?_ savedOnce.pending
    simp only [accept, certs_append, append_assoc]
    refine List.Perm.append_left _ ?_
    simpa [certs, Write.cert?] using perm_middle.symm
  · rw [table_accept]
    simpa [Write.entry?, certVotes, DbValue.certVote?, Certificate.toTl] using savedOnce.distinct
  · rw [table_accept]
    intro vote member
    have cases : vote ∈ certVotes storage.table ∨ vote = cert.vote := by
      simpa [Write.entry?, certVotes, DbValue.certVote?, Certificate.toTl] using member
    rcases cases with earlier | rfl
    · exact savedOnce.settled vote earlier
    · exact .inl ⟨cert, savedOnce.pending.subset (by simp), rfl⟩

section

variable (savedOnce : storage.SavedOnce session records unsent)
include savedOnce

lemma SavedOnce.otherWrite (indexed : (storage.accept write db).Indexed session records) (noCert : write.cert? = none)
    (noVotes : certVotes write.entry?.toList = []) : (storage.accept write db).SavedOnce session records unsent := by
  have table : certVotes (storage.accept write db).table = certVotes storage.table := by
    rw [table_accept, certVotes_append, noVotes, append_nil]
  refine { indexed with
    saving := savedOnce.saving
    pending := ?_
    accepted := savedOnce.accepted
    distinct := ?_
    settled := ?_ }
  · simpa [accept, certs, noCert] using savedOnce.pending
  · rw [table]
    exact savedOnce.distinct
  · rw [table]
    exact savedOnce.settled

lemma SavedOnce.observeLeaderWindow {startSlot : Nat} {base : ParentId}
    (result : storage.observeLeaderWindow session startSlot base = .ok next) : next.SavedOnce session records unsent := by
  obtain ⟨⟨write, db⟩, processed, result⟩ := bind_eq_ok.mp result
  cases result
  simp only [Db.processLeaderWindowObserved] at processed
  split at processed
  · cases processed
    refine savedOnce.otherWrite ⟨?_, ?_, ?_⟩ rfl rfl
    · rw [table_accept]
      simpa [accept, Write.entry?] using savedOnce.saved
    · rw [table_accept]
      simpa [Write.entry?] using savedOnce.unique
    · rw [table_accept]
      simpa [Write.entry?] using savedOnce.hashed
  · cases processed

lemma SavedOnce.broadcastVote {vote : Vote} (handed : .vote vote ∈ records) :
    (storage.broadcastVote session vote).SavedOnce session records unsent := by
  by_cases present : session.recordHash (.vote vote) ∈ storage.db.savedVotes
  · simpa [Storage.broadcastVote, Db.processBroadcastVote, present] using savedOnce
  · simp only [Storage.broadcastVote, Db.processBroadcastVote, present, if_false]
    exact savedOnce.otherWrite (savedOnce.append rfl (.inl ⟨vote, storage.db.nextSeqno, handed, rfl⟩) present rfl) rfl rfl

end

lemma SavedOnce.route (collisionFree : Set.InjOn session.recordHash records)
    (savedOnce : storage.SavedOnce session records (saves events))
    (handed : ∀ cert ∈ saves events, .certificate cert ∈ records)
    (result : storage.route session events = .ok next) : next.SavedOnce session records [] := by
  induction events generalizing storage with
  | nil =>
    cases result
    exact savedOnce
  | cons event rest ih =>
    cases event with
    | saveCertificate cert =>
      obtain ⟨first, later⟩ := forall_mem_cons.mp handed
      exact ih (savedOnce.saveCertificate collisionFree first) later result
    | leaderWindowObserved startSlot base =>
      obtain ⟨observed, observedResult, result⟩ := bind_eq_ok.mp result
      have kept : storage.SavedOnce session records (saves rest) := savedOnce
      exact ih (kept.observeLeaderWindow observedResult) handed result
    | _ => exact ih savedOnce handed result

lemma route_preserve (Inv : Storage n → Prop)
    (saved : ∀ {storage cert}, .saveCertificate cert ∈ events → Inv storage → Inv (storage.saveCertificate session cert))
    (observed : ∀ {storage next startSlot base}, .leaderWindowObserved startSlot base ∈ events →
      storage.observeLeaderWindow session startSlot base = .ok next → Inv storage → Inv next)
    (start : Inv storage) (result : storage.route session events = .ok next) : Inv next := by
  induction events generalizing storage with
  | nil =>
    cases result
    exact start
  | cons event rest ih =>
    have step : ∀ {middle}, Inv middle → middle.route session rest = .ok next → Inv next :=
      fun {middle} reached routed => ih (fun member => saved (mem_cons_of_mem _ member))
        (fun member => observed (mem_cons_of_mem _ member)) reached routed
    cases event with
    | saveCertificate cert => exact step (saved mem_cons_self start) result
    | leaderWindowObserved startSlot base =>
      obtain ⟨middle, observedResult, result⟩ := bind_eq_ok.mp result
      exact step (observed mem_cons_self observedResult start) result
    | _ => exact step start result

lemma route_pool (result : storage.route session events = .ok next) : next.pool = storage.pool := by
  refine route_preserve (fun reached => reached.pool = storage.pool) ?_ ?_ rfl result
  · intro middle cert _ same
    unfold saveCertificate
    split <;> exact same
  · intro middle last startSlot base _ observed same
    obtain ⟨written, _, observed⟩ := bind_eq_ok.mp observed
    cases observed
    exact same

lemma Hands.saves (handed : Hands records votes next.pool)
    (result : storage.route session storage.pool.published = .ok next) :
    ∀ cert ∈ saves storage.pool.published, .certificate cert ∈ records := by
  intro cert member
  rw [route_pool result] at handed
  obtain ⟨event, listed, found⟩ := mem_filterMap.mp member
  cases event <;> cases found
  exact handed.certs cert listed

/-! ### Steps of the pool -/

lemma SavedOnce.begins (savedOnce : storage.SavedOnce session records [])
    (saving : pool.Saving)
    (begins : Pool.Begins { storage.pool with published := [] } pool) :
    ({ storage with pool } : Storage n).SavedOnce session records (saves pool.published) := by
  obtain ⟨added, frames, sent, tracked⟩ := begins.added
  have sentAdded : saves pool.published = added := sent
  rw [sentAdded]
  have frameKeys := saving.distinct
  rw [frames, map_append] at frameKeys
  refine { toIndexed := ⟨savedOnce.saved, savedOnce.unique, savedOnce.hashed⟩
           saving := saving
           pending := ?_
           accepted := savedOnce.accepted
           distinct := ?_
           settled := ?_ }
  · have earlier := savedOnce.pending
    rw [append_nil] at earlier
    rw [frames]
    exact earlier.append_right added
  · have tableKeys : ((certVotes storage.table).map Vote.entryKey).Nodup := by
      simpa using savedOnce.distinct
    have addedKeys : ((added.map (·.vote)).map Vote.entryKey).Nodup := by
      simpa [Function.comp_def] using frameKeys.of_append_right
    rw [map_append]
    refine tableKeys.append addedKeys ?_
    intro key inTable inAdded
    obtain ⟨vote, member, rfl⟩ := mem_map.mp inTable
    obtain ⟨_, addedVote, same⟩ := mem_map.mp inAdded
    obtain ⟨cert, isAdded, rfl⟩ := mem_map.mp addedVote
    have located : cert.vote.referencedSlot = vote.referencedSlot ∧
        cert.vote.kind = vote.kind := by simpa [Vote.entryKey] using same
    rcases savedOnce.settled vote member with ⟨other, waiting, rfl⟩ | present | behind
    · exact (nodup_append.mp frameKeys).2.2 _ (mem_map.mpr ⟨other, waiting, rfl⟩)
        _ (mem_map.mpr ⟨cert, isAdded, rfl⟩) same.symm
    · have absent := (saving.flagged cert (by rw [frames]; simp [isAdded])).2
      rw [begins.certAt, located.1, located.2] at absent
      exact present absent
    · have bound := tracked cert isAdded
      rw [located.1] at bound
      exact absurd behind (not_lt.mpr bound)
  · intro vote member
    rcases savedOnce.settled vote member with ⟨cert, waiting, same⟩ | present | behind
    · exact .inl ⟨cert, by rw [frames]; exact mem_append_left _ waiting, same⟩
    · exact .inr (.inl (by rw [begins.certAt]; exact present))
    · exact .inr (.inr (lt_of_lt_of_le behind begins.notEarlier))

lemma SavedOnce.completes (savedOnce : storage.SavedOnce session records [])
    (member : .cert key cert ∈ storage.completed)
    (completed : Pool.Completed cert { storage.pool with published := [] } pool) :
    ({ storage with
        completed := storage.completed.erase (.cert key cert)
        pool } : Storage n).SavedOnce session records (saves pool.published) := by
  have sent : saves pool.published = [] := completed.saves
  rw [sent]
  have waiting : (cert :: (certs storage.writes ++
      certs (storage.completed.erase (.cert key cert)))).Perm storage.pool.saving := by
    have earlier := savedOnce.pending
    rw [append_nil] at earlier
    have split := (perm_cons_erase member).filterMap Write.cert?
    exact (perm_middle.symm.trans (split.symm.append_left _)).trans earlier
  have isWaiting : cert ∈ storage.pool.saving := waiting.subset (by simp)
  refine { toIndexed := ⟨savedOnce.saved, savedOnce.unique, savedOnce.hashed⟩
           saving := completed.saving
           pending := ?_
           accepted := savedOnce.accepted
           distinct := savedOnce.distinct
           settled := ?_ }
  · rw [append_nil, completed.removed]
    exact (waiting.trans (perm_cons_erase isWaiting)).cons_inv
  intro vote inTable
  by_cases same : vote.entryKey = cert.vote.entryKey
  · have located : vote.referencedSlot = cert.vote.referencedSlot ∧
        vote.kind = cert.vote.kind := by simpa [Vote.entryKey] using same
    rw [located.1, located.2]
    rcases completed.settled with stored | behind
    · exact .inr (.inl (by simp [stored]))
    · exact .inr (.inr behind)
  · rcases savedOnce.settled vote inTable with ⟨other, isOther, rfl⟩ | present | behind
    · refine .inl ⟨other, ?_, rfl⟩
      rw [completed.removed]
      refine (mem_erase_of_ne ?_).mpr isOther
      rintro rfl
      exact same rfl
    · exact .inr (.inl (by rw [completed.certAt _ _ same]; exact present))
    · exact .inr (.inr (lt_of_lt_of_le behind completed.notEarlier))

lemma Disk.set_votes (fresh : key ∉ disk.votes.map (·.1)) (value : DbValue) :
    (disk.set key value).votes = disk.votes ++ [(key, value)] := by
  have kept : disk.votes.filter (·.1 ≠ key) = disk.votes := by
    refine filter_eq_self.mpr fun entry member => ?_
    have different : entry.1 ≠ key := by
      rintro rfl
      exact fresh (mem_map.mpr ⟨entry, member, rfl⟩)
    simpa using different
  rw [Disk.set, kept]

lemma Disk.apply_votes (fresh : ∀ entry, write.entry? = some entry → entry.1 ∉ disk.votes.map (·.1)) :
    (disk.apply write).votes = disk.votes ++ write.entry?.toList := by
  cases write with
  | ourVote key vote seqno | cert key certificate => exact Disk.set_votes (fresh _ rfl) _
  | poolState startSlot base window => simp [Disk.apply, Write.entry?]

lemma Indexed.apply_votes (indexed : storage.Indexed session records) {rest : List (Write n)}
    (queued : storage.writes = write :: rest) : (storage.disk.apply write).votes = storage.disk.votes ++ write.entry?.toList := by
  have unique := indexed.unique
  rw [table, queued, map_append] at unique
  refine Disk.apply_votes fun entry found member => ?_
  exact (nodup_append.mp unique).2.2 _ member _ (by simp [found]) rfl

lemma Indexed.table_commit (indexed : storage.Indexed session records) : storage.commit.table = storage.table := by
  unfold Storage.commit
  split
  · rfl
  next write rest queued =>
    rw [table, table, indexed.apply_votes queued, queued]
    cases found : write.entry? <;> simp [found]

lemma commit_db (storage : Storage n) : storage.commit.db = storage.db := by
  unfold Storage.commit
  split <;> rfl

lemma commit_pool (storage : Storage n) : storage.commit.pool = storage.pool := by
  unfold Storage.commit
  split <;> rfl

lemma SavedOnce.commit (savedOnce : storage.SavedOnce session records []) : storage.commit.SavedOnce session records [] := by
  have table := savedOnce.table_commit
  refine { toIndexed := ⟨?_, ?_, ?_⟩
           saving := ?_
           pending := ?_
           accepted := ?_
           distinct := ?_
           settled := ?_ }
  · rw [commit_db, table]
    exact savedOnce.saved
  · rw [table]
    exact savedOnce.unique
  · rw [table]
    exact savedOnce.hashed
  · rw [commit_pool]
    exact savedOnce.saving
  · have pending := savedOnce.pending
    rw [commit_pool]
    refine List.Perm.trans ?_ pending
    unfold Storage.commit
    split
    · exact .refl _
    next write rest queued =>
      simp only [queued, certs_append, append_nil]
      have moved : certs (write :: rest) = certs [write] ++ certs rest := certs_append [write] rest
      rw [moved, append_assoc, ← append_assoc (certs rest)]
      exact perm_append_comm
  · have accepted := savedOnce.accepted
    unfold Storage.commit
    split <;> exact accepted
  · rw [table]
    exact savedOnce.distinct
  · rw [table, commit_pool]
    exact savedOnce.settled

/-! ### Restarts -/

lemma readCertificates_votes
    (result : Db.readCertificates session entries = .ok certificates) : certificates.map (·.vote) = certVotes entries := by
  induction entries generalizing certificates with
  | nil =>
    cases result
    rfl
  | cons entry rest ih =>
    obtain ⟨key, value⟩ := entry
    cases value with
    | ourVote vote seqno => exact ih result
    | cert certificate =>
      simp only [Db.readCertificates] at result
      split at result
      · cases result
      next cert accepted =>
        obtain ⟨others, read, result⟩ := bind_eq_ok.mp result
        cases result
        have tail := ih read
        simp only [map_cons, tail, Certificate.fromTl_vote accepted]
        simp [certVotes, DbValue.certVote?]

lemma init_bootstrap
    (result : Db.init session poolState entries = .ok (db, bootstrap)) : db.savedVotes = (entries.map (·.1)).toFinset ∧
      bootstrap.certificates.map (·.vote) = certVotes entries := by
  obtain ⟨certificates, read, result⟩ := bind_eq_ok.mp result
  cases result
  exact ⟨rfl, readCertificates_votes read⟩

end Storage

namespace Pool

variable {bus : Bus n} {next : Pool n} {bootstrap : Bootstrap n}

def Idle (pool : Pool n) : Prop :=
  pool.saving = [] ∧ saves pool.published = [] ∧ ∀ slot kind, ((pool.state.slots slot).certs.entry kind).beingSaved = false

lemma Idle.toSaving (idle : pool.Idle) : pool.Saving := by
  obtain ⟨none, _, unflagged⟩ := idle
  refine ⟨by simp [none], by simp [none], fun slot kind _ flag => ?_⟩
  rw [unflagged] at flag
  cases flag

lemma startUp_idle (result : startUp bus params bootstrap = .ok pool) : pool.Idle := by
  refine startUp_preserve Idle ?_ ?_ ?_ result
  · rintro cert pool stored _ result ⟨none, unsaved, unflagged⟩
    have stores := storeCertificate_spec result
    refine ⟨by rw [stores.rest]; exact none, by rw [stores.rest]; exact unsaved, ?_⟩
    intro slot kind
    rw [stores.entry]
    split <;> exact unflagged slot kind
  · rintro pool next quiet ⟨none, unsaved, unflagged⟩
    exact ⟨quiet.saving.trans none, quiet.saves.trans unsaved, fun slot kind => by
      rw [quiet.certs]
      exact unflagged slot kind⟩
  · refine ⟨rfl, rfl, fun slot kind => ?_⟩
    simp only [fresh, empty, modifySlot, ConsensusState.modifySlot_slots]
    split <;> cases kind <;> rfl

/-- The slot has a certificate of the type of the vote or is finalized. -/
def Disposed (vote : Vote) (pool : Pool n) : Prop :=
  pool.certAt vote.referencedSlot vote.kind ≠ none ∨ vote.referencedSlot < pool.state.firstNonFinalizedSlot

variable {cert : Certificate n} {vote : Vote}

lemma Disposed.stored (disposed : pool.Disposed vote)
    (result : pool.storeCertificate cert = .ok next) : next.Disposed vote := by
  have stores := storeCertificate_spec result
  rcases disposed with present | behind
  · refine .inl ?_
    rw [stores.certAt]
    split
    · simp
    · exact present
  · exact .inr (by rw [stores.dropped]; exact behind)

lemma Disposed.quiet (disposed : pool.Disposed vote) (quiet : Quiet pool next) : next.Disposed vote := by
  rcases disposed with present | behind
  · exact .inl (by rw [quiet.certAt]; exact present)
  · exact .inr (lt_of_lt_of_le behind quiet.notEarlier)

lemma loadCertificates_disposed {certs : List (Certificate n)} (member : cert ∈ certs)
    (result : pool.loadCertificates bus certs = .ok next) : next.Disposed cert.vote := by
  induction certs generalizing pool with
  | nil => cases member
  | cons first rest ih =>
    have keep : ∀ {loaded : Pool n}, loaded.Disposed cert.vote →
        loaded.loadCertificates bus rest = .ok next → next.Disposed cert.vote :=
      fun disposed loading => loadCertificates_preserve (Disposed cert.vote) (fun _ stored disposed => disposed.stored stored)
        (fun quiet disposed => disposed.quiet quiet) disposed loading
    simp only [loadCertificates] at result
    split at result
    next untracked =>
      rcases mem_cons.mp member with rfl | later
      · exact keep (.inr (ConsensusState.slotAt_eq_none.mp untracked)) result
      · exact ih later result
    next state found =>
      obtain ⟨handled, handledResult, loading⟩ := bind_eq_ok.mp result
      rcases mem_cons.mp member with rfl | later
      · obtain ⟨stored, storedResult, quiet⟩ := handleSavedCertificate_stored handledResult
        have present : stored.Disposed cert.vote := .inl (by
          rw [(storeCertificate_spec storedResult).certAt, if_pos ⟨rfl, rfl⟩]
          simp)
        exact keep (present.quiet quiet) loading
      · exact ih later loading

lemma startUp_disposed
    (result : startUp bus params bootstrap = .ok pool) (member : cert ∈ bootstrap.certificates) : pool.Disposed cert.vote := by
  obtain ⟨loaded, loadedResult, result⟩ := bind_eq_ok.mp result
  cases result
  have enabled : Quiet loaded { loaded with suppressCertificateBroadcast := false } := .silent rfl rfl rfl
  exact (loadCertificates_disposed member loadedResult).quiet (enabled.trans (loadVotes_quiet _ _))

end Pool

namespace Storage

variable {session : Session n} {bus : Bus n} {storage next : Storage n} {key : Bits256} {cert : Certificate n} {write : Write n}
  {votes : List Vote}

structure Sound (session : Session n) (records : Set (DbRecord n)) (votes : List (Bits256 × DbValue)) : Prop where
  unique : (votes.map (·.1)).Nodup
  hashed : ∀ entry ∈ votes, Hashed session records entry
  distinct : ((certVotes votes).map Vote.entryKey).Nodup

lemma SavedOnce.sound (savedOnce : storage.SavedOnce session records []) : Sound session records storage.disk.votes where
  unique := by
    have unique := savedOnce.unique
    rw [table, map_append] at unique
    exact unique.of_append_left
  hashed entry member := savedOnce.hashed entry (mem_append_left _ member)
  distinct := by
    have distinct := savedOnce.distinct
    simp only [table, certVotes_append, map_nil, append_nil, map_append] at distinct
    exact distinct.of_append_left

lemma Sound.restart (collisionFree : Set.InjOn bus.recordHash records)
    (sound : Sound bus.toSession records disk.votes) (read : entries.Perm disk.votes)
    (result : restart bus params disk entries = .ok next) : next.SavedOnce bus.toSession records [] := by
  obtain ⟨⟨db, bootstrap⟩, initialized, result⟩ := bind_eq_ok.mp result
  obtain ⟨pool, started, result⟩ := bind_eq_ok.mp result
  obtain ⟨saved, votes⟩ := init_bootstrap initialized
  have idle := Pool.startUp_idle started
  have table : ({ disk, db, pool } : Storage n).table = disk.votes := by simp [table]
  refine SavedOnce.route collisionFree ?_ (by simp [idle.2.1]) result
  rw [idle.2.1]
  refine { toIndexed := ⟨?_, ?_, ?_⟩
           saving := idle.toSaving
           pending := by simp [certs, idle.1]
           accepted := rfl
           distinct := ?_
           settled := ?_ }
  · rw [table, saved]
    exact toFinset_eq_of_perm _ _ (read.map _)
  · rw [table]
    exact sound.unique
  · rw [table]
    exact sound.hashed
  · rw [table]
    simpa using sound.distinct
  · rw [table]
    intro vote member
    have inEntries : vote ∈ certVotes entries := (read.filterMap _).symm.subset member
    rw [← votes] at inEntries
    obtain ⟨cert, loaded, rfl⟩ := mem_map.mp inEntries
    exact .inr (Pool.startUp_disposed started loaded)

lemma SavedOnce.poolStep (collisionFree : Set.InjOn bus.recordHash records)
    {event : Pool.Event n} (savedOnce : storage.SavedOnce bus.toSession records [])
    (enabled : storage.pool.Enabled bus event)
    (notSaved : ∀ cert, event ≠ .certificateSaved cert ∧ event ≠ .certificateSaveFailed cert)
    (result : storage.poolStep bus event = .ok next) (handed : Hands records votes next.pool) :
    next.SavedOnce bus.toSession records [] := by
  obtain ⟨pool, stepped, result⟩ := bind_eq_ok.mp result
  have cleared : Pool.Saving { storage.pool with published := [] } := savedOnce.saving.congr (fun _ => rfl) rfl (le_refl _)
  rcases Pool.handleEvent_changes (Pool.Enabled.vouched enabled) stepped with
    ⟨changes, _⟩ | ⟨cert, rfl, _⟩ | ⟨cert, rfl, _⟩
  · have begun := savedOnce.begins (changes.preserve Pool.Change.saving_preserved cleared) changes.begins
    exact begun.route collisionFree (handed.saves result) result
  · exact absurd rfl (notSaved cert).1
  · exact absurd rfl (notSaved cert).2

lemma SavedOnce.waiting (savedOnce : storage.SavedOnce session records []) (member : .cert key cert ∈ storage.completed) :
    cert ∈ storage.pool.saving := by
  refine savedOnce.pending.subset ?_
  have inCompleted : cert ∈ certs storage.completed := mem_filterMap.mpr ⟨_, member, rfl⟩
  simp [inCompleted]

lemma SavedOnce.completed (savedOnce : storage.SavedOnce bus.toSession records [])
    (member : .cert key cert ∈ storage.completed) (stepped : storage.pool.step bus (.certificateSaved cert) = .ok pool) :
    Pool.Completed cert { storage.pool with published := [] } pool := by
  have cleared : Pool.Saving { storage.pool with published := [] } := savedOnce.saving.congr (fun _ => rfl) rfl (le_refl _)
  exact (Pool.resumeProspectiveCertificate_completes stepped).completed cleared (savedOnce.waiting member)

lemma SavedOnce.resumed (savedOnce : storage.SavedOnce session records [])
    (noCert : write.cert? = none) (member : write ∈ storage.completed) :
    ({ storage with completed := storage.completed.erase write } : Storage n).SavedOnce
      session records [] := by
  have same : (certs (storage.completed.erase write)).Perm (certs storage.completed) := by
    have split := (perm_cons_erase member).filterMap Write.cert?
    rw [filterMap_cons_none noCert] at split
    exact split.symm
  exact { toIndexed := ⟨savedOnce.saved, savedOnce.unique, savedOnce.hashed⟩
          saving := savedOnce.saving
          pending := ((same.append_left _).append_right _).trans savedOnce.pending
          accepted := savedOnce.accepted
          distinct := savedOnce.distinct
          settled := savedOnce.settled }

lemma SavedOnce.complete (collisionFree : Set.InjOn bus.recordHash records)
    (savedOnce : storage.SavedOnce bus.toSession records [])
    (member : write ∈ storage.completed) (result : storage.complete bus write = .ok next)
    (handed : Hands records votes next.pool) : next.SavedOnce bus.toSession records [] := by
  cases write with
  | ourVote key vote seqno =>
    have enabled : storage.pool.Enabled bus (.broadcastVote vote) := trivial
    exact (savedOnce.resumed rfl member).poolStep collisionFree enabled (by simp) result handed
  | cert key cert =>
    obtain ⟨pool, stepped, result⟩ := bind_eq_ok.mp result
    exact (savedOnce.completes member (savedOnce.completed member stepped)).route collisionFree
      (handed.saves result) result
  | poolState startSlot base window =>
    cases result
    exact savedOnce.resumed rfl member

lemma Run.savedOnce (collisionFree : Set.InjOn bus.recordHash records)
    (run : Run bus records storage) : storage.SavedOnce bus.toSession records [] := by
  induction run with
  | start started =>
    have sound : Sound bus.toSession records ([] : List (Bits256 × DbValue)) := ⟨by simp, by simp, by simp [certVotes]⟩
    exact sound.restart collisionFree .nil started
  | @step storage next event run enabled result handed ih =>
    cases event with
    | pool event =>
      refine ih.poolStep collisionFree enabled.2 ?_ result handed
      intro cert
      refine ⟨?_, ?_⟩ <;> rintro rfl <;> cases enabled.1
    | broadcastVote vote =>
      cases result
      exact ih.broadcastVote (handed.votes vote mem_cons_self)
    | commit =>
      cases result
      exact ih.commit
    | complete write => exact ih.complete collisionFree enabled result handed
    | refuse cert =>
      have refused : cert ∈ storage.refused := enabled
      rw [ih.accepted] at refused
      cases refused
    | restart params entries => exact ih.sound.restart collisionFree enabled result

end Storage

/-! ### Votes and signatures in the database

A vote reaches the vote table once and stays there. The certificates of the
table carry only signatures that were vouched for when they were written, so a
restarted pool starts from such certificates again. -/

def sentVotes (table : List (Bits256 × DbValue)) : List Vote := (Db.ourVotes table).map (·.2)

@[simp] lemma sentVotes_append (left right : List (Bits256 × DbValue)) :
    sentVotes (left ++ right) = sentVotes left ++ sentVotes right := by
  simp [sentVotes, Db.ourVotes]

lemma mem_sentVotes {table : List (Bits256 × DbValue)} {vote : Vote} :
    vote ∈ sentVotes table ↔ ∃ key seqno, (key, .ourVote vote seqno) ∈ table := by
  simp only [sentVotes, Db.ourVotes, mem_map, mem_filterMap]
  constructor
  · rintro ⟨⟨seqno, other⟩, ⟨⟨key, value⟩, member, found⟩, rfl⟩
    cases value with
    | ourVote stored number =>
      cases found
      exact ⟨key, seqno, member⟩
    | cert certificate => cases found
  · rintro ⟨key, seqno, member⟩
    exact ⟨(seqno, vote), ⟨_, member, rfl⟩, rfl⟩

variable {session : Session n} {write : Write n} {events : List (Published n)}
variable {event : Pool.Event n}

lemma init_votes {db : Db}
    (result : Db.init session poolState entries = .ok (db, bootstrap)) : bootstrap.votes.Perm (sentVotes entries) := by
  obtain ⟨certificates, _, result⟩ := bind_eq_ok.mp result
  cases result
  exact (perm_insertionSort _ _).map _

namespace Storage

variable {bus : Bus n} {storage next : Storage n}

lemma saveCertificate_cases (session : Session n) (storage : Storage n) (cert : Certificate n) :
    (∃ refused, storage.saveCertificate session cert = { storage with refused }) ∨
    ∃ db, db.firstNonannouncedWindow = storage.db.firstNonannouncedWindow ∧ storage.saveCertificate session cert =
        storage.accept (.cert (session.recordHash (.certificate cert)) cert) db := by
  by_cases present : session.recordHash (.certificate cert) ∈ storage.db.savedVotes
  · exact .inl ⟨_, by simp [saveCertificate, Db.processSaveCertificate, present]; rfl⟩
  · refine .inr ⟨storage.db.remember (session.recordHash (.certificate cert)), rfl, ?_⟩
    simp [saveCertificate, Db.processSaveCertificate, present]

lemma observeLeaderWindow_eq {startSlot : Nat} {base : ParentId}
    (result : storage.observeLeaderWindow session startSlot base = .ok next) :
    storage.db.firstNonannouncedWindow ≤ startSlot / session.slotsPerLeaderWindow ∧ next = storage.accept
        (.poolState startSlot base (startSlot / session.slotsPerLeaderWindow + 1)) { storage.db with
          firstNonannouncedWindow := startSlot / session.slotsPerLeaderWindow + 1 } := by
  obtain ⟨⟨write, db⟩, processed, result⟩ := bind_eq_ok.mp result
  cases result
  simp only [Db.processLeaderWindowObserved] at processed
  split at processed
  next unannounced =>
    cases processed
    exact ⟨unannounced, rfl⟩
  · cases processed

/-! ### Votes -/

structure SameVotes (storage next : Storage n) : Prop where
  disk : next.disk = storage.disk
  completed : next.completed = storage.completed
  sent : sentVotes next.table = sentVotes storage.table

lemma SameVotes.accept (noVote : sentVotes write.entry?.toList = [])
    (storage : Storage n) (db : Db) : SameVotes storage (storage.accept write db) where
  disk := rfl
  completed := rfl
  sent := by rw [table_accept, sentVotes_append, noVote, append_nil]

lemma SameVotes.trans {middle : Storage n} (first : SameVotes storage middle)
    (second : SameVotes middle next) : SameVotes storage next where
  disk := second.disk.trans first.disk
  completed := second.completed.trans first.completed
  sent := second.sent.trans first.sent

lemma route_sameVotes (result : storage.route session events = .ok next) : SameVotes storage next := by
  refine route_preserve (SameVotes storage) ?_ ?_ ⟨rfl, rfl, rfl⟩ result
  · intro middle cert _ same
    rcases saveCertificate_cases session middle cert with ⟨refused, equal⟩ | ⟨db, _, equal⟩
    · rw [equal]
      exact ⟨same.disk, same.completed, same.sent⟩
    · rw [equal]
      exact same.trans (.accept rfl middle db)
  · intro middle last startSlot base _ observed same
    rw [(observeLeaderWindow_eq observed).2]
    exact same.trans (.accept rfl middle _)

lemma poolStep_sameVotes (result : storage.poolStep bus event = .ok next) : SameVotes storage next := by
  obtain ⟨pool, _, routed⟩ := bind_eq_ok.mp result
  have same := route_sameVotes routed
  exact ⟨same.disk, same.completed, same.sent⟩

lemma broadcastVote_cases (collisionFree : Set.InjOn session.recordHash records)
    (indexed : storage.Indexed session records) {vote : Vote} (handed : .vote vote ∈ records) :
    (storage.broadcastVote session vote = storage ∧ vote ∈ sentVotes storage.table) ∨
    ∃ db, db.firstNonannouncedWindow = storage.db.firstNonannouncedWindow ∧ storage.broadcastVote session vote = storage.accept
        (.ourVote (session.recordHash (.vote vote)) vote storage.db.nextSeqno) db := by
  by_cases present : session.recordHash (.vote vote) ∈ storage.db.savedVotes
  · refine .inl ⟨by simp [broadcastVote, Db.processBroadcastVote, present], ?_⟩
    rw [indexed.saved, mem_toFinset, mem_map] at present
    obtain ⟨entry, member, key⟩ := present
    rcases indexed.hashed entry member with ⟨other, seqno, earlier, rfl⟩ | ⟨cert, earlier, rfl⟩
    · cases collisionFree earlier handed key
      exact mem_sentVotes.mpr ⟨_, seqno, member⟩
    · cases collisionFree earlier handed key
  · refine .inr ⟨{ storage.db.remember (session.recordHash (.vote vote)) with
      nextSeqno := storage.db.nextSeqno + 1 }, rfl, ?_⟩
    simp [broadcastVote, Db.processBroadcastVote, present]

/-- Whoever has been answered finds the written entry on the disk. -/
def Durable (storage : Storage n) : Prop :=
  ∀ write ∈ storage.completed, ∀ entry, write.entry? = some entry → entry ∈ storage.disk.votes

lemma Durable.sameVotes (durable : storage.Durable) (same : SameVotes storage next) : next.Durable := by
  intro write member entry found
  rw [same.disk]
  exact durable write (same.completed ▸ member) entry found

lemma Durable.erase (durable : storage.Durable) (write : Write n) :
    ({ storage with completed := storage.completed.erase write } : Storage n).Durable :=
  fun other member => durable other (mem_of_mem_erase member)

lemma Durable.commit (durable : storage.Durable) (indexed : storage.Indexed session records) : storage.commit.Durable := by
  unfold Storage.commit
  split
  · exact durable
  next write rest queued =>
    intro other member entry found
    rw [indexed.apply_votes queued]
    rcases mem_append.mp member with earlier | last
    · exact mem_append_left _ (durable other earlier entry found)
    · cases mem_singleton.mp last
      exact mem_append_right _ (by simp [found])

end Storage

/-! ### Signatures -/

variable {signs : Fin n → Vote → BufferSlice → Prop} {cert : Certificate n} {more : Fin n → Vote → BufferSlice → Prop}

lemma Certificate.Supported.vouched (supported : cert.Supported session signs) : cert.toTl.Vouched session signs := by
  intro validator signature member _
  obtain ⟨original, listed, same⟩ := mem_map.mp member
  obtain ⟨who, bytes⟩ := original
  simp only [TlVoteSignature.mk.injEq, Fin.val_inj] at same
  obtain ⟨rfl, rfl⟩ := same
  exact supported.signed _ listed

lemma TlCertificate.Vouched.imp {received : TlCertificate}
    (vouched : received.Vouched session signs) (included : signs ≤ more) : received.Vouched session more :=
  fun validator signature member verifies =>
    included _ _ _ (vouched validator signature member verifies)

lemma readCertificates_mem
    (result : Db.readCertificates session entries = .ok certificates) (member : cert ∈ certificates) :
    ∃ key received, (key, .cert received) ∈ entries ∧ Certificate.fromTl session received = .ok cert := by
  induction entries generalizing certificates with
  | nil =>
    cases result
    cases member
  | cons entry rest ih =>
    obtain ⟨key, value⟩ := entry
    cases value with
    | ourVote vote seqno =>
      obtain ⟨other, received, listed, accepted⟩ := ih result member
      exact ⟨other, received, mem_cons_of_mem _ listed, accepted⟩
    | cert received =>
      rw [Db.readCertificates] at result
      split at result
      · cases result
      next first accepted =>
        obtain ⟨others, read, result⟩ := bind_eq_ok.mp result
        cases result
        rcases mem_cons.mp member with rfl | later
        · exact ⟨key, received, mem_cons_self, accepted⟩
        · obtain ⟨other, found, listed, acceptedLater⟩ := ih read later
          exact ⟨other, found, mem_cons_of_mem _ listed, acceptedLater⟩

namespace Storage

variable {bus : Bus n} {storage next : Storage n}

/-- All signatures the pool and the table rest on are among `signs`. -/
structure Backed (bus : Bus n) (signs : Fin n → Vote → BufferSlice → Prop)
    (storage : Storage n) : Prop where
  tallied : storage.pool.Tallied bus signs
  certs : ∀ key received, (key, .cert received) ∈ storage.table → received.Vouched bus.toSession signs

lemma Backed.imp (backed : storage.Backed bus signs) (included : signs ≤ more) : storage.Backed bus more where
  tallied := backed.tallied.imp included
  certs key received member := (backed.certs key received member).imp included

lemma Backed.accept (backed : storage.Backed bus signs)
    (supported : ∀ cert, write.cert? = some cert → cert.Supported bus.toSession signs) (db : Db) :
    (storage.accept write db).Backed bus signs where
  tallied := backed.tallied
  certs key received member := by
    rw [table_accept] at member
    rcases mem_append.mp member with earlier | last
    · exact backed.certs key received earlier
    · cases write with
      | ourVote _ _ _ => cases mem_singleton.mp last
      | cert _ cert =>
        cases mem_singleton.mp last
        exact (supported cert rfl).vouched
      | poolState _ _ _ => cases last

lemma Backed.route (backed : storage.Backed bus signs) (supported : ∀ event ∈ events, event.Backed bus.toSession signs)
    (result : storage.route bus.toSession events = .ok next) : next.Backed bus signs := by
  refine route_preserve (Backed bus signs) ?_ ?_ backed result
  · intro middle cert member reached
    rcases saveCertificate_cases bus.toSession middle cert with
      ⟨refused, equal⟩ | ⟨db, _, equal⟩
    · rw [equal]
      exact ⟨reached.tallied, reached.certs⟩
    · rw [equal]
      refine reached.accept ?_ db
      intro other same
      cases same
      exact supported _ member
  · intro middle last startSlot base _ observed reached
    rw [(observeLeaderWindow_eq observed).2]
    exact reached.accept (fun _ same => by cases same) _

lemma Backed.poolStep (capped : bus.totalWeight ≤ 2 ^ 61)
    (backed : storage.Backed bus signs) (enabled : storage.pool.Enabled bus event) (vouched : Pool.Vouched bus signs event)
    (result : storage.poolStep bus event = .ok next) : next.Backed bus signs := by
  obtain ⟨pool, stepped, routed⟩ := bind_eq_ok.mp result
  have tallied := Pool.step_tallied capped enabled vouched backed.tallied stepped
  have reached : ({ storage with pool } : Storage n).Backed bus signs := ⟨tallied, backed.certs⟩
  exact reached.route tallied.published routed

lemma Backed.broadcastVote (backed : storage.Backed bus signs) (vote : Vote) :
    (storage.broadcastVote bus.toSession vote).Backed bus signs := by
  unfold Storage.broadcastVote Db.processBroadcastVote
  simp only
  split
  next accepted =>
    split at accepted
    · cases accepted
    · cases accepted
      exact backed.accept (fun _ same => by cases same) _
  · exact backed

lemma Backed.commit (backed : storage.Backed bus signs)
    (indexed : storage.Indexed bus.toSession records) : storage.commit.Backed bus signs where
  tallied := by
    rw [commit_pool]
    exact backed.tallied
  certs := by
    rw [indexed.table_commit]
    exact backed.certs

lemma Backed.complete (capped : bus.totalWeight ≤ 2 ^ 61) (backed : storage.Backed bus signs)
    (waiting : ∀ cert, write.cert? = some cert → cert ∈ storage.pool.saving)
    (result : storage.complete bus write = .ok next) : next.Backed bus signs := by
  have resumed : ({ storage with completed := storage.completed.erase write } :
      Storage n).Backed bus signs := ⟨backed.tallied, backed.certs⟩
  cases write with
  | ourVote key vote seqno =>
    have enabled : storage.pool.Enabled bus (.broadcastVote vote) := trivial
    exact resumed.poolStep capped enabled trivial result
  | cert key cert =>
    have enabled : storage.pool.Enabled bus (.certificateSaved cert) := waiting cert rfl
    exact resumed.poolStep capped enabled trivial result
  | poolState startSlot base window =>
    cases result
    exact resumed

lemma Backed.restart {params : NoncriticalParams} {disk : Disk} (capped : bus.totalWeight ≤ 2 ^ 61)
    (certs : ∀ key received, (key, .cert received) ∈ disk.votes → received.Vouched bus.toSession signs)
    (read : entries.Perm disk.votes) (result : restart bus params disk entries = .ok next) : next.Backed bus signs := by
  obtain ⟨⟨db, bootstrap⟩, initialized, result⟩ := bind_eq_ok.mp result
  obtain ⟨certificates, loaded, initialized⟩ := bind_eq_ok.mp initialized
  cases initialized
  obtain ⟨pool, started, routed⟩ := bind_eq_ok.mp result
  have supported : ∀ cert ∈ certificates, cert.Supported bus.toSession signs := by
    intro cert member
    obtain ⟨key, received, listed, accepted⟩ := readCertificates_mem loaded member
    exact Certificate.fromTl_supported capped (certs key received (read.subset listed)) accepted
  have tallied := Pool.startUp_tallied supported started
  refine Backed.route ⟨tallied, ?_⟩ tallied.published routed
  intro key received member
  refine certs key received ?_
  simpa [table] using member

end Storage

end TonNode.Simplex
