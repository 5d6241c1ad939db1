import TonNode.Simplex.ConsensusVotes
import TonNode.Simplex.StorageCerts

/-!
# What one validator signs

Votes go from the consensus actor to the database, become durable in the order
they were published and only then reach the keyring. The durable votes are a
prefix of the published ones, so what is signed is as consistent as what the
consensus actor publishes, over any number of restarts.
-/

namespace TonNode.Simplex

open Consensus Lib List Storage ConsensusImpl

variable {n : Nat} {bus : Bus n} {signs : Fin n → Vote → BufferSlice → Prop} {cert : Certificate n} {params : NoncriticalParams}

namespace Pool

variable {pool next : Pool n} {frame : OurVote}

lemma handleSavedCertificate_ourVotes (result : pool.handleSavedCertificate bus cert = .ok next) :
    next.ourVotes = pool.ourVotes := by
  obtain ⟨stored, handled, one, update, _, resolves⟩ := handleSavedCertificate_cases result
  have broadcast : (stored.broadcastCertificate cert).ourVotes = stored.ourVotes := by
    simp only [broadcastCertificate]
    split <;> rfl
  calc next.ourVotes = handled.ourVotes := resolves.frame.ourVotes
    _ = (stored.broadcastCertificate cert).ourVotes := update.ourVotes
    _ = stored.ourVotes := broadcast
    _ = pool.ourVotes := by rw [one.rest]

lemma loadVotes_ourVotes (pool : Pool n) (votes : List Vote) (member : frame ∈ (pool.loadVotes votes).ourVotes) :
    frame ∈ pool.ourVotes ∨ frame.vote ∈ votes := by
  induction votes generalizing pool with
  | nil => exact .inl member
  | cons vote rest ih =>
    simp only [loadVotes] at member
    split at member
    · rcases ih pool member with earlier | loaded
      · exact .inl earlier
      · exact .inr (mem_cons_of_mem _ loaded)
    · rcases ih _ member with earlier | loaded
      · rcases mem_append.mp earlier with before | last
        · exact .inl before
        · cases mem_singleton.mp last
          exact .inr mem_cons_self
      · exact .inr (mem_cons_of_mem _ loaded)

lemma startUp_ourVotes {bootstrap : Bootstrap n}
    (result : startUp bus params bootstrap = .ok pool) (member : frame ∈ pool.ourVotes) : frame.vote ∈ bootstrap.votes := by
  obtain ⟨loaded, loading, result⟩ := bind_eq_ok.mp result
  cases result
  rcases loadVotes_ourVotes _ _ member with earlier | found
  · have none : loaded.ourVotes = [] := loadCertificates_handled (·.ourVotes = [])
      (fun _ handled same => (handleSavedCertificate_ourVotes handled).trans same) rfl loading
    have impossible : frame ∈ loaded.ourVotes := earlier
    rw [none] at impossible
    cases impossible
  · exact found

lemma step_ourVotes {event : Event n} (result : step bus pool event = .ok next) (member : frame ∈ next.ourVotes) :
    frame ∈ pool.ourVotes ∨ event = .broadcastVote frame.vote := by
  have keep : next.ourVotes = pool.ourVotes → frame ∈ pool.ourVotes ∨
      event = .broadcastVote frame.vote := fun same => .inl (same ▸ member)
  have handled : ({ pool with published := [] } : Pool n).handleEvent bus event = .ok next := result
  cases event with
  | start =>
    simp only [handleEvent, handleStart] at handled
    have kept := advancePresent_update handled
    exact keep kept.ourVotes
  | incomingProtocolMessage source message time =>
    have kept := handleIncomingProtocolMessage_collects handled
    exact keep kept.ourVotes
  | broadcastVote vote =>
    cases result
    rcases mem_append.mp member with earlier | last
    · exact .inl earlier
    · cases mem_singleton.mp last
      exact .inr rfl
  | keyringSigned other signature =>
    have steps := @resumeOurVote_steps _ bus (fun _ _ _ => True) _ _ _ _ trivial handled
    rw [steps.ourVotes] at member
    exact .inl (mem_of_mem_erase member)
  | certificateSaved cert =>
    simp only [step, handleEvent, resumeProspectiveCertificate] at result
    split at result
    · cases result
      exact keep rfl
    · rw [handleSavedCertificate_ourVotes result, (addCertificateVotes_collects _ _ _).ourVotes] at member
      exact .inl member
  | certificateSaveFailed cert | noncriticalParamsUpdated params =>
    cases result
    exact keep rfl
  | waitForParent candidate =>
    have kept := processWaitForParent_frame handled
    exact keep kept.ourVotes
  | standstill slot =>
    obtain ⟨state, _, result⟩ := bind_eq_ok.mp result
    obtain ⟨messages, _, result⟩ := bind_eq_ok.mp result
    cases result
    exact keep rfl
  | precheckCandidateBroadcast slot broadcastId signatureChecked =>
    cases result
    refine keep ?_
    simp only [precheckCandidateBroadcast]
    split
    · rfl
    split
    · rfl
    split
    · rfl
    · split <;> rfl

end Pool

lemma ConsensusImpl.Voting.rebase {impl : ConsensusImpl n} {base other : List Vote}
    (voting : ({ impl with published := [] } : ConsensusImpl n).Voting base)
    (log : ConsistentLog other) (same : ∀ vote, vote ∈ other ↔ vote ∈ base) :
    ({ impl with published := [] } : ConsensusImpl n).Voting other where
  log := by simpa [votes] using log
  remembers := by
    have kept := voting.remembers
    simp only [votes, filterMap_nil, append_nil] at kept ⊢
    exact {
      notarized := fun slot id => by rw [kept.notarized, same]
      skipped := fun slot => by rw [kept.skipped, same]
      finalized := fun slot => by simp only [kept.finalized, same] }
  pending := voting.pending
  distinct := voting.distinct

lemma Storage.poolStep_ourVotes {storage next : Storage n} {event : Pool.Event n}
    (result : storage.poolStep bus event = .ok next) {frame : OurVote} (member : frame ∈ next.pool.ourVotes) :
    frame ∈ storage.pool.ourVotes ∨ event = .broadcastVote frame.vote := by
  obtain ⟨pool, stepped, routed⟩ := bind_eq_ok.mp result
  rw [route_pool routed] at member
  exact Pool.step_ourVotes stepped member

namespace Node

variable {node next : Node n}

/-- Published votes in order: those of the vote table, then those on their way to it. -/
def issued (node : Node n) : List Vote := sentVotes node.storage.table ++ node.broadcasts

/-- The durable votes. Only these are ever signed. -/
def sent (node : Node n) : List Vote := sentVotes node.storage.disk.votes

lemma sent_prefix (node : Node n) : node.sent <+: node.issued := by
  rw [sent, issued, table, sentVotes_append, append_assoc]
  exact prefix_append _ _

def Event.poolEvent? : Event n → Option (Pool.Event n)
  | .pool event => some event
  | .complete (.ourVote _ vote _) => some (.broadcastVote vote)
  | .complete (.cert _ cert) => some (.certificateSaved cert)
  | .refuse cert => some (.certificateSaveFailed cert)
  | _ => none

variable {params : NoncriticalParams} {disk : Disk} {entries : List (Bits256 × DbValue)}
variable {record : Record n} {event : Event n} {session : Session n} {records : Set (DbRecord n)}

lemma launch_restart (result : launch bus params disk entries record = .ok next) :
    restart bus params disk entries = .ok next.storage := by
  obtain ⟨⟨db, bootstrap⟩, initialized, result⟩ := bind_eq_ok.mp result
  obtain ⟨storage, booted, result⟩ := bind_eq_ok.mp result
  cases result
  exact bind_eq_ok.mpr ⟨(db, bootstrap), initialized, booted⟩

lemma launch_pool (result : launch bus params disk entries record = .ok next) :
    ∃ db bootstrap, Db.init bus.toSession disk.poolState entries = .ok (db, bootstrap) ∧
      Pool.startUp bus params bootstrap = .ok next.storage.pool := by
  obtain ⟨⟨db, bootstrap⟩, initialized, booted⟩ := bind_eq_ok.mp (launch_restart result)
  obtain ⟨pool, started, routed⟩ := bind_eq_ok.mp booted
  refine ⟨db, bootstrap, initialized, ?_⟩
  rw [started]
  exact congrArg Except.ok (route_pool routed).symm

/-- What an event does to the pool: nothing, one event of its own, or a new start. -/
lemma handleEvent_pool (result : node.handleEvent bus event = .ok next) : next.storage.pool = node.storage.pool ∨
    (∃ poolEvent, event.poolEvent? = some poolEvent ∧ node.storage.pool.step bus poolEvent = .ok next.storage.pool) ∨
    ∃ params entries db bootstrap, event = .restart params entries ∧
      Db.init bus.toSession node.storage.disk.poolState entries = .ok (db, bootstrap) ∧
      Pool.startUp bus params bootstrap = .ok next.storage.pool := by
  have stepped : ∀ {poolEvent : Pool.Event n} {storage reached : Storage n},
      storage.poolStep bus poolEvent = .ok reached → storage.pool = node.storage.pool →
      node.storage.pool.step bus poolEvent = .ok reached.pool := by
    intro poolEvent storage reached stepped same
    obtain ⟨pool, handled, routed⟩ := bind_eq_ok.mp stepped
    rw [route_pool routed, ← same]
    exact handled
  cases event with
  | pool event =>
    obtain ⟨storage, handled, result⟩ := bind_eq_ok.mp result
    cases result
    exact .inr (.inl ⟨event, rfl, stepped handled rfl⟩)
  | consensus event =>
    obtain ⟨consensus, _, result⟩ := bind_eq_ok.mp result
    cases result
    exact .inl rfl
  | producer event =>
    obtain ⟨producer, _, result⟩ := bind_eq_ok.mp result
    cases result
    cases event <;> exact .inl rfl
  | deliverVote =>
    cases result
    refine .inl ?_
    rw [deliverVote]
    split
    · rfl
    · simp only [broadcastVote]
      split <;> rfl
  | commit =>
    cases result
    exact .inl (commit_pool node.storage)
  | complete write =>
    obtain ⟨storage, resumed, result⟩ := bind_eq_ok.mp result
    cases write with
    | ourVote key vote seqno | cert key cert =>
      simp only [Storage.complete] at resumed
      have handled := stepped resumed rfl
      cases result
      exact .inr (.inl ⟨_, rfl, handled⟩)
    | poolState startSlot base window =>
      cases resumed
      cases result
      exact .inl rfl
  | refuse cert =>
    obtain ⟨storage, refused, result⟩ := bind_eq_ok.mp result
    simp only [Storage.refuse] at refused
    have handled := stepped refused rfl
    cases result
    exact .inr (.inl ⟨_, rfl, handled⟩)
  | restart params entries =>
    obtain ⟨db, bootstrap, initialized, started⟩ := launch_pool result
    exact .inr (.inr ⟨params, entries, db, bootstrap, rfl, initialized, started⟩)

lemma handleEvent_storage (enabled : node.Enabled bus event) (result : node.handleEvent bus event = .ok next) :
    next.storage = node.storage ∨ ∃ other, node.storage.Enabled bus other ∧
        node.storage.handleEvent bus other = .ok next.storage ∧ other.votes = node.delivered event ∧
        ∀ poolEvent, other = .pool poolEvent → event = .pool poolEvent := by
  cases event with
  | pool event =>
    obtain ⟨storage, stepped, result⟩ := bind_eq_ok.mp result
    cases result
    exact .inr ⟨.pool event, enabled, stepped, rfl, by rintro _ ⟨⟩; rfl⟩
  | consensus event =>
    obtain ⟨consensus, _, result⟩ := bind_eq_ok.mp result
    cases result
    exact .inl rfl
  | producer event =>
    obtain ⟨producer, _, result⟩ := bind_eq_ok.mp result
    cases result
    cases event <;> exact .inl rfl
  | deliverVote =>
    cases result
    rw [deliverVote]
    split
    · exact .inl rfl
    next vote rest queued => exact .inr ⟨.broadcastVote vote, trivial, rfl, by simp [delivered, queued, Storage.Event.votes], by simp⟩
  | commit =>
    cases result
    exact .inr ⟨.commit, trivial, rfl, rfl, by simp⟩
  | complete write =>
    obtain ⟨storage, completed, result⟩ := bind_eq_ok.mp result
    cases write <;> cases result <;> exact .inr ⟨.complete _, enabled, completed, rfl, by simp⟩
  | refuse cert =>
    obtain ⟨storage, refused, result⟩ := bind_eq_ok.mp result
    cases result
    exact .inr ⟨.refuse cert, enabled, refused, rfl, by simp⟩
  | restart params entries => exact .inr ⟨.restart params entries, enabled, launch_restart result, rfl, by simp⟩

lemma Run.storage (run : Run bus records node) : Storage.Run bus records node.storage := by
  induction run with
  | start launched => exact .start (launch_restart launched)
  | step run enabled unforged result handed ih =>
    rcases handleEvent_storage enabled result with same | ⟨other, allowed, handled, votes, _⟩
    · rw [same]
      exact ih
    · rw [← votes] at handed
      exact .step ih allowed handled handed

/-- What ties the votes of the actors together. -/
structure Voting (node : Node n) : Prop where
  consensus : ({ node.consensus with published := [] } : ConsensusImpl n).Voting node.issued
  durable : node.storage.Durable
  cast : ∀ vote ∈ node.record.cast, vote ∈ node.sent
  keyring : ∀ frame ∈ node.storage.pool.ourVotes, frame.vote ∈ node.record.cast

lemma Voting.keep (voting : node.Voting) (consensus : next.consensus = node.consensus)
    (broadcasts : next.broadcasts = node.broadcasts) (disk : next.storage.disk = node.storage.disk)
    (sent : sentVotes next.storage.table = sentVotes node.storage.table) (durable : next.storage.Durable)
    (cast : ∀ vote ∈ next.record.cast, vote ∈ node.record.cast ∨ vote ∈ node.sent)
    (keyring : ∀ frame ∈ next.storage.pool.ourVotes, frame.vote ∈ next.record.cast) : next.Voting where
  consensus := by
    rw [consensus, issued, sent, broadcasts]
    exact voting.consensus
  durable := durable
  cast vote member := by
    rw [Node.sent, disk]
    exact (cast vote member).elim (voting.cast vote) id
  keyring := keyring

lemma Voting.poolStep {event : Pool.Event n} (voting : node.Voting)
    (external : event.isExternal = true) (result : node.poolStep bus event = .ok next) : next.Voting := by
  obtain ⟨storage, stepped, result⟩ := bind_eq_ok.mp result
  cases result
  have same := poolStep_sameVotes stepped
  have taken : (node.takeAny (poolMail? event)).record = node.record ∧
      (node.takeAny (poolMail? event)).consensus = node.consensus ∧
      (node.takeAny (poolMail? event)).broadcasts = node.broadcasts := by
    cases event <;> exact ⟨rfl, rfl, rfl⟩
  have record : (node.takeAny (poolMail? event)).record.cast = node.record.cast := by rw [taken.1]
  refine voting.keep taken.2.1 taken.2.2 same.disk same.sent (voting.durable.sameVotes same) ?_ ?_
  · intro vote member
    exact .inl (record ▸ member)
  · intro frame member
    have cast : frame.vote ∈ node.record.cast := by
      rcases poolStep_ourVotes stepped member with earlier | started
      · exact voting.keyring frame earlier
      · subst started
        cases external
    exact record.symm ▸ cast

lemma Voting.consensusStep {event : ConsensusImpl.Event n} (voting : node.Voting)
    (enabled : node.consensus.Enabled event) (result : node.consensusStep bus event = .ok next) : next.Voting := by
  obtain ⟨consensus, stepped, result⟩ := bind_eq_ok.mp result
  cases result
  refine ⟨?_, voting.durable, voting.cast, voting.keyring⟩
  have voted := (step_voting enabled voting.consensus stepped).settle
  rw [issued, append_assoc] at voted
  exact voted

lemma Voting.producerStep {event : BlockProducer.Event} (voting : node.Voting)
    (result : node.producerStep bus event = .ok next) : next.Voting := by
  obtain ⟨producer, _, result⟩ := bind_eq_ok.mp result
  cases result
  cases event <;> exact ⟨voting.consensus, voting.durable, voting.cast, voting.keyring⟩

lemma Voting.deliverVote (collisionFree : Set.InjOn session.recordHash records)
    (indexed : node.storage.Indexed session records) (voting : node.Voting)
    (handed : ∀ vote ∈ node.delivered .deliverVote, .vote vote ∈ records) : (node.deliverVote session).Voting := by
  unfold Node.deliverVote
  split
  · exact voting
  next vote rest queued =>
    have pending := voting.consensus
    rw [issued, queued] at pending
    rw [delivered, queued] at handed
    rcases broadcastVote_cases collisionFree indexed (handed vote mem_cons_self) with
      ⟨refused, known⟩ | ⟨db, _, accepted⟩
    · rw [refused]
      refine ⟨?_, voting.durable, voting.cast, voting.keyring⟩
      refine pending.rebase ?_ ?_
      · have log := pending.log
        simp only [votes, filterMap_nil, append_nil] at log
        exact log.drop_repeated known
      intro other
      simp only [issued, mem_append, mem_cons]
      constructor
      · rintro (early | late)
        · exact .inl early
        · exact .inr (.inr late)
      · rintro (early | rfl | late)
        · exact .inl early
        · exact .inl known
        · exact .inr late
    · rw [accepted]
      refine ⟨?_, voting.durable, voting.cast, voting.keyring⟩
      have same : sentVotes (node.storage.accept (.ourVote (session.recordHash (.vote vote)) vote
          node.storage.db.nextSeqno) db).table ++ rest =
          sentVotes node.storage.table ++ vote :: rest := by
        rw [table_accept, sentVotes_append, append_assoc]
        rfl
      rw [issued, same]
      exact pending

lemma Voting.commit (indexed : node.storage.Indexed session records)
    (voting : node.Voting) : ({ node with storage := node.storage.commit } : Node n).Voting where
  consensus := by
    rw [issued, indexed.table_commit]
    exact voting.consensus
  durable := voting.durable.commit indexed
  cast vote member := by
    have kept := voting.cast vote member
    unfold sent Storage.commit
    split
    · exact kept
    next write rest queued =>
      rw [indexed.apply_votes queued, sentVotes_append]
      exact mem_append_left _ kept
  keyring := by
    rw [commit_pool]
    exact voting.keyring

lemma Voting.complete {write : Write n} (voting : node.Voting)
    (completed : write ∈ node.storage.completed) (result : node.complete bus write = .ok next) : next.Voting := by
  obtain ⟨storage, resumed, result⟩ := bind_eq_ok.mp result
  have erased := voting.durable.erase write
  cases write with
  | ourVote key vote seqno =>
    cases result
    have same := poolStep_sameVotes resumed
    have durable : vote ∈ node.sent := mem_sentVotes.mpr ⟨key, seqno, voting.durable _ completed _ rfl⟩
    refine voting.keep rfl rfl same.disk same.sent (erased.sameVotes same) ?_ ?_
    · intro other member
      rcases mem_append.mp member with earlier | last
      · exact .inl earlier
      · cases mem_singleton.mp last
        exact .inr durable
    · intro frame member
      rcases poolStep_ourVotes resumed member with earlier | started
      · exact mem_append_left _ (voting.keyring frame earlier)
      · cases started
        exact mem_append_right _ mem_cons_self
  | cert key cert =>
    cases result
    have same := poolStep_sameVotes resumed
    refine voting.keep rfl rfl same.disk same.sent (erased.sameVotes same) (fun other => .inl) ?_
    intro frame member
    rcases poolStep_ourVotes resumed member with earlier | started
    · exact voting.keyring frame earlier
    · cases started
  | poolState startSlot base window =>
    cases resumed
    cases result
    exact voting.keep rfl rfl rfl rfl erased (fun other => .inl) voting.keyring

lemma Voting.refuse (voting : node.Voting) (result : node.refuse bus cert = .ok next) : next.Voting := by
  obtain ⟨storage, refused, result⟩ := bind_eq_ok.mp result
  cases result
  have same := poolStep_sameVotes refused
  have durable : storage.Durable := fun write member entry found => by
    rw [same.disk]
    exact voting.durable write (same.completed ▸ member) entry found
  refine voting.keep rfl rfl same.disk same.sent durable (fun other => .inl) ?_
  intro frame member
  rcases poolStep_ourVotes refused member with earlier | started
  · exact voting.keyring frame earlier
  · cases started

lemma launch_voting (log : ConsistentLog (sentVotes disk.votes)) (read : entries.Perm disk.votes)
    (cast : ∀ vote ∈ record.cast, vote ∈ sentVotes disk.votes)
    (result : launch bus params disk entries record = .ok next) : next.Voting := by
  obtain ⟨⟨db, bootstrap⟩, initialized, result⟩ := bind_eq_ok.mp result
  obtain ⟨storage, booted, result⟩ := bind_eq_ok.mp result
  cases result
  obtain ⟨pool, started, routed⟩ := bind_eq_ok.mp booted
  have same := route_sameVotes routed
  have table : sentVotes storage.table = sentVotes disk.votes := by
    rw [same.sent]
    simp [table]
  have votes : ∀ vote, vote ∈ bootstrap.votes ↔ vote ∈ sentVotes disk.votes := fun vote =>
    ((init_votes initialized).trans ((read.filterMap _).map _)).mem_iff
  have frames : ∀ frame ∈ storage.pool.ourVotes, frame.vote ∈ sentVotes disk.votes := by
    intro frame member
    rw [route_pool routed] at member
    exact (votes frame.vote).mp (Pool.startUp_ourVotes started member)
  refine ⟨?_, ?_, ?_, ?_⟩
  · have voting : (startUp bus.toSession params.maxLeaderWindowDesync
        bootstrap).Voting (sentVotes disk.votes) := startUp_voting log votes
    have settled := voting.settle
    rw [← table] at settled
    exact settled
  · intro write member
    have none : storage.completed = [] := same.completed
    have impossible : write ∈ storage.completed := member
    rw [none] at impossible
    cases impossible
  · intro vote member
    have disk : storage.disk = disk := same.disk
    have durable : vote ∈ sentVotes storage.disk.votes := by
      rw [disk]
      rcases mem_append.mp member with earlier | restored
      · exact cast vote earlier
      · obtain ⟨frame, listed, rfl⟩ := mem_map.mp restored
        exact frames frame listed
    exact durable
  · intro frame member
    exact mem_append_right _ (mem_map_of_mem member)

lemma handleEvent_voting (collisionFree : Set.InjOn bus.recordHash records)
    (indexed : node.storage.Indexed bus.toSession records) (voting : node.Voting)
    (enabled : node.Enabled bus event) (result : node.handleEvent bus event = .ok next)
    (handed : ∀ vote ∈ node.delivered event, .vote vote ∈ records) : next.Voting := by
  cases event with
  | pool event => exact voting.poolStep enabled.1 result
  | consensus event => exact voting.consensusStep enabled result
  | producer event => exact voting.producerStep result
  | deliverVote =>
    cases result
    exact voting.deliverVote collisionFree indexed handed
  | commit =>
    cases result
    exact voting.commit indexed
  | complete write => exact voting.complete enabled result
  | refuse cert => exact voting.refuse result
  | restart params entries =>
    have log := voting.consensus.log
    simp only [votes, filterMap_nil, append_nil] at log
    exact launch_voting (log.of_prefix node.sent_prefix) enabled voting.cast result

lemma Run.voting (collisionFree : Set.InjOn bus.recordHash records) (run : Run bus records node) : node.Voting := by
  induction run with
  | start launched => exact launch_voting (show ConsistentLog (sentVotes ({} : Disk).votes) from .empty) .nil (by simp) launched
  | step run enabled unforged result handed ih =>
    have indexed := (run.storage.savedOnce collisionFree).toIndexed
    exact handleEvent_voting collisionFree indexed ih enabled result handed.votes

lemma Voting.consistent (voting : node.Voting) : ConsistentVotes (· ∈ node.sent) := by
  have log := voting.consensus.log
  simp only [votes, filterMap_nil, append_nil] at log
  exact (log.of_prefix node.sent_prefix).toConsistentVotes

lemma Voting.not_conflicts (voting : node.Voting) {first second : Vote}
    (firstCast : first ∈ node.record.cast) (secondCast : second ∈ node.record.cast)
    (sameSlot : first.referencedSlot = second.referencedSlot) : first.conflicts second = false :=
  voting.consistent.not_conflicts (voting.cast first firstCast) (voting.cast second secondCast)
    sameSlot

structure Grows (node next : Node n) : Prop where
  cast : node.record.cast ⊆ next.record.cast
  proposed : node.record.proposed ⊆ next.record.proposed
  reports : node.record.reports ⊆ next.record.reports

lemma launch_grows (result : launch bus params disk entries node.record = .ok next) : Grows node next := by
  obtain ⟨⟨db, bootstrap⟩, _, result⟩ := bind_eq_ok.mp result
  obtain ⟨storage, _, result⟩ := bind_eq_ok.mp result
  cases result
  refine ⟨subset_append_left _ _, fun _ => id, ?_⟩
  exact fun _ member => mem_append_left _ (mem_append_left _ member)

lemma handleEvent_grows (result : node.handleEvent bus event = .ok next) : Grows node next := by
  cases event with
  | pool event =>
    obtain ⟨storage, _, result⟩ := bind_eq_ok.mp result
    cases result
    cases event <;> exact ⟨fun _ => id, fun _ => id, subset_append_left _ _⟩
  | consensus event =>
    obtain ⟨consensus, _, result⟩ := bind_eq_ok.mp result
    cases result
    exact ⟨fun _ => id, fun _ => id, subset_append_left _ _⟩
  | producer event =>
    obtain ⟨producer, _, result⟩ := bind_eq_ok.mp result
    cases result
    cases event <;> exact ⟨fun _ => id, subset_append_left _ _, fun _ => id⟩
  | deliverVote =>
    cases result
    rw [deliverVote]
    split <;> exact ⟨fun _ => id, fun _ => id, fun _ => id⟩
  | commit =>
    cases result
    exact ⟨fun _ => id, fun _ => id, fun _ => id⟩
  | complete write =>
    obtain ⟨storage, _, result⟩ := bind_eq_ok.mp result
    cases write with
    | ourVote key vote seqno =>
      cases result
      exact ⟨subset_append_left _ _, fun _ => id, subset_append_left _ _⟩
    | cert key cert =>
      cases result
      exact ⟨fun _ => id, fun _ => id, subset_append_left _ _⟩
    | poolState startSlot base window =>
      cases result
      exact ⟨fun _ => id, fun _ => id, fun _ => id⟩
  | refuse cert =>
    obtain ⟨storage, _, result⟩ := bind_eq_ok.mp result
    cases result
    exact ⟨fun _ => id, fun _ => id, subset_append_left _ _⟩
  | restart params entries => exact launch_grows result

lemma handleEvent_backed
    (capped : bus.totalWeight ≤ 2 ^ 61) (savedOnce : node.storage.SavedOnce bus.toSession records [])
    (enabled : node.Enabled bus event)
    (vouched : ∀ poolEvent, event = .pool poolEvent → Pool.Vouched bus signs poolEvent)
    (backed : node.storage.Backed bus signs) (result : node.handleEvent bus event = .ok next) :
    next.storage.Backed bus signs := by
  rcases handleEvent_storage enabled result with same | ⟨other, allowed, handled, _, isPool⟩
  · rw [same]
    exact backed
  cases other with
  | pool poolEvent => exact backed.poolStep capped allowed.2 (vouched poolEvent (isPool _ rfl)) handled
  | broadcastVote vote =>
    rw [← Except.ok.inj handled]
    exact backed.broadcastVote vote
  | commit =>
    rw [← Except.ok.inj handled]
    exact backed.commit savedOnce.toIndexed
  | complete write =>
    refine backed.complete capped ?_ handled
    intro cert found
    cases write with
    | cert key certificate =>
      cases found
      exact savedOnce.waiting allowed
    | ourVote _ _ _ => cases found
    | poolState _ _ _ => cases found
  | refuse cert =>
    have refused : cert ∈ node.storage.refused := allowed
    rw [savedOnce.accepted] at refused
    cases refused
  | restart params entries =>
    refine Storage.Backed.restart capped ?_ allowed handled
    intro key received member
    exact backed.certs key received (mem_append_left _ member)

end Node

lemma Pool.Event.Unforged.vouched {pool : Pool n} {event : Pool.Event n}
    {signed : Fin n → Vote → Prop} (unforged : event.Unforged bus.toSession signed) (enabled : pool.Enabled bus event)
    (own : ∀ frame ∈ pool.ourVotes, signed bus.localId frame.vote) : Pool.Vouched bus (bus.Genuine signed) event := by
  cases event with
  | incomingProtocolMessage source message time =>
    cases message with
    | vote vote signature => exact fun verifies => ⟨verifies, unforged verifies⟩
    | certificate certificate => exact unforged
    | other => trivial
  | keyringSigned frame signature => exact ⟨enabled.2, own frame enabled.1⟩
  | _ => trivial

namespace Node

variable {node next : Node n}

lemma Grows.genuine (grows : Grows node next) (validator : Fin n) (vote : Vote) (signature : BufferSlice)
    (genuine : bus.Genuine (node.Signed bus) validator vote signature) : bus.Genuine (next.Signed bus) validator vote signature :=
  ⟨genuine.1, fun own => grows.cast (genuine.2 own)⟩

lemma start_backed
    (capped : bus.totalWeight ≤ 2 ^ 61) (launched : launch bus params {} [] {} = .ok node) : node.storage.Backed bus signs :=
  Storage.Backed.restart capped (by simp) .nil (launch_restart launched)

lemma Run.backed (collisionFree : Set.InjOn bus.recordHash records) (capped : bus.totalWeight ≤ 2 ^ 61)
    (run : Run bus records node) :
    node.storage.Backed bus (bus.Genuine (node.Signed bus)) := by
  induction run with
  | start launched => exact start_backed capped launched
  | @step node next event run enabled unforged result handed ih =>
    have keyring := (run.voting collisionFree).keyring
    have reached : next.storage.Backed bus (bus.Genuine (node.Signed bus)) := by
      refine handleEvent_backed capped (run.storage.savedOnce collisionFree) enabled ?_ ih result
      rintro poolEvent rfl
      exact Pool.Event.Unforged.vouched unforged enabled.2 fun frame member _ =>
        keyring frame member
    exact reached.imp (handleEvent_grows result).genuine

lemma consensusStep_fails (bus : Bus n) (node : Node n) (event : ConsensusImpl.Event n) :
    FailsWith (· = .voteOrCertificatePresent) (node.consensusStep bus event) := by
  have final : ∀ (impl : ConsensusImpl n) (slot : Nat),
      FailsWith (· = .voteOrCertificatePresent) (impl.tryVoteFinal slot) := by
    intro impl slot
    unfold ConsensusImpl.tryVoteFinal
    simp only
    split
    · exact .error rfl
    · split <;> exact .ok _
    · exact .ok _
  refine FailsWith.bind ?_ fun _ => .ok _
  cases event with
  | notarizationObserved id =>
    simp only [ConsensusImpl.step, ConsensusImpl.handleEvent, ConsensusImpl.processNotarizationObserved]
    split
    · exact .ok _
    · exact final _ _
  | candidateAccepted candidate => exact final _ _
  | _ => exact .ok _

lemma producerStep_fails (bus : Bus n) (node : Node n) (event : BlockProducer.Event) :
    FailsWith (fun failure => failure = .leaderWindowIncreasing ∨ failure = .parentPresent) (node.producerStep bus event) := by
  refine FailsWith.bind ?_ fun _ => .ok _
  cases event with
  | ourLeaderWindowStarted base startSlot endSlot =>
    simp only [BlockProducer.step, BlockProducer.handleEvent, BlockProducer.handleOurLeaderWindowStarted]
    split
    · exact .ok _
    · exact .error (.inl rfl)
  | blockChosen generation block =>
    simp only [BlockProducer.step, BlockProducer.handleEvent, BlockProducer.resumeWithBlock]
    split
    · exact .ok _
    · refine FailsWith.bind ?_ fun _ => .ok _
      unfold BlockProducer.hashData
      split
      · exact .ok _
      · split
        · exact .error (.inr rfl)
        · exact .ok _
  | _ => exact .ok _

end Node

lemma Pool.startUp_fails (bus : Bus n) (params : NoncriticalParams) (bootstrap : Bootstrap n) :
    FailsWith (fun failure => failure.isBookkeeping = true ∨ failure = .certificateNotStored ∨
      failure = .finalSlotNotSkipped ∨ failure = .finalSlotNotarizedBlock) (startUp bus params bootstrap) := by
  refine FailsWith.bind ?_ fun _ => .ok _
  generalize fresh params bootstrap.firstNonannouncedWindow = pool
  induction bootstrap.certificates generalizing pool with
  | nil => exact .ok _
  | cons cert rest ih =>
    simp only [loadCertificates]
    split
    · exact ih pool
    · refine FailsWith.bind ?_ ih
      refine (handleSavedCertificate_fails bus pool cert).imp fun failure => .imp_right ?_
      refine .imp And.left ?_
      rintro ⟨_, _, _, _, refused⟩
      exact refused.cases

namespace Node

variable {node next : Node n}

lemma handleEvent_fails {event : Event n} {allowed : Check → Prop} (stepped : ∀ poolEvent, event.poolEvent? = some poolEvent →
      FailsWith allowed (node.storage.pool.step bus poolEvent))
    (started : ∀ params entries db bootstrap, event = .restart params entries →
      Db.init bus.toSession node.storage.disk.poolState entries = .ok (db, bootstrap) →
      FailsWith allowed (Pool.startUp bus params bootstrap))
    (others : ∀ failure, failure = .windowNotAnnounced ∨ failure = .storedCertificateValid ∨
      failure = .voteOrCertificatePresent ∨ failure = .leaderWindowIncreasing ∨ failure = .parentPresent → allowed failure) :
    FailsWith allowed (node.handleEvent bus event) := by
  have announced := others _ (.inl rfl)
  cases event with
  | pool event =>
    exact FailsWith.bind (poolStep_fails (stepped event rfl) announced) fun _ => .ok _
  | consensus event =>
    refine (consensusStep_fails bus node event).imp ?_
    rintro _ rfl
    exact others _ (.inr (.inr (.inl rfl)))
  | producer event =>
    refine (producerStep_fails bus node event).imp ?_
    rintro failure (rfl | rfl)
    · exact others _ (.inr (.inr (.inr (.inl rfl))))
    · exact others _ (.inr (.inr (.inr (.inr rfl))))
  | deliverVote => exact .ok _
  | commit => exact .ok _
  | complete write =>
    have resumed : FailsWith allowed (node.storage.complete bus write) := by
      cases write with
      | ourVote key vote seqno | cert key cert => exact poolStep_fails (stepped _ rfl) announced
      | poolState startSlot base window => exact .ok _
    refine FailsWith.bind resumed fun _ => ?_
    cases write <;> exact .ok _
  | refuse cert =>
    exact FailsWith.bind (poolStep_fails (stepped _ rfl) announced) fun _ => .ok _
  | restart params entries =>
    refine FailsWith.bind_ok ?_ fun loaded initialized => ?_
    · refine ((readCertificates_fails _ _).bind fun _ => .ok _).imp ?_
      rintro _ rfl
      exact others _ (.inr (.inl rfl))
    · refine FailsWith.bind ?_ fun _ => .ok _
      exact boot_fails (started params entries _ _ rfl initialized) announced

end Node

end TonNode.Simplex
