import TonNode.Simplex.PoolVoteGuarantees
import TonNode.Simplex.StorageCerts

/-!
# What the pool and its database guarantee about certificates

At most one certificate per slot and type is ever written, no write is refused,
and every certificate that is being saved is stored in the end unless its slot is
finalized before.
-/

namespace TonNode.Simplex

open Consensus Lib List

variable {n : Nat} {bus : Bus n} {params : NoncriticalParams}

namespace Pool

variable {pool : Pool n}

lemma handleEvent_not_stored {event : Event n} (result : pool.handleEvent bus event = .error .certificateNotStored) :
    ∃ cert, event = .certificateSaved cert ∧ pool.certAt cert.vote.referencedSlot cert.vote.kind ≠ none := by
  cases event with
  | start =>
    have failed := advancePresent_fails bus { pool with isStarted := true } _ result
    cases failed
  | incomingProtocolMessage source message time =>
    rcases handleIncomingProtocolMessage_error result with same | same | same <;> cases same
  | broadcastVote vote
  | certificateSaveFailed cert
  | precheckCandidateBroadcast slot broadcastId signatureChecked
  | noncriticalParamsUpdated params => cases result
  | keyringSigned frame signature =>
    rcases resumeOurVote_error result with same | same | same <;> cases same
  | certificateSaved cert =>
    refine ⟨cert, rfl, ?_⟩
    simp only [handleEvent, resumeProspectiveCertificate] at result
    split at result
    · cases result
    · rcases handleSavedCertificate_fails _ _ _ _ result with failed | ⟨_, present⟩ | ⟨_, _, _, _, refused⟩
      · cases failed
      · rw [(addCertificateVotes_collects _ _ _).certAt] at present
        exact present
      · rcases refused.cases with same | same <;> cases same
  | waitForParent candidate => cases processWaitForParent_fails _ _ _ result
  | standstill slot =>
    rcases publishStandstillMessages_error result with same | same | same <;> cases same

lemma loadCertificates_stores_all {certs : List (Certificate n)} (distinct : (certs.map (·.vote.entryKey)).Nodup)
    (absent : ∀ cert ∈ certs, pool.certAt cert.vote.referencedSlot cert.vote.kind = none) :
    pool.loadCertificates bus certs ≠ .error .certificateNotStored := by
  induction certs generalizing pool with
  | nil =>
    intro failed
    cases failed
  | cons cert rest ih =>
    simp only [map_cons, nodup_cons] at distinct
    simp only [loadCertificates]
    split
    · exact ih distinct.2 (forall_mem_cons.mp absent).2
    intro failed
    rcases bind_eq_error.mp failed with failed | ⟨handled, handledResult, failed⟩
    · rcases handleSavedCertificate_fails _ _ _ _ failed with bookkeeping | ⟨_, present⟩ | ⟨_, _, _, _, refused⟩
      · cases bookkeeping
      · exact present (absent cert (by simp))
      · rcases refused.cases with same | same <;> cases same
    · refine ih distinct.2 (fun other member => ?_) failed
      obtain ⟨stored, storedResult, quiet⟩ := handleSavedCertificate_stored handledResult
      rw [quiet.certAt, (storeCertificate_spec storedResult).certAt, if_neg]
      · exact absent other (mem_cons_of_mem _ member)
      · intro same
        refine distinct.1 (mem_map.mpr ⟨other, member, ?_⟩)
        simp only [Vote.entryKey, same.1, same.2]

lemma startUp_stores_all {bootstrap : Bootstrap n} (distinct : (bootstrap.certificates.map (·.vote.entryKey)).Nodup) :
    startUp bus params bootstrap ≠ .error .certificateNotStored := by
  intro failed
  rcases bind_eq_error.mp failed with failed | ⟨loaded, _, failed⟩
  · exact loadCertificates_stores_all distinct (fun cert _ => fresh_certAt _ _ _ _) failed
  · cases failed

end Pool

namespace Storage

variable {storage next : Storage n} {records : Set (DbRecord n)}

lemma mem_certs {writes : List (Write n)} {cert : Certificate n} : cert ∈ certs writes ↔ ∃ key, .cert key cert ∈ writes := by
  constructor
  · intro member
    obtain ⟨write, found, same⟩ := mem_filterMap.mp member
    cases write with
    | cert key certificate =>
      cases same
      exact ⟨key, found⟩
    | ourVote key vote seqno => cases same
    | poolState startSlot base window => cases same
  · rintro ⟨key, found⟩
    exact mem_filterMap.mpr ⟨_, found, rfl⟩

lemma poolStep_ne_not_stored {event : Pool.Event n} (absent : ∀ cert, event = .certificateSaved cert →
      storage.pool.certAt cert.vote.referencedSlot cert.vote.kind = none) :
    storage.poolStep bus event ≠ .error .certificateNotStored := by
  intro failed
  rcases bind_eq_error.mp failed with failed | ⟨pool, _, failed⟩
  · obtain ⟨cert, same, present⟩ := Pool.handleEvent_not_stored failed
    exact present (absent cert same)
  · cases route_fails _ _ _ _ failed

lemma Sound.restart_stores_all {disk : Disk}
    {entries : List (Bits256 × DbValue)} (sound : Sound bus.toSession records disk.votes) (read : entries.Perm disk.votes) :
    Storage.restart bus params disk entries ≠ .error .certificateNotStored := by
  intro failed
  rcases bind_eq_error.mp failed with failed | ⟨⟨db, bootstrap⟩, initialized, failed⟩
  · cases ((readCertificates_fails _ _).bind fun _ => .ok _) _ failed
  have votes := (init_bootstrap initialized).2
  rcases bind_eq_error.mp failed with failed | ⟨pool, _, failed⟩
  · refine Pool.startUp_stores_all ?_ failed
    have keys : bootstrap.certificates.map (·.vote.entryKey) =
        (certVotes entries).map Vote.entryKey := by
      rw [← votes, map_map]
      rfl
    rw [keys]
    exact ((read.filterMap _).map _).nodup_iff.mpr sound.distinct
  · cases route_fails _ _ _ _ failed

/-- At most one certificate per slot and type is on disk, none is refused, storing one never
fails, and a set flag belongs to a save under way. -/
theorem certificates_saved_once (collisionFree : Set.InjOn bus.recordHash records) (run : Run bus records storage) :
    ((certVotes storage.disk.votes).map Vote.entryKey).Nodup ∧
    storage.refused = [] ∧
    (∀ event, storage.Enabled bus event →
      storage.handleEvent bus event ≠ .error .certificateNotStored) ∧
    (∀ slot kind,
      storage.pool.state.firstNonFinalizedSlot ≤ slot →
      ((storage.pool.state.slots slot).certs.entry kind).beingSaved = true →
      storage.pool.certAt slot kind = none →
      ∃ key cert, cert.vote.entryKey = (slot, kind) ∧
        (.cert key cert ∈ storage.writes ∨ .cert key cert ∈ storage.completed)) ∧
    ∀ key cert next,
      .cert key cert ∈ storage.completed →
      storage.complete bus (.cert key cert) = .ok next →
      next.pool.certAt cert.vote.referencedSlot cert.vote.kind = some cert ∨
        cert.vote.referencedSlot < next.pool.state.firstNonFinalizedSlot := by
  have savedOnce := run.savedOnce collisionFree
  refine ⟨savedOnce.sound.distinct, savedOnce.accepted, ?_, ?_, ?_⟩
  · intro event enabled
    cases event with
    | pool event =>
      refine poolStep_ne_not_stored fun cert same => ?_
      subst same
      cases enabled.1
    | broadcastVote vote | commit => exact fun failed => by cases failed
    | complete write =>
      cases write with
      | ourVote key vote seqno => exact poolStep_ne_not_stored fun cert same => by cases same
      | cert key cert =>
        refine poolStep_ne_not_stored fun other same => ?_
        cases same
        exact (savedOnce.saving.flagged cert (savedOnce.waiting enabled)).2
      | poolState startSlot base window => exact fun failed => by cases failed
    | refuse cert => exact poolStep_ne_not_stored fun other same => by cases same
    | restart params entries => exact savedOnce.sound.restart_stores_all enabled
  · intro slot kind tracked flag absent
    obtain ⟨cert, waiting, key⟩ := savedOnce.saving.owned slot kind tracked flag absent
    have pending := savedOnce.pending.symm.subset waiting
    rw [append_nil] at pending
    rcases mem_append.mp pending with queued | done
    · obtain ⟨recordKey, member⟩ := mem_certs.mp queued
      exact ⟨recordKey, cert, key, .inl member⟩
    · obtain ⟨recordKey, member⟩ := mem_certs.mp done
      exact ⟨recordKey, cert, key, .inr member⟩
  · intro key cert next member result
    obtain ⟨pool, stepped, routed⟩ := bind_eq_ok.mp result
    rw [route_pool routed]
    exact (savedOnce.completed member stepped).settled

def replay (bus : Bus n) : Storage n → List (Event n) → Option (Storage n)
  | storage, [] => some storage
  | storage, event :: rest =>
    if storage.Enabled bus event then
      match storage.handleEvent bus event with
      | .error _ => none
      | .ok next => replay bus next rest
    else
      none

lemma run_of_replay {events : List (Event n)} (run : Run bus .univ storage)
    (result : replay bus storage events = some next) : Run bus .univ next := by
  induction events generalizing storage with
  | nil =>
    cases result
    exact run
  | cons event rest ih =>
    simp only [replay] at result
    split at result
    next enabled =>
      split at result
      · cases result
      next handled => exact ih (.step run enabled handled (.univ _ _)) result
    next => cases result

def quadEmpty : Storage 4 :=
  (restart Pool.quadBus ⟨1, 1⟩ {} []).toOption.getD { disk := {}, db := {}, pool := Pool.quadStart }

def quadStorage (events : List (Event 4)) : Storage 4 :=
  (replay Pool.quadBus quadEmpty events).getD quadEmpty

lemma quad_storage_run (events : List (Event 4)) (replayed : (replay Pool.quadBus quadEmpty events).isSome = true) :
    Run Pool.quadBus .univ (quadStorage events) := by
  have started : restart Pool.quadBus ⟨1, 1⟩ {} [] = .ok quadEmpty := rfl
  obtain ⟨storage, found⟩ := Option.isSome_iff_exists.mp replayed
  rw [quadStorage, found]
  exact run_of_replay (.start started) found

def quadSaved : List (Event 4) := Pool.quadNotarized.map .pool ++ [.commit, .commit]

def quadWrite : Write 4 :=
  .cert (Encodable.encode (DbRecord.certificate Pool.quadNotarCert)) Pool.quadNotarCert

def quadCrash : List (Event 4) :=
  quadSaved ++ [.restart ⟨1, 1⟩ quadWrite.entry?.toList]

theorem quad_certificates_saved_once : ((certVotes (quadStorage quadCrash).disk.votes).map Vote.entryKey).Nodup ∧
    certVotes (quadStorage quadCrash).disk.votes = [.notarize ⟨0, 1⟩] ∧
    (quadStorage (quadSaved ++ [.complete quadWrite])).pool.certAt 0 .notarize = some Pool.quadNotarCert := by
  have collisionFree : Set.InjOn Pool.quadBus.recordHash .univ := Encodable.encode_injective.injOn
  have saved := quad_storage_run quadSaved (by decide +kernel)
  have crashed := quad_storage_run quadCrash (by decide +kernel)
  obtain ⟨distinct, _⟩ := certificates_saved_once collisionFree crashed
  obtain ⟨_, _, _, _, stored⟩ := certificates_saved_once collisionFree saved
  have completed : (quadStorage quadSaved).complete Pool.quadBus quadWrite =
    .ok (quadStorage (quadSaved ++ [.complete quadWrite])) := rfl
  refine ⟨distinct, by decide +kernel, ?_⟩
  rcases stored _ _ _ (by decide +kernel) completed with present | behind
  · exact present
  · exact absurd behind (by decide +kernel)

end Storage

end TonNode.Simplex
