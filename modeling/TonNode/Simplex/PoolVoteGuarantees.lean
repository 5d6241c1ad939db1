import TonNode.Simplex.PoolTallies

/-!
# What the pool guarantees about votes

Tallies and locally built certificates are exact. Contradicting votes are
reported unless the pre-filter drops one of them.
-/

namespace TonNode.Simplex

open Consensus Lib ConsensusState List

variable {n : Nat}

namespace Pool

variable {bus : Bus n} {pool next : Pool n} {log : List (Published n)} {cert : Certificate n} {start : Pool n}
variable {event : Event n} {last : Pool n} {signs : Fin n → Vote → BufferSlice → Prop}

lemma Run.tallied (capped : bus.totalWeight ≤ 2 ^ 61) (run : Run bus log pool) : pool.Tallied bus bus.Verifies ∧
      ∀ event ∈ log, event.Backed bus.toSession bus.Verifies := by
  induction run with
  | startUp valid result =>
    have tallied := startUp_tallied valid result
    exact ⟨tallied, tallied.published⟩
  | step run enabled result ih =>
    have tallied := step_tallied capped enabled enabled.vouched ih.1 result
    refine ⟨tallied, fun event member => ?_⟩
    rcases mem_append.mp member with earlier | new
    · exact ih.2 event earlier
    · exact tallied.published event new

/-- What every node with the same validator set accepts. -/
def Acceptable (session : Session n) (cert : Certificate n) : Prop :=
  cert.signers.Nodup ∧ session.totalWeight * 2 / 3 + 1 ≤ (cert.signers.map session.weight).sum ∧
    Certificate.fromTl session cert.toTl = .ok cert

lemma acceptable_of_valid {session : Session n} (capped : session.totalWeight ≤ 2 ^ 61) (valid : cert.Valid session) :
    Acceptable session cert := by
  refine ⟨valid.distinct, ?_, Certificate.fromTl_toTl capped valid⟩
  rw [← session.weightThreshold_eq capped]
  exact valid.heavy

/-- The counters are the weights of the validators whose vote arrived signed, and every
certificate built from votes is accepted everywhere. -/
theorem tallies_and_certificates_exact (capped : bus.totalWeight ≤ 2 ^ 61) (run : Run bus log pool) :
    (∀ slot, pool.state.firstNonFinalizedSlot ≤ slot → (pool.state.slots slot).skipWeight =
        (pool.state.slots slot).signedWeight bus.toSession (.skip slot) ∧ (∀ id, (pool.state.slots slot).notarizeWeight id =
        (pool.state.slots slot).signedWeight bus.toSession (.notarize id)) ∧ (∀ id, (pool.state.slots slot).finalizeWeight id =
        (pool.state.slots slot).signedWeight bus.toSession (.finalize id)) ∧ ∀ validator kind proven,
        ((pool.state.slots slot).votes validator).stored kind = some proven →
        proven.isSigned = false → (pool.certAt slot kind).isSome = true) ∧
    (∀ event, pool.Enabled bus event → step bus pool event ≠ .error .signedVoteProof) ∧
    (∀ vote, pool.certAt vote.referencedSlot vote.kind = none →
      bus.weightThreshold ≤ (pool.state.slots vote.referencedSlot).weightOf vote →
      ∃ cert, (pool.state.slots vote.referencedSlot).createCert vote = .ok cert ∧
        cert.vote = vote ∧ Acceptable bus.toSession cert) ∧
    ∀ cert, .saveCertificate cert ∈ log → Acceptable bus.toSession cert := by
  obtain ⟨tallied, backed⟩ := run.tallied capped
  refine ⟨fun slot _ => ⟨?_, ?_, ?_, ?_⟩, ?_, ?_, ?_⟩
  · exact (tallied.votes slot).tally (.skip slot) fun _ => rfl
  · exact fun id => (tallied.votes slot).tally (.notarize id) fun skip => by cases skip
  · exact fun id => (tallied.votes slot).tally (.finalize id) fun skip => by cases skip
  · exact (tallied.votes slot).certified
  · intro event enabled failed
    have cleared : ({ pool with published := [] } : Pool n).Tallied bus bus.Verifies :=
      ⟨tallied.votes, tallied.stored, tallied.saving, by simp⟩
    exact (handleEvent_fails capped enabled.vouched cleared _ failed).1 rfl
  · intro vote absent heavy
    obtain ⟨cert, created, same, _, supported⟩ := (tallied.votes vote.referencedSlot).createCert rfl (by simp [absent])
    exact ⟨cert, created, same, acceptable_of_valid capped (supported heavy)⟩
  · intro cert saved
    exact acceptable_of_valid capped (backed _ saved)

inductive Trace (bus : Bus n) (start : Pool n) : List (Published n) → Pool n → Prop where
  | nil : Trace bus start [] start
  | step {log : List (Published n)} {pool next : Pool n} {event : Event n} :
      Trace bus start log pool → pool.Enabled bus event → step bus pool event = .ok next →
      Trace bus start (log ++ next.published) next

lemma Run.trace {earlier : List (Published n)} (run : Run bus earlier start)
    (trace : Trace bus start log pool) : Run bus (earlier ++ log) pool := by
  induction trace with
  | nil => simpa using run
  | step trace enabled result ih =>
    rw [← append_assoc]
    exact .step ih enabled result

def replay (bus : Bus n) : Pool n → List (Event n) → Option (List (Published n) × Pool n)
  | pool, [] => some ([], pool)
  | pool, event :: rest =>
    if pool.Enabled bus event then
      match step bus pool event with
      | .error _ => none
      | .ok next => (replay bus next rest).map fun (log, last) => (next.published ++ log, last)
    else
      none

lemma Trace.cons (enabled : pool.Enabled bus event)
    (result : Pool.step bus pool event = .ok next) (trace : Trace bus next log last) :
    Trace bus pool (next.published ++ log) last := by
  induction trace with
  | nil => simpa using Trace.step .nil enabled result
  | step trace laterEnabled laterResult ih =>
    rw [← append_assoc]
    exact .step ih laterEnabled laterResult

lemma trace_of_replay {events : List (Event n)}
    (result : replay bus pool events = some (log, last)) : Trace bus pool log last := by
  induction events generalizing pool log with
  | nil =>
    cases result
    exact .nil
  | cons event rest ih =>
    simp only [replay] at result
    split at result
    next enabled =>
      split at result
      · cases result
      next next stepped =>
        obtain ⟨⟨restLog, restLast⟩, replayed, same⟩ := Option.map_eq_some_iff.mp result
        cases same
        exact .cons enabled stepped (ih replayed)
    next => cases result

def VotesGrow (pool next : Pool n) : Prop :=
  ∀ slot validator, Tsentrizbirkom.Grows slot ((pool.state.slots slot).votes validator) ((next.state.slots slot).votes validator)

lemma VotesGrow.of_votes_eq (same : ∀ slot, (next.state.slots slot).votes = (pool.state.slots slot).votes) :
    VotesGrow pool next := by
  intro slot validator
  rw [same]
  exact .refl _ _

lemma VotesGrow.trans {middle : Pool n} (first : VotesGrow pool middle)
    (second : VotesGrow middle next) : VotesGrow pool next :=
  fun slot validator => (first slot validator).trans (second slot validator)

lemma VotesGrow.publish (pool : Pool n) (event : Published n) : VotesGrow pool (pool.publish event) :=
  .of_votes_eq fun _ => rfl

lemma VotesGrow.addVote (pool : Pool n) (validator : Fin n) (vote : Proven n) :
    VotesGrow pool (pool.modifySlot vote.vote.referencedSlot (·.setVotes validator
      (((pool.state.slots vote.vote.referencedSlot).votes validator).addVote vote).2)) := by
  intro slot other
  simp only [modifySlot, modifySlot_slots]
  split
  next same =>
    rw [same, SlotState.votes_setVotes]
    split
    next voter =>
      rw [voter]
      exact Tsentrizbirkom.addVote_grows _ vote
    next => exact .refl _ _
  next => exact .refl _ _

lemma addCertificateVotes_grow (pool : Pool n) (cert : Certificate n)
    (validators : List (Fin n)) : VotesGrow pool (pool.addCertificateVotes cert validators) := by
  induction validators generalizing pool with
  | nil => exact .of_votes_eq fun _ => rfl
  | cons validator rest ih =>
    have first := VotesGrow.addVote pool validator (.ofCertificate cert)
    simp only [addCertificateVotes]
    split
    · exact first.trans ((VotesGrow.publish _ _).trans (ih _))
    · exact first.trans (ih _)

lemma Change.votesGrow (change : Change bus signs pool next) : VotesGrow pool next := by
  cases change with
  | quiet quiet => exact .of_votes_eq quiet.votes
  | reported admissible outcome => exact .of_votes_eq fun _ => rfl
  | @counted vote admissible applied =>
    have stored := VotesGrow.addVote pool vote.validator (.ofSigned vote)
    rw [Proven.ofSigned_slot, applied] at stored
    refine stored.trans (.of_votes_eq fun slot => ?_)
    simp only [countVote, modifySlot, modifySlot_slots]
    split
    next same => rw [if_pos trivial, SlotState.votes_addWeightTo]
    next => rfl
  | saving wanted justified =>
    refine .of_votes_eq fun slot => ?_
    simp only [beginSaving, modifySlot_slots]
    split
    next same => rw [same]
    next => rfl

lemma Completes.votesGrow (completes : Completes cert pool next) : VotesGrow pool next := by
  cases completes with
  | overtaken behind => exact .of_votes_eq fun _ => rfl
  | stored tracked result quiet =>
    have removed : VotesGrow pool { pool with saving := pool.saving.erase cert } := .of_votes_eq fun _ => rfl
    exact removed.trans ((addCertificateVotes_grow _ _ _).trans
      ((VotesGrow.of_votes_eq (storeCertificate_spec result).votes).trans (.of_votes_eq quiet.votes)))

lemma Changes.votesGrow (changes : Changes bus signs pool next) : VotesGrow pool next :=
  changes.preserve (fun change grown => grown.trans change.votesGrow) (.of_votes_eq fun _ => rfl)

lemma step_votesGrow (enabled : pool.Enabled bus event)
    (result : Pool.step bus pool event = .ok next) : VotesGrow pool next := by
  have cleared : VotesGrow pool { pool with published := [] } := .of_votes_eq fun _ => rfl
  refine cleared.trans ?_
  rcases handleEvent_changes enabled.vouched result with ⟨changes, _⟩ | ⟨cert, _, completes⟩ | ⟨cert, _, rfl⟩
  · exact changes.votesGrow
  · exact completes.votesGrow
  · exact .of_votes_eq fun _ => rfl

lemma Trace.votesGrow (trace : Trace bus start log pool) : VotesGrow start pool := by
  induction trace with
  | nil => exact .of_votes_eq fun _ => rfl
  | step trace enabled result ih => exact ih.trans (step_votesGrow enabled result)

lemma Run.coherent (run : Run bus log pool) (slot : Nat) (validator : Fin n) :
    ((pool.state.slots slot).votes validator).Coherent slot := by
  induction run with
  | @startUp params bootstrap pool valid result =>
    refine startUp_preserve (fun pool => ((pool.state.slots slot).votes validator).Coherent slot) ?_ ?_ ?_ result
    · intro cert pool stored _ result coherent
      rwa [(storeCertificate_spec result).votes]
    · intro pool next quiet coherent
      rwa [quiet.votes]
    · simp only [fresh, empty, modifySlot, modifySlot_slots]
      split <;> exact Tsentrizbirkom.coherent_empty slot
  | step run enabled result ih => exact (step_votesGrow enabled result slot validator).coherent ih

lemma isBanned_congr (pool next : Pool n) (peer : Fin n) (time : Nat) (bans : next.badSignatureBans = pool.badSignatureBans) :
    (next.isBanned peer time).1 = (pool.isBanned peer time).1 := by
  unfold isBanned
  rw [bans]
  split
  · rfl
  · split <;> rfl

lemma isBanned_eq (pool : Pool n) (peer : Fin n) (time : Nat) :
    ∃ bans, (pool.isBanned peer time).2 = { pool with badSignatureBans := bans } := by
  unfold isBanned
  split
  · exact ⟨_, rfl⟩
  · split <;> exact ⟨_, rfl⟩

/-- The conditions under which a delivered vote reaches the comparison with the stored votes. -/
structure Examined (bus : Bus n) (pool : Pool n) (source : Fin n) (vote : Vote)
    (signature : BufferSlice) (time : Nat) : Prop where
  notBanned : (pool.isBanned source time).1 = false
  notFinalized : pool.firstNonfinalizedSlot ≤ vote.referencedSlot
  notTooNew : vote.referencedSlot < pool.firstTooNewSlot bus
  signed : bus.checkSignature source (.vote vote) signature = true
  undisputed : ∀ proven, ((pool.state.slots vote.referencedSlot).votes source).stored vote.kind = some proven → proven.vote = vote

/-- The validator is reported, or the vote is stored and nothing stored contradicted it. -/
def Settles (pool next : Pool n) (validator : Fin n) (vote : Vote) : Prop :=
  (∃ misbehavior, .misbehaviorReport validator misbehavior ∈ next.published) ∨
    ¬ ((pool.state.slots vote.referencedSlot).votes validator).Opposes vote ∧
      ∃ proven, ((next.state.slots vote.referencedSlot).votes validator).stored vote.kind = some proven ∧ proven.vote = vote

lemma handleVote_outcome {vote : Signed n} {tolerate applied : Bool}
    (coherent : ((pool.state.slots vote.vote.referencedSlot).votes vote.validator).Coherent vote.vote.referencedSlot)
    (tracked : pool.state.firstNonFinalizedSlot ≤ vote.vote.referencedSlot)
    (result : pool.handleVote bus vote.validator vote tolerate = .ok (applied, next)) :
    Settles pool next vote.validator vote.vote := by
  have unchanged := Quiet.setVotes pool vote.vote.referencedSlot vote.validator
  simp only [handleVote, slotAt_of_le tracked] at result
  rcases Tsentrizbirkom.addVote_cases coherent (Proven.ofSigned_slot vote) with
    ⟨_, misbehavior, outcome⟩ | ⟨clear, ⟨previous, found, same⟩, outcome⟩ |
    ⟨clear, _, _, outcome⟩
  · simp only [outcome, AddVoteResult.ofMisbehavior] at result
    split at result
    · cases result
    · cases result
      exact .inl ⟨misbehavior, by simp [publish]⟩
  · simp only [outcome, AddVoteResult.ofBool, Bool.false_eq_true, if_false] at result
    cases result
    refine .inr ⟨clear, previous, ?_, same⟩
    rw [unchanged.votes]
    exact found
  · simp only [outcome, AddVoteResult.ofBool, if_true] at result
    obtain ⟨typed, typedResult, result⟩ := bind_eq_ok.mp result
    obtain ⟨_, rfl⟩ : true = applied ∧ typed = next := by simpa using result
    have changes : Changes bus bus.Verifies _ typed := (handleTypedVote_steps typedResult).changes
    refine .inr ⟨clear, .ofSigned vote, (changes.votesGrow _ _).kept _ _ ?_, rfl⟩
    simp [modifySlot, SlotState.votes_addWeightTo, SlotState.votes_setVotes, Proven.ofSigned]

variable {source : Fin n} {vote : Vote} {signature : BufferSlice} {time : Nat}

lemma handleVoteMessage_outcome (notFinalized : pool.firstNonfinalizedSlot ≤ vote.referencedSlot)
    (notTooNew : vote.referencedSlot < pool.firstTooNewSlot bus)
    (signed : bus.checkSignature source (.vote vote) signature = true) (undisputed : ∀ proven,
      ((pool.state.slots vote.referencedSlot).votes source).stored vote.kind = some proven → proven.vote = vote)
    (coherent : ((pool.state.slots vote.referencedSlot).votes source).Coherent vote.referencedSlot)
    (result : pool.handleVoteMessage bus source vote signature time = .ok next) : Settles pool next source vote := by
  simp only [handleVoteMessage] at result
  rw [if_neg (Nat.not_le.mpr notTooNew), if_neg (Nat.not_lt.mpr notFinalized)] at result
  obtain ⟨state, found, result⟩ := bind_eq_ok.mp result
  have tracked : pool.state.firstNonFinalizedSlot ≤ vote.referencedSlot := by
    by_contra behind
    have untracked := slotAt_eq_none.mpr (Nat.not_le.mp behind)
    simp [slotRef, untracked] at found
  rw [slotRef_eq_ok found] at result
  split at result
  next unwanted =>
    cases result
    obtain ⟨proven, stored⟩ : ∃ proven,
        ((pool.state.slots vote.referencedSlot).votes source).stored vote.kind = some proven := by
      rw [← Option.isSome_iff_exists]
      simpa [Tsentrizbirkom.wants] using unwanted
    refine .inr ⟨?_, proven, stored, undisputed proven stored⟩
    rintro ⟨kind, previous, otherFound, conflict⟩
    have clear := coherent.consistent kind vote.kind previous proven otherFound stored
    rw [undisputed proven stored] at clear
    simp [clear] at conflict
  next =>
    rw [if_neg (by simp [signed])] at result
    obtain ⟨⟨applied, handled⟩, handledResult, result⟩ := bind_eq_ok.mp result
    cases result
    exact handleVote_outcome coherent tracked handledResult

lemma Examined.outcome (examined : pool.Examined bus source vote signature time)
    (coherent : ((pool.state.slots vote.referencedSlot).votes source).Coherent vote.referencedSlot)
    (result : Pool.step bus pool (.incomingProtocolMessage source (.vote vote signature) time) = .ok next) :
    Settles pool next source vote := by
  obtain ⟨bans, checked⟩ := isBanned_eq { pool with published := [] } source time
  have notBanned : (isBanned { pool with published := [] } source time).1 = false :=
    (isBanned_congr pool { pool with published := [] } source time rfl).trans examined.notBanned
  simp only [step, handleEvent, handleIncomingProtocolMessage] at result
  rw [notBanned, checked, if_neg (by simp)] at result
  exact @handleVoteMessage_outcome n bus { pool with published := [], badSignatureBans := bans }
    next source vote signature time examined.notFinalized examined.notTooNew examined.signed
    examined.undisputed coherent result

/-- Two contradicting votes of a validator are reported if neither of them was
dropped because of a different earlier vote of its type. -/
theorem examined_conflicting_votes_reported {start stored middle last : Pool n}
    {between : List (Published n)} {validator : Fin n} {first second : Vote}
    {firstSignature secondSignature : BufferSlice} {firstTime secondTime : Nat} (run : Run bus log start)
    (firstExamined : start.Examined bus validator first firstSignature firstTime) (firstDelivered : step bus start
      (.incomingProtocolMessage validator (.vote first firstSignature) firstTime) = .ok stored)
    (trace : Trace bus stored between middle) (secondExamined : middle.Examined bus validator second secondSignature secondTime)
    (secondDelivered : step bus middle (.incomingProtocolMessage validator (.vote second secondSignature) secondTime) = .ok last)
    (sameSlot : first.referencedSlot = second.referencedSlot) (conflict : first.conflicts second = true) :
    ∃ misbehavior, .misbehaviorReport validator misbehavior ∈ stored.published ++ between ++ last.published := by
  have enabled : start.Enabled bus (.incomingProtocolMessage validator (.vote first firstSignature) firstTime) := trivial
  have runStored : Run bus (log ++ stored.published) stored := .step run enabled firstDelivered
  have runMiddle := runStored.trace trace
  rcases firstExamined.outcome (run.coherent _ _) firstDelivered with
    ⟨misbehavior, reported⟩ | ⟨_, proven, found, same⟩
  · exact ⟨misbehavior, by simp [reported]⟩
  rcases secondExamined.outcome (runMiddle.coherent _ _) secondDelivered with
    ⟨misbehavior, reported⟩ | ⟨clear, _⟩
  · exact ⟨misbehavior, by simp [reported]⟩
  · have kept := (trace.votesGrow _ _).kept _ _ found
    rw [sameSlot] at kept
    exact absurd ⟨_, proven, kept, by rw [same, conflict]⟩ clear

/-- Four validators of equal weight. The signature of a validator is its number. -/
def quadBus : Bus 4 where
  weight _ := 1
  slotsPerLeaderWindow := 4
  checkSignature validator _ signature := signature == [validator.val.toUInt8]
  candidateHash := Encodable.encode
  recordHash := Encodable.encode
  localId := 0

def quadStart : Pool 4 :=
  (startUp quadBus ⟨1, 1⟩ ⟨0, [], []⟩).toOption.getD (fresh ⟨1, 1⟩ 0)

def quadVote (validator : Fin 4) (vote : Vote) : Event 4 :=
  .incomingProtocolMessage validator (.vote vote [validator.val.toUInt8]) 0

def quadReplay (events : List (Event 4)) : List (Published 4) × Pool 4 :=
  (replay quadBus quadStart events).getD ([], quadStart)

lemma quad_run (events : List (Event 4)) (replayed : (replay quadBus quadStart events).isSome = true) :
    Run quadBus (quadReplay events).1 (quadReplay events).2 := by
  have started : startUp quadBus ⟨1, 1⟩ ⟨0, [], []⟩ = .ok quadStart := rfl
  have run : Run quadBus [] quadStart := .startUp (by simp) started
  obtain ⟨result, found⟩ := Option.isSome_iff_exists.mp replayed
  rw [quadReplay, found]
  exact run.trace (trace_of_replay found)

def quadNotarized : List (Event 4) :=
  [.start, quadVote 1 (.notarize ⟨0, 1⟩), quadVote 2 (.notarize ⟨0, 1⟩), quadVote 3 (.notarize ⟨0, 1⟩)]

def quadNotarCert : Certificate 4 where
  vote := .notarize ⟨0, 1⟩
  signatures := [⟨1, [1]⟩, ⟨2, [2]⟩, ⟨3, [3]⟩]

theorem quad_tallies_and_certificates_exact : ((quadReplay quadNotarized).2.state.slots 0).signedWeight quadBus.toSession
      (.notarize ⟨0, 1⟩) = 3 ∧ Published.saveCertificate quadNotarCert ∈ (quadReplay quadNotarized).1 ∧
    Acceptable quadBus.toSession quadNotarCert := by
  have capped : quadBus.totalWeight ≤ 2 ^ 61 := by decide +kernel
  obtain ⟨tallies, _, _, saved⟩ := tallies_and_certificates_exact capped (quad_run quadNotarized (by decide +kernel))
  have counted : ((quadReplay quadNotarized).2.state.slots 0).notarizeWeight ⟨0, 1⟩ = 3 := by
    decide +kernel
  have published : Published.saveCertificate quadNotarCert ∈ (quadReplay quadNotarized).1 := by
    decide +kernel
  refine ⟨?_, published, saved _ published⟩
  rw [← (tallies 0 (by decide +kernel)).2.1 ⟨0, 1⟩, counted]

lemma examined_of_absent (notBanned : (pool.isBanned source time).1 = false)
    (inRange : pool.firstNonfinalizedSlot ≤ vote.referencedSlot ∧ vote.referencedSlot < pool.firstTooNewSlot bus)
    (signed : bus.checkSignature source (.vote vote) signature = true)
    (absent : ((pool.state.slots vote.referencedSlot).votes source).stored vote.kind = none) :
    pool.Examined bus source vote signature time where
  notBanned := notBanned
  notFinalized := inRange.1
  notTooNew := inRange.2
  signed := signed
  undisputed proven found := by
    rw [absent] at found
    cases found

def quadFirst : Pool 4 := (quadReplay [.start, quadVote 1 (.notarize ⟨0, 1⟩)]).2

lemma quad_first_examined : (quadReplay [.start]).2.Examined quadBus 1 (.notarize ⟨0, 1⟩) [1] 0 :=
  examined_of_absent (by decide +kernel) (by decide +kernel) (by decide +kernel) (by decide +kernel)

lemma quad_first_delivered :
    step quadBus (quadReplay [.start]).2 (quadVote 1 (.notarize ⟨0, 1⟩)) = .ok quadFirst := rfl

theorem quad_examined_conflicting_votes_reported :
    ∃ last misbehavior, step quadBus quadFirst (quadVote 1 (.finalize ⟨0, 2⟩)) = .ok last ∧
      Published.misbehaviorReport 1 misbehavior ∈ quadFirst.published ++ [] ++ last.published := by
  have examined : quadFirst.Examined quadBus 1 (.finalize ⟨0, 2⟩) [1] 0 :=
    examined_of_absent (by decide +kernel) (by decide +kernel) (by decide +kernel) (by decide +kernel)
  obtain ⟨last, delivered⟩ : ∃ last, step quadBus quadFirst (quadVote 1 (.finalize ⟨0, 2⟩)) = .ok last := ⟨_, rfl⟩
  obtain ⟨misbehavior, reported⟩ := examined_conflicting_votes_reported (quad_run [.start] (by decide +kernel))
      quad_first_examined quad_first_delivered .nil examined delivered rfl (by decide)
  exact ⟨last, misbehavior, delivered, reported⟩

/-- A second notarize vote for another candidate is dropped by the pre-filter, and nothing is
reported. -/
theorem quad_second_notarize_vote_unreported : ∃ last, Run quadBus (quadReplay [.start]).1 (quadReplay [.start]).2 ∧
      (quadReplay [.start]).2.Examined quadBus 1 (.notarize ⟨0, 1⟩) [1] 0 ∧
      step quadBus (quadReplay [.start]).2 (quadVote 1 (.notarize ⟨0, 1⟩)) = .ok quadFirst ∧ (quadFirst.isBanned 1 0).1 = false ∧
      quadFirst.firstNonfinalizedSlot ≤ 0 ∧ 0 < quadFirst.firstTooNewSlot quadBus ∧
      quadBus.checkSignature 1 (.vote (.notarize ⟨0, 2⟩)) [1] = true ∧
      step quadBus quadFirst (quadVote 1 (.notarize ⟨0, 2⟩)) = .ok last ∧
      (Vote.notarize ⟨0, 1⟩).conflicts (.notarize ⟨0, 2⟩) = true ∧ quadFirst.published ++ last.published = [] := by
  refine ⟨_, quad_run [.start] (by decide +kernel), quad_first_examined, quad_first_delivered,
    by decide +kernel, by decide +kernel, by decide +kernel, by decide +kernel, rfl, by decide, by decide +kernel⟩

end Pool

end TonNode.Simplex
