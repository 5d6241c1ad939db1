import TonNode.Simplex.NodeVotes
import TonNode.Simplex.PoolGuarantees

/-!
# The network

All validators of a session. Correct validators run the code; of the faulty
ones only the messages they send matter, and those are arbitrary except that
nobody signs for a correct validator. Messages may be lost, repeated, delayed
and reordered, since receiving one does not depend on its having been sent.
-/

namespace TonNode.Simplex

open Consensus Lib List Node

variable {n : Nat}

/-! ### Votes of correct validators -/

structure History (n : Nat) where
  signed : Fin n → Vote → Prop
  proposed : Fin n → CandidateId → Prop

/-- A certificate for the vote may exist: the correct members of a quorum signed it. -/
def History.Certified (session : Session n) (faulty : Finset (Fin n)) (history : History n) (vote : Vote) : Prop :=
  ∃ voters, IsQuorum session.weight voters ∧ ∀ voter ∈ voters, voter ∉ faulty → history.signed voter vote

def Session.Identifies (session : Session n) (data : CandidateHashData) (id : CandidateId) : Prop :=
  data.buildIdWith session.candidateHash id.slot = id

/-- The checks a received candidate has passed, and the meaning of its signature. -/
structure Accepted (session : Session n) (faulty : Finset (Fin n)) (history : History n)
    (candidate : Candidate n) : Prop where
  identifies : session.Identifies candidate.hashData candidate.id
  leader : session.isExpectedCollator candidate.leader candidate.id.slot = true
  signed : candidate.leader ∉ faulty → history.proposed candidate.leader candidate.id

variable {session : Session n} {records : Set (DbRecord n)}

/-- Votes of a correct voter in two quorums exclude conflicting certificates. -/
lemma conflictFree_of_consistent {faulty : Finset (Fin n)} {history : History n}
    (bounded : FaultyBelowThird session.weight faulty)
    (consistent : ∀ voter ∉ faulty, ∀ first second, history.signed voter first →
      history.signed voter second → first.referencedSlot = second.referencedSlot → first.conflicts second = false) :
    ConflictFree (history.Certified session faulty) := by
  have agree : ∀ first second, history.Certified session faulty first →
      history.Certified session faulty second → first.referencedSlot = second.referencedSlot →
      first.conflicts second = false := by
    rintro first second ⟨left, leftQuorum, leftSigned⟩ ⟨right, rightQuorum, rightSigned⟩ sameSlot
    obtain ⟨voter, inLeft, inRight, correct⟩ := leftQuorum.exists_common_correct rightQuorum bounded
    exact consistent voter correct first second (leftSigned voter inLeft correct) (rightSigned voter inRight correct) sameSlot
  constructor
  · intro left right leftId rightId leftCertified rightCertified leftNames rightNames sameSlot
    have noConflict := agree left right leftCertified rightCertified
    cases left <;> cases leftNames <;> cases right <;> cases rightNames <;> simpa [Vote.conflicts] using noConflict sameSlot
  · intro id finalized skipped
    cases agree _ _ finalized skipped rfl

/-! ### All validators -/

def Session.busOf (session : Session n) (validator : Fin n) : Bus n :=
  { session with localId := validator }

structure Network (n : Nat) where
  nodes : Fin n → Node n

/-- Events of the consensus actor that actors of the same node publish. -/
def ConsensusImpl.Event.isPosted : ConsensusImpl.Event n → Bool
  | .notarizationObserved _ | .finalizationObserved _ | .leaderWindowObserved _ _
  | .candidateReceived _ | .parentResolved _ _ => true
  | _ => false

def Node.Event.mail? : Node.Event n → Option (Mail n)
  | .pool event => poolMail? event
  | .consensus event => if event.isPosted then some (.consensus event) else none
  | .producer event => producerMail? event
  | _ => none

namespace Network

def history (net : Network n) : History n where
  signed validator vote := vote ∈ (net.nodes validator).record.cast
  proposed validator id := id ∈ (net.nodes validator).record.proposed

/-- The key of a correct validator signs nothing but what that validator cast. -/
def Signed (faulty : Finset (Fin n)) (net : Network n) (validator : Fin n) (vote : Vote) : Prop :=
  validator ∉ faulty → net.history.signed validator vote

/-- Published events arrive once; candidates also come from other validators. -/
def Arrives (session : Session n) (faulty : Finset (Fin n)) (net : Network n) (node : Node n) (event : Node.Event n) : Prop :=
  (∀ mail ∈ event.mail?, mail ∈ node.mail) ∨ ∃ candidate, event = .consensus (.candidateReceived candidate) ∧
      Accepted session faulty net.history candidate

structure Enabled (session : Session n) (faulty : Finset (Fin n)) (net : Network n)
    (validator : Fin n) (event : Node.Event n) : Prop where
  correct : validator ∉ faulty
  enabled : (net.nodes validator).Enabled (session.busOf validator) event
  unforged : event.Unforged session (net.Signed faulty)
  arrives : net.Arrives session faulty (net.nodes validator) event

def update (net : Network n) (validator : Fin n) (node : Node n) : Network n where
  nodes := Function.update net.nodes validator node

/-- Runs from empty disks on, with the states passed on the way. All the records that correct
validators are to save are in `records`. -/
inductive Run (session : Session n) (faulty : Finset (Fin n)) (records : Set (DbRecord n)) :
    List (Network n) → Network n → Prop where
  | start {net : Network n} :
      (∀ validator ∉ faulty, ∃ params, launch (session.busOf validator) params {} [] {} = .ok (net.nodes validator)) →
      Run session faulty records [] net
  | step {past : List (Network n)} {net : Network n} {validator : Fin n} {event : Node.Event n}
      {node : Node n} :
      Run session faulty records past net → net.Enabled session faulty validator event →
      (net.nodes validator).handleEvent (session.busOf validator) event = .ok node →
      Storage.Hands records ((net.nodes validator).delivered event) node.storage.pool →
      Run session faulty records (net :: past) (net.update validator node)

variable {faulty : Finset (Fin n)} {past : List (Network n)}
  {net next : Network n} {validator : Fin n} {event : Node.Event n} {node : Node n}

/-! ### Histories grow -/

lemma update_self (net : Network n) (validator : Fin n) (node : Node n) : (net.update validator node).nodes validator = node :=
  Function.update_self _ _ _

lemma update_of_ne (net : Network n) {validator other : Fin n} (node : Node n)
    (different : other ≠ validator) : (net.update validator node).nodes other = net.nodes other :=
  Function.update_of_ne different _ _

lemma update_forall {P : Fin n → Node n → Prop} (moved : P validator node)
    (others : ∀ other ∉ faulty, P other (net.nodes other)) :
    ∀ other ∉ faulty, P other ((net.update validator node).nodes other) := by
  intro other correct
  by_cases same : other = validator
  · subst same
    rwa [update_self]
  · rw [update_of_ne net node same]
    exact others other correct

structure Grows (net next : Network n) : Prop where
  signed : ∀ voter vote, net.history.signed voter vote → next.history.signed voter vote
  proposed : ∀ leader id, net.history.proposed leader id → next.history.proposed leader id

lemma update_grows (grows : Node.Grows (net.nodes validator) node) : Grows net (net.update validator node) := by
  have grown : ∀ other, Node.Grows (net.nodes other) ((net.update validator node).nodes other) := by
    intro other
    by_cases same : other = validator
    · subst same
      rwa [update_self]
    · rw [update_of_ne net node same]
      exact ⟨fun _ member => member, fun _ member => member, fun _ member => member⟩
  exact ⟨fun voter vote signed => (grown voter).cast signed, fun leader id proposed => (grown leader).proposed proposed⟩

lemma Grows.genuine (grows : Grows net next) (voter : Fin n) (vote : Vote) (signature : BufferSlice)
    (genuine : session.Genuine (net.Signed faulty) voter vote signature) :
    session.Genuine (next.Signed faulty) voter vote signature :=
  ⟨genuine.1, fun correct => grows.signed voter vote (genuine.2 correct)⟩

variable {vote : Vote} {cert : Certificate n}

lemma Grows.certified (grows : Grows net next) (certified : net.history.Certified session faulty vote) :
    next.history.Certified session faulty vote := by
  obtain ⟨voters, quorum, signed⟩ := certified
  exact ⟨voters, quorum, fun voter member correct =>
    grows.signed voter vote (signed voter member correct)⟩

/-! ### Every correct node is a node on its own -/

lemma Enabled.nodeUnforged (enabled : net.Enabled session faulty validator event) :
    event.Unforged session ((net.nodes validator).Signed (session.busOf validator)) := by
  have narrow : ∀ voter vote, net.Signed faulty voter vote →
      (net.nodes validator).Signed (session.busOf validator) voter vote := by
    intro voter vote signed same
    have isLocal : voter = validator := same
    subst isLocal
    exact signed enabled.correct
  have unforged := enabled.unforged
  cases event with
  | pool event =>
    cases event with
    | incomingProtocolMessage source message time =>
      cases message with
      | vote vote signature => exact fun verifies => narrow _ _ (unforged verifies)
      | other => trivial
      | certificate received =>
        have vouched : received.Vouched session (session.Genuine (net.Signed faulty)) :=
          unforged
        exact vouched.imp fun voter vote signature genuine =>
          ⟨genuine.1, narrow voter vote genuine.2⟩
    | _ => trivial
  | _ => trivial

lemma Run.nodeRun (run : Run session faulty records past net) :
    ∀ validator ∉ faulty, Node.Run (session.busOf validator) records (net.nodes validator) := by
  induction run with
  | start launched =>
    intro validator correct
    obtain ⟨params, launched⟩ := launched validator correct
    exact .start launched
  | @step past net validator event node run enabled result handed ih =>
    have own := ih validator enabled.correct
    exact update_forall (P := fun other node => Node.Run (session.busOf other) records node)
      (.step own enabled.enabled enabled.nodeUnforged result handed) ih

section

variable (collisionFree : Set.InjOn session.recordHash records) (run : Run session faulty records past net)
variable (correct : validator ∉ faulty)
include collisionFree run correct

lemma Run.voting : (net.nodes validator).Voting :=
  (run.nodeRun validator correct).voting collisionFree

lemma Run.savedOnce : (net.nodes validator).storage.SavedOnce session records [] :=
  (run.nodeRun validator correct).storage.savedOnce collisionFree

end

/-! ### Certificates -/

lemma Run.backed (capped : session.totalWeight ≤ 2 ^ 61) (collisionFree : Set.InjOn session.recordHash records)
    (run : Run session faulty records past net) : ∀ validator ∉ faulty,
      (net.nodes validator).storage.Backed (session.busOf validator) (session.Genuine (net.Signed faulty)) := by
  induction run with
  | start launched =>
    intro validator correct
    obtain ⟨params, launched⟩ := launched validator correct
    exact start_backed capped launched
  | @step past net validator event node run enabled result handed ih =>
    have grows := update_grows (handleEvent_grows result)
    have keyring := (run.voting collisionFree enabled.correct).keyring
    have moved : node.storage.Backed (session.busOf validator)
        (session.Genuine (net.Signed faulty)) := by
      refine handleEvent_backed capped (run.savedOnce collisionFree enabled.correct)
        enabled.enabled ?_ (ih validator enabled.correct) result
      rintro poolEvent rfl
      exact Pool.Event.Unforged.vouched enabled.unforged enabled.enabled.2 fun frame member _ => keyring frame member
    have all := update_forall (P := fun other node => node.storage.Backed
      (session.busOf other) (session.Genuine (net.Signed faulty))) moved ih
    exact fun other correct => (all other correct).imp grows.genuine

lemma certified_of_supported (capped : session.totalWeight ≤ 2 ^ 61)
    (supported : cert.Supported session (session.Genuine (net.Signed faulty))) :
    net.history.Certified session faulty cert.vote := by
  refine ⟨cert.signers.toFinset, supported.quorum capped, fun voter member correct => ?_⟩
  obtain ⟨signature, listed, rfl⟩ := mem_map.mp (mem_toFinset.mp member)
  exact (supported.signed signature listed).2 correct

/-- The fault model: a weighted minority is faulty, and hashes of stored records
have no collisions. -/
structure Assumptions (session : Session n) (faulty : Finset (Fin n)) (records : Set (DbRecord n)) : Prop where
  capped : session.totalWeight ≤ 2 ^ 61
  bounded : FaultyBelowThird session.weight faulty
  recordsDistinct : Set.InjOn session.recordHash records

variable (assumed : Assumptions session faulty records)

include assumed

section

variable (run : Run session faulty records past net)
include run

lemma Run.clean : ConflictFree (net.history.Certified session faulty) :=
  conflictFree_of_consistent assumed.bounded fun _ correct _ _ firstCast secondCast sameSlot =>
    (run.voting assumed.recordsDistinct correct).not_conflicts firstCast secondCast sameSlot

lemma Run.holds_certified (correct : validator ∉ faulty) (held : (net.nodes validator).storage.pool.Holds vote) :
    net.history.Certified session faulty vote := by
  obtain ⟨cert, stored, rfl⟩ := held
  have backed := run.backed assumed.capped assumed.recordsDistinct validator correct
  exact certified_of_supported assumed.capped (backed.tallied.stored _ _ _ stored).2.2

lemma Run.held_certified {passed : Network n} (member : passed ∈ net :: past)
    (correct : validator ∉ faulty) (held : (passed.nodes validator).storage.pool.Holds vote) :
    net.history.Certified session faulty vote := by
  induction run with
  | start launched =>
    cases mem_singleton.mp member
    exact (Run.start launched).holds_certified assumed correct held
  | @step past net moved event node run enabled result handed ih =>
    rcases mem_cons.mp member with rfl | earlier
    · exact (Run.step run enabled result handed).holds_certified assumed correct held
    · exact (update_grows (handleEvent_grows result)).certified (ih earlier)

lemma Run.bootstrap_certified (correct : validator ∉ faulty) {entries : List (Bits256 × DbValue)}
    {db : Db} {bootstrap : Pool.Bootstrap n} (read : entries.Perm (net.nodes validator).storage.disk.votes)
    (initialized : Db.init session (net.nodes validator).storage.disk.poolState entries = .ok (db, bootstrap))
    (member : cert ∈ bootstrap.certificates) : net.history.Certified session faulty cert.vote := by
  have backed := run.backed assumed.capped assumed.recordsDistinct validator correct
  obtain ⟨certificates, loaded, result⟩ := bind_eq_ok.mp initialized
  cases result
  obtain ⟨key, received, listed, accepted⟩ := readCertificates_mem loaded member
  have stored := backed.certs key received (mem_append_left _ (read.mem_iff.mp listed))
  exact certified_of_supported assumed.capped (Certificate.fromTl_supported assumed.capped stored accepted)

lemma Run.regular (correct : validator ∉ faulty)
    (below : ∀ vote, (net.nodes validator).storage.pool.Holds vote → vote.referencedSlot + 1 < 2 ^ 32) :
    Regular (net.nodes validator).storage.pool.Holds :=
  ⟨(run.clean assumed).subset fun _ held => run.holds_certified assumed correct held, below⟩

/-- A pool that holds no certificate of the last slot is in step with its chain view. -/
lemma Run.follows : ∀ validator ∉ faulty,
    (∀ vote, (net.nodes validator).storage.pool.Holds vote → vote.referencedSlot + 1 < 2 ^ 32) →
    (net.nodes validator).storage.pool.Follows (net.nodes validator).storage.pool.view := by
  induction run with
  | @start net launched =>
    intro validator correct below
    have regular := (Run.start launched).regular assumed correct below
    obtain ⟨params, launched⟩ := launched validator correct
    obtain ⟨_, _, _, started⟩ := launch_pool launched
    exact Pool.startUp_follows started regular
  | @step past net validator event node run enabled result handed ih =>
    refine update_forall (P := fun _ node =>
      (∀ vote, node.storage.pool.Holds vote → vote.referencedSlot + 1 < 2 ^ 32) →
      node.storage.pool.Follows node.storage.pool.view) (fun below => ?_) ih
    have regular : Regular node.storage.pool.Holds := by
      have reached := (Run.step run enabled result handed).regular assumed enabled.correct
      rw [update_self] at reached
      exact reached below
    rcases handleEvent_pool result with same | ⟨poolEvent, _, stepped⟩ | ⟨_, _, _, _, _, _, started⟩
    · rw [same] at below ⊢
      exact ih validator enabled.correct below
    · have before := ih validator enabled.correct fun vote held => below vote (Pool.handleEvent_holds stepped held)
      exact Pool.handleEvent_follows before.cleared stepped regular
    · exact Pool.startUp_follows started regular

lemma Run.keeps (correct : validator ∉ faulty) :
    (net.nodes validator).storage.pool.Keeps (net.nodes validator).storage.pool.Holds := by
  have backed := run.backed assumed.capped assumed.recordsDistinct validator correct
  refine ⟨fun slot kind cert found => ?_, fun vote => Iff.rfl⟩
  obtain ⟨ofKind, ofSlot, _⟩ := backed.tallied.stored slot kind cert found
  exact ⟨ofKind, ofSlot⟩

lemma Run.reaches_finalized (correct : validator ∉ faulty)
    (follows : (net.nodes validator).storage.pool.Follows (net.nodes validator).storage.pool.view) {final : CandidateId}
    (finalized : net.history.Certified session faulty (.finalize final)) {parent : ParentId} {slot : Nat}
    (earlier : final.slot < slot) (source : (net.nodes validator).storage.pool.view.Source parent)
    (skipped : ∀ other, nextSlotAfterParent parent ≤ other → other < slot →
      (net.nodes validator).storage.pool.Holds (.skip other)) :
    ∃ id, parent = some id ∧ final.slot ≤ id.slot ∧ (id.slot = final.slot → id = final) := by
  have clean := run.clean assumed
  have known : ∀ vote, (net.nodes validator).storage.pool.Holds vote → net.history.Certified session faulty vote :=
    fun vote => run.holds_certified assumed correct
  -- The slots behind the parent are skipped, and a finalized slot is not.
  have reaches : final.slot < nextSlotAfterParent parent := by
    by_contra beyond
    exact clean.finalNotSkipped final finalized (known _ (skipped final.slot (by omega) earlier))
  cases parent with
  | none => cases reaches
  | some id =>
    rw [nextSlotAfterParent_some] at reaches
    refine ⟨id, rfl, by omega, fun sameSlot => ?_⟩
    rcases source with last | ⟨_, ⟨⟩, notarized, _⟩
    · have certified := follows.matched.lastCertified id last.symm
      exact clean.oneCandidate _ _ id final (known _ certified) finalized rfl rfl sameSlot
    · exact clean.oneCandidate _ _ id final (known _ notarized) finalized rfl rfl sameSlot

lemma Run.chain_checks (enabled : net.Enabled session faulty validator event) :
    FailsWith Pool.SparesFinals ((net.nodes validator).handleEvent (session.busOf validator) event) := by
  have clean := run.clean assumed
  have keeps := run.keeps assumed enabled.correct
  have backed := run.backed assumed.capped assumed.recordsDistinct validator enabled.correct
  have held : ∀ vote, (net.nodes validator).storage.pool.Holds vote → net.history.Certified session faulty vote :=
    fun vote => run.holds_certified assumed enabled.correct
  apply handleEvent_fails
  · intro poolEvent found
    have quiet : Pool.Keeps _ { (net.nodes validator).storage.pool with published := [] } := ⟨keeps.typed, keeps.held⟩
    refine Pool.handleEvent_accepts (session.busOf validator) quiet ?_
    rintro cert rfl
    have saving : cert ∈ (net.nodes validator).storage.pool.saving := by
      cases event with
      | pool event =>
        cases found
        cases enabled.enabled.1
      | complete write =>
        cases write <;> cases found
        exact (run.savedOnce assumed.recordsDistinct enabled.correct).waiting enabled.enabled
      | _ => cases found
    refine clean.subset fun vote certified => ?_
    rcases certified with rfl | earlier
    · exact certified_of_supported assumed.capped (backed.tallied.saving cert saving)
    · exact held vote earlier
  · rintro params entries db bootstrap rfl initialized
    refine FailsWith.bind ?_ fun _ => .ok _
    have empty := (Pool.fresh_follows (n := n) params bootstrap.firstNonannouncedWindow).stores
    refine Pool.loadCertificates_accepts _ ⟨empty.typed, fun vote => Iff.rfl⟩ ?_ ?_ clean
    · exact fun vote nothing => ((empty.held vote).mp nothing).elim
    · exact fun cert member => run.bootstrap_certified assumed enabled.correct enabled.enabled initialized member
  · rintro failure (rfl | rfl | rfl | rfl | rfl) <;> exact ⟨nofun, nofun⟩

end

end Network

/-! ### Guarantees

A validator that follows the protocol does not equivocate, whatever its consensus
actor was told and however often it was restarted. From that follows what holds
between the correct validators in every run. -/

variable {bus : Bus n}

namespace Node

variable {node next : Node n}

lemma Voting.not_equivocated (voting : node.Voting) : ¬ Equivocated (bus.Genuine (node.Signed bus)) bus.localId := by
  rintro ⟨first, second, sameSlot, conflict, ⟨_, _, firstCast⟩, _, _, secondCast⟩
  rw [voting.not_conflicts (firstCast rfl) (secondCast rfl) sameSlot] at conflict
  cases conflict

/-- One notarize vote per slot is signed, a finalize vote only behind the durable notarize vote
for the same candidate, and never both a finalize and a skip vote. -/
theorem signed_votes_consistent (collisionFree : Set.InjOn bus.recordHash records) (run : Run bus records node) :
    (∀ first second,
      .notarize first ∈ node.record.cast →
      .notarize second ∈ node.record.cast →
      first.slot = second.slot → first = second) ∧
    (∀ id, .finalize id ∈ node.record.cast →
      .notarize id ∈ node.sent ∧
      ∀ other, .notarize other ∈ node.record.cast → other.slot = id.slot → other = id) ∧
    (∀ id, .finalize id ∈ node.record.cast → .skip id.slot ∉ node.record.cast) ∧
    (bus.totalWeight ≤ 2 ^ 61 →
      ∀ event, node.Enabled bus event →
      event.Unforged bus.toSession (node.Signed bus) →
      node.handleEvent bus event ≠ .error .ownVotesConsistent) := by
  have voting := run.voting collisionFree
  have consistent := voting.consistent
  refine ⟨?_, ?_, ?_, ?_⟩
  · intro first second firstCast secondCast
    exact consistent.oneNotarize first second (voting.cast _ firstCast) (voting.cast _ secondCast)
  · intro id finalized
    have notarized := consistent.finalNotarized id (voting.cast _ finalized)
    refine ⟨notarized, ?_⟩
    intro other otherCast
    exact consistent.oneNotarize other id (voting.cast _ otherCast) notarized
  · intro id finalized skipped
    exact consistent.finalNotSkipped id (voting.cast _ finalized) (voting.cast _ skipped)
  · intro capped event enabled unforged failed
    have backed := run.backed collisionFree capped
    have cleared : ({ node.storage.pool with published := [] } : Pool n).Tallied bus (bus.Genuine (node.Signed bus)) :=
      ⟨backed.tallied.votes, backed.tallied.stored, backed.tallied.saving, by simp⟩
    have fails : FailsWith (fun failure => failure ≠ .ownVotesConsistent)
        (node.handleEvent bus event) := by
      refine handleEvent_fails ?_ ?_ ?_
      · intro poolEvent leads
        have vouched : Pool.Vouched bus (bus.Genuine (node.Signed bus)) poolEvent := by
          cases event with
          | pool external =>
            cases leads
            exact Pool.Event.Unforged.vouched unforged enabled.2 fun frame member _ =>
              voting.keyring frame member
          | complete write => cases write <;> cases leads <;> trivial
          | refuse cert =>
            cases leads
            trivial
          | _ => cases leads
        refine (Pool.handleEvent_fails capped vouched cleared).imp ?_
        rintro failure excused rfl
        exact voting.not_equivocated (excused.2 rfl)
      · intro params entries db bootstrap _ _
        refine (Pool.startUp_fails bus params bootstrap).imp ?_
        rintro failure (bookkeeping | rfl | rfl | rfl) same
        · subst same
          cases bookkeeping
        all_goals cases same
      · rintro failure (rfl | rfl | rfl | rfl | rfl) same <;> cases same
    exact fails _ failed rfl

def Event.isLocal : Event n → Bool
  | .pool (.incomingProtocolMessage _ _ _) => false
  | _ => true

lemma Event.unforged_of_isLocal {event : Event n} (isLocal : event.isLocal = true)
    (session : Session n) (signed : Fin n → Vote → Prop) : event.Unforged session signed := by
  cases event with
  | pool event =>
    cases event with
    | incomingProtocolMessage source message time => cases isLocal
    | _ => trivial
  | _ => trivial

/-- Handles a list of local events, stopping at one that is not enabled. -/
def replay (bus : Bus n) : Node n → List (Event n) → Option (Node n)
  | node, [] => some node
  | node, event :: rest =>
    if node.Enabled bus event ∧ event.isLocal = true then
      match node.handleEvent bus event with
      | .error _ => none
      | .ok next => replay bus next rest
    else
      none

lemma run_of_replay {events : List (Event n)} (run : Run bus .univ node)
    (result : replay bus node events = some next) : Run bus .univ next := by
  induction events generalizing node with
  | nil =>
    cases result
    exact run
  | cons event rest ih =>
    simp only [replay] at result
    split at result
    next allowed =>
      split at result
      · cases result
      next handled =>
        have unforged := Event.unforged_of_isLocal allowed.2 bus.toSession (node.Signed bus)
        exact ih (.step run allowed.1 unforged handled (.univ _ _)) result
    next => cases result

/-- Two validators, the first of which is a quorum. -/
def duoSession : Session 2 where
  weight validator := if validator = 0 then 3 else 1
  slotsPerLeaderWindow := 4
  checkSignature validator _ signature := signature == [validator.val.toUInt8]
  candidateHash := Encodable.encode
  recordHash := Encodable.encode

def duoBus : Bus 2 := { duoSession with localId := 0 }

def duoStart : Node 2 :=
  (launch duoBus ⟨1, 1⟩ {} [] {}).toOption.getD {
    storage := { disk := {}, db := {}, pool := .empty ⟨1, 1⟩ }
    consensus := { maxLeaderWindowDesync := 1 } }

def duoNode (events : List (Event 2)) : Node 2 := (replay duoBus duoStart events).getD duoStart

lemma duo_run (events : List (Event 2))
    (replayed : (replay duoBus duoStart events).isSome = true) : Run duoBus .univ (duoNode events) := by
  have started : launch duoBus ⟨1, 1⟩ {} [] {} = .ok duoStart := rfl
  obtain ⟨node, found⟩ := Option.isSome_iff_exists.mp replayed
  rw [duoNode, found]
  exact run_of_replay (.start started) found

def duoBlock : CandidateBlock := .full ⟨0, 0, 1, 0, 0⟩ 0

def duoCandidate (slot : Nat) (parent : ParentId) : Candidate 2 where
  id := (CandidateHashData.mk duoBlock parent).buildIdWith duoSession.candidateHash slot
  parentId := parent
  leader := 0
  block := duoBlock
  signature := [0]

def duoWindow : List (Event 2) :=
  [.pool .start, .commit, .complete (.poolState 0 none 1),
    .consensus (.leaderWindowObserved 0 none), .consensus (.generationReady 0 none), .producer (.ourLeaderWindowStarted none 0 4)]

def duoPropose (slot : Nat) (parent : ParentId) : List (Event 2) :=
  let generation : Generation := { window := 0, slot, endSlot := 4, parent }
  let candidate := duoCandidate slot parent
  [.producer (.blockChosen generation duoBlock),
    .producer (.keyringSigned { generation with signing := some (candidate.id, duoBlock) } [0]),
    .consensus (.candidateReceived candidate), .pool (.waitForParent candidate),
    .consensus (.parentResolved candidate .noMisbehavior), .consensus (.candidateAccepted candidate)]

def duoCast (vote : Vote) (seqno : Nat) : List (Event 2) :=
  [.deliverVote, .commit, .complete (.ourVote (duoSession.recordHash (.vote vote)) vote seqno),
    .pool (.keyringSigned ⟨vote, false, false⟩ [0])]

def duoStore (vote : Vote) : List (Event 2) :=
  let cert : Certificate 2 := { vote, signatures := [⟨0, [0]⟩] }
  [.commit, .complete (.cert (duoSession.recordHash (.certificate cert)) cert)]

def duoId : CandidateId := (duoCandidate 0 none).id

def duoFinalized : List (Event 2) :=
  duoWindow ++ duoPropose 0 none ++ duoCast (.notarize duoId) 0 ++ duoStore (.notarize duoId) ++
    [.consensus (.notarizationObserved duoId)] ++ duoCast (.finalize duoId) 1 ++ duoStore (.finalize duoId)

theorem duo_signed_votes_consistent : (duoNode duoFinalized).record.cast = [.notarize duoId, .finalize duoId] ∧
    .notarize duoId ∈ (duoNode duoFinalized).sent ∧ .skip duoId.slot ∉ (duoNode duoFinalized).record.cast ∧
    ∀ event, (duoNode duoFinalized).Enabled duoBus event →
      event.Unforged duoBus.toSession ((duoNode duoFinalized).Signed duoBus) →
      (duoNode duoFinalized).handleEvent duoBus event ≠ .error .ownVotesConsistent := by
  have collisionFree : Set.InjOn duoBus.recordHash .univ := Encodable.encode_injective.injOn
  have run := duo_run duoFinalized (by decide +kernel)
  have cast : (duoNode duoFinalized).record.cast = [.notarize duoId, .finalize duoId] := by
    decide +kernel
  have finalized : .finalize duoId ∈ (duoNode duoFinalized).record.cast := by
    rw [cast]
    exact mem_cons_of_mem _ mem_cons_self
  obtain ⟨_, behind, exclusive, checked⟩ := signed_votes_consistent collisionFree run
  exact ⟨cast, (behind duoId finalized).1, exclusive duoId finalized, checked (by decide)⟩

end Node

namespace Network

variable {faulty : Finset (Fin n)} {past : List (Network n)}
  {net next : Network n}

/-- Once a correct pool has held a final certificate, no correct pool ever holds one that
contradicts it, and the handler of final certificates fails no assertion. -/
theorem finalization_agreement (capped : session.totalWeight ≤ 2 ^ 61) (bounded : FaultyBelowThird session.weight faulty)
    (collisionFree : Set.InjOn session.recordHash records) (run : Run session faulty records past net) :
    (∀ finalizing ∈ net :: past,
      ∀ first ∉ faulty,
      ∀ final, (finalizing.nodes first).storage.pool.Holds (.finalize final) →
      ∀ other ∈ net :: past,
      ∀ second ∉ faulty,
        (∀ id, id.slot = final.slot →
          (other.nodes second).storage.pool.Holds (.finalize id) ∨
            (other.nodes second).storage.pool.Holds (.notarize id) → id = final) ∧
        ¬ (other.nodes second).storage.pool.Holds (.skip final.slot)) ∧
    ∀ validator event, net.Enabled session faulty validator event →
      (net.nodes validator).handleEvent (session.busOf validator) event ≠ .error .finalSlotNotSkipped ∧
      (net.nodes validator).handleEvent (session.busOf validator) event ≠ .error .finalSlotNotarizedBlock := by
  have assumed : Assumptions session faulty records := ⟨capped, bounded, collisionFree⟩
  have clean := run.clean assumed
  constructor
  · intro finalizing passed first correct final held other otherPassed second otherCorrect
    have finalized := run.held_certified assumed passed correct held
    constructor
    · intro id sameSlot certified
      rcases certified with finalizedToo | notarized
      · exact clean.oneCandidate _ _ _ _
          (run.held_certified assumed otherPassed otherCorrect finalizedToo) finalized rfl rfl
          sameSlot
      · exact clean.oneCandidate _ _ _ _
          (run.held_certified assumed otherPassed otherCorrect notarized) finalized rfl rfl sameSlot
    · intro skipped
      exact clean.finalNotSkipped final finalized (run.held_certified assumed otherPassed otherCorrect skipped)
  · intro validator event enabled
    have checked := run.chain_checks assumed enabled
    exact ⟨fun failed => (checked _ failed).1 rfl, fun failed => (checked _ failed).2 rfl⟩

/-! ### Replaying events -/

/-- Every vote that a message carries a signature for has been cast by the signer. -/
def isAuthentic (net : Network n) : Node.Event n → Bool
  | .pool (.incomingProtocolMessage source (.vote vote _) _) => vote ∈ (net.nodes source).record.cast
  | .pool (.incomingProtocolMessage _ (.certificate certificate) _) =>
    ∀ signature ∈ certificate.signatures, ∀ validator : Fin n, signature.who = validator.val →
      certificate.vote ∈ (net.nodes validator).record.cast
  | event => event.isLocal

lemma unforged_of_isAuthentic {event : Node.Event n} (authentic : net.isAuthentic event = true) :
    event.Unforged session (net.Signed faulty) := by
  unfold isAuthentic at authentic
  split at authentic
  · intro _ _
    exact of_decide_eq_true (p := _ ∈ (net.nodes _).record.cast) authentic
  · exact fun validator signature member verifies =>
      ⟨verifies, fun _ => of_decide_eq_true authentic ⟨validator.val, signature⟩ member validator rfl⟩
  · exact Node.Event.unforged_of_isLocal authentic session _

/-- Events of correct validators, and messages of others that are authentic; none gets lost. -/
def replay (session : Session n) (faulty : Finset (Fin n)) :
    Network n → List (Fin n × Node.Event n) → Option (Network n)
  | net, [] => some net
  | net, (validator, event) :: rest =>
    if validator ∉ faulty ∧ (net.nodes validator).Enabled (session.busOf validator) event ∧
        net.isAuthentic event = true ∧ ∀ mail ∈ event.mail?, mail ∈ (net.nodes validator).mail then
      match (net.nodes validator).handleEvent (session.busOf validator) event with
      | .error _ => none
      | .ok node => replay session faulty (net.update validator node) rest
    else
      none

lemma run_of_replay {events : List (Fin n × Node.Event n)} (run : Run session faulty .univ past net)
    (result : replay session faulty net events = some next) : ∃ passed, Run session faulty .univ passed next := by
  induction events generalizing past net with
  | nil =>
    cases result
    exact ⟨past, run⟩
  | cons entry rest ih =>
    obtain ⟨validator, event⟩ := entry
    simp only [replay] at result
    split at result
    next allowed =>
      split at result
      · cases result
      next node handled =>
        have enabled : net.Enabled session faulty validator event :=
          ⟨allowed.1, allowed.2.1, unforged_of_isAuthentic allowed.2.2.1, .inl allowed.2.2.2⟩
        exact ih (.step run enabled handled (.univ _ _)) result
    next => cases result

def duoStart : Network 2 where
  nodes _ := Node.duoStart

def duoDeliver (vote : Vote) : List (Node.Event 2) :=
  .pool (.incomingProtocolMessage 0 (.certificate ⟨vote, [⟨0, [0]⟩]⟩) 0) :: duoStore vote

/-- The first validator finalizes a candidate, and the second one, which is correct too, is sent
the certificates. -/
def duoDelivered : List (Fin 2 × Node.Event 2) :=
  let received : List (Node.Event 2) := [.pool .start, .commit, .complete (.poolState 0 none 1)] ++
    duoDeliver (.notarize duoId) ++ duoDeliver (.finalize duoId)
  duoFinalized.map (0, ·) ++ received.map (1, ·)

def duoNet : Network 2 := (replay duoSession ∅ duoStart duoDelivered).getD duoStart

lemma duo_run : ∃ past, Run duoSession ∅ .univ past duoNet := by
  have started : Run duoSession ∅ .univ [] duoStart := by
    refine .start fun validator _ => ⟨⟨1, 1⟩, ?_⟩
    rfl
  have replayed : (replay duoSession ∅ duoStart duoDelivered).isSome = true := by decide +kernel
  obtain ⟨net, found⟩ := Option.isSome_iff_exists.mp replayed
  rw [duoNet, found]
  exact run_of_replay started found

lemma duo_holds (validator : Fin 2) : (duoNet.nodes validator).storage.pool.Holds (.finalize duoId) := by
  refine ⟨{ vote := .finalize duoId, signatures := [⟨0, [0]⟩] }, ?_, rfl⟩
  revert validator
  decide +kernel

lemma duo_faulty : FaultyBelowThird duoSession.weight ∅ := by
  unfold FaultyBelowThird
  decide

theorem duo_finalization_agreement : ∃ past, Run duoSession ∅ .univ past duoNet ∧
    (duoNet.nodes 0).storage.pool.Holds (.finalize duoId) ∧
    (duoNet.nodes 1).storage.pool.Holds (.finalize duoId) ∧
    (∀ id, id.slot = duoId.slot → (duoNet.nodes 1).storage.pool.Holds (.notarize id) → id = duoId) ∧
    ¬ (duoNet.nodes 1).storage.pool.Holds (.skip duoId.slot) := by
  obtain ⟨past, run⟩ := duo_run
  have agreement := finalization_agreement (by decide) duo_faulty Encodable.encode_injective.injOn run
  obtain ⟨same, notSkipped⟩ := agreement.1 _ mem_cons_self 0 (by decide) _ (duo_holds 0) _ mem_cons_self 1 (by decide)
  exact ⟨past, run, duo_holds 0, duo_holds 1, fun id located notarized => same id located (.inr notarized), notSkipped⟩

/-- No correct validator approves or builds on a parent that leaves out or replaces a candidate
finalized in an earlier slot, whichever correct validator holds the certificate. A certificate of
the last slot would take the slots of its pool back to `0`. -/
theorem parents_extend_finalized (capped : session.totalWeight ≤ 2 ^ 61) (bounded : FaultyBelowThird session.weight faulty)
    (collisionFree : Set.InjOn session.recordHash records) (run : Run session faulty records past net) :
    ∀ passed ∈ net :: past, ∀ first ∉ faulty, ∀ final,
      (passed.nodes first).storage.pool.Holds (.finalize final) →
      ∀ second ∉ faulty, ∀ parent slot,
        let pool := (net.nodes second).storage.pool
        (∀ vote, pool.Holds vote → vote.referencedSlot + 1 < 2 ^ 32) →
        final.slot < slot →
        (∃ request : Request n,
          request.id.slot = slot ∧
          request.parent = parent ∧
          nextSlotAfterParent parent ≤ slot ∧
          pool.maybeResolveRequest request = .ok (some .noMisbehavior)) ∨
        (pool.state.firstNonFinalizedSlot ≤ slot ∧
          (pool.state.slots slot).isSkipped = false ∧
          (pool.state.slots slot).availableBase = some parent) →
        ∃ id, parent = some id ∧ final.slot ≤ id.slot ∧ (id.slot = final.slot → id = final) := by
  intro passed member first correct final held second otherCorrect parent slot pool below earlier chosen
  have assumed : Assumptions session faulty records := ⟨capped, bounded, collisionFree⟩
  have finalized := run.held_certified assumed member correct held
  have follows := run.follows assumed second otherCorrect below
  rcases chosen with ⟨request, rfl, rfl, before, approved⟩ | ⟨tracked, notSkipped, base⟩
  · have clean : ConflictFree pool.view.certified :=
      (run.clean assumed).subset fun vote => run.holds_certified assumed otherCorrect
    rcases Pool.maybeResolveRequest_spec follows.matched follows.stores clean before with
      ⟨_, answer⟩ | ⟨_, answer⟩ | ⟨extends_, _⟩ | ⟨_, _, _, answer⟩
    case inr.inr.inl => 
      exact run.reaches_finalized assumed otherCorrect follows finalized earlier extends_.source extends_.skipped
    all_goals cases answer.symm.trans approved
  · rw [follows.matched.dropped] at tracked
    rw [← Bool.not_eq_true, follows.stores.isSkipped_iff] at notSkipped
    have isBase := (follows.matched.bases slot tracked notSkipped parent).mp base
    exact run.reaches_finalized assumed otherCorrect follows finalized earlier isBase.source fun other after below =>
      (isBase.between other after below).1

/-- Only the first validator is a quorum, and it has voted in slot `0` alone. -/
lemma duo_below {past : List (Network 2)} (run : Run duoSession ∅ .univ past duoNet) :
    ∀ vote, (duoNet.nodes 1).storage.pool.Holds vote → vote.referencedSlot + 1 < 2 ^ 32 := by
  intro vote held
  have assumed : Assumptions duoSession ∅ .univ := ⟨by decide, duo_faulty, Encodable.encode_injective.injOn⟩
  obtain ⟨voters, quorum, signed⟩ := run.holds_certified assumed (Finset.notMem_empty 1) held
  have needed : ∀ voters : Finset (Fin 2), IsQuorum duoSession.weight voters → 0 ∈ voters := by
    unfold IsQuorum
    decide
  have cast : vote ∈ (duoNet.nodes 0).record.cast := signed 0 (needed voters quorum) (Finset.notMem_empty 0)
  have listed : (duoNet.nodes 0).record.cast = [.notarize duoId, .finalize duoId] := by decide +kernel
  rw [listed] at cast
  simp only [mem_cons, not_mem_nil, or_false] at cast
  rcases cast with rfl | rfl <;> decide

theorem duo_parents_extend_finalized : ∃ past, Run duoSession ∅ .univ past duoNet ∧
    ((duoNet.nodes 1).storage.pool.maybeResolveRequest (.ofCandidate 0 (duoCandidate 1 (some duoId))) =
      .ok (some .noMisbehavior)) ∧
    ∃ id, (duoCandidate 1 (some duoId)).parentId = some id ∧ duoId.slot ≤ id.slot ∧ (id.slot = duoId.slot → id = duoId) := by
  obtain ⟨past, run⟩ := duo_run
  have approved : (duoNet.nodes 1).storage.pool.maybeResolveRequest (.ofCandidate 0 (duoCandidate 1 (some duoId))) =
      .ok (some .noMisbehavior) := by decide +kernel
  have extend := parents_extend_finalized (by decide) duo_faulty Encodable.encode_injective.injOn run
  exact ⟨past, run, approved, extend _ mem_cons_self 0 (by decide) _ (duo_holds 0) 1 (by decide) _ 1 (duo_below run)
    (by decide) (.inl ⟨_, rfl, rfl, by decide, approved⟩)⟩

end Network

end TonNode.Simplex
