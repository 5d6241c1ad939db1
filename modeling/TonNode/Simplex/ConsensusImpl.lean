import TonNode.Simplex.Pool

/-!
# The consensus actor

`ConsensusImpl` decides what this validator votes for. Handlers run to their
next suspension point; suspended coroutines are frames of the state. The awaits
of `try_notarize` behind the parent answer leave the actor unchanged, so they
are one suspension. Durations only determine when the alarm fires and are left
out.
-/

namespace TonNode.Simplex

open Consensus

variable {n : Nat}

namespace ConsensusImpl

structure SlotState (n : Nat) where
  pendingBlock : Option (Candidate n) := none
  votedNotar : Option CandidateId := none
  notarCert : Option CandidateId := none
  votedSkip : Bool := false
  votedFinal : Bool := false
deriving DecidableEq, Repr

inductive Output (n : Nat) where
  | broadcastVote (vote : Vote)
  | waitForParent (candidate : Candidate n)
  | misbehaviorReport (validator : Fin n) (misbehavior : Misbehavior n)
  | ourLeaderWindowStarted (base : ParentId) (startSlot endSlot : Nat)
deriving DecidableEq, Repr

end ConsensusImpl

structure ConsensusImpl (n : Nat) where
  maxLeaderWindowDesync : Nat
  state : ConsensusState (ConsensusImpl.SlotState n) := .initial {}
  timeoutSlot : Nat := 0
  /-- Whether `alarm_timestamp()` is set. -/
  alarmSet : Bool := false
  currentWindow : Nat := 0
  /-- `try_notarize` coroutines waiting for the parent. -/
  waiting : List (Candidate n) := []
  /-- `try_notarize` coroutines waiting for the verdict on their candidate. -/
  validating : List (Candidate n) := []
  /-- Suspended `start_generation` coroutines. -/
  generations : List (Nat × ParentId) := []
  /-- Effects of the event being handled, in order. -/
  published : List (ConsensusImpl.Output n) := []

namespace ConsensusImpl

def publish (impl : ConsensusImpl n) (output : Output n) : ConsensusImpl n :=
  { impl with published := impl.published ++ [output] }

def modifySlot (impl : ConsensusImpl n) (slot : Nat) (update : SlotState n → SlotState n) : ConsensusImpl n :=
  { impl with state := impl.state.modifySlot slot update }

/-! ### Skip votes -/

def voteSkip (impl : ConsensusImpl n) (slot : Nat) : ConsensusImpl n :=
  match impl.state.slotAt slot with
  | none => impl
  | some state =>
    if state.votedFinal then
      impl
    else
      (impl.modifySlot slot ({ · with votedSkip := true })).publish (.broadcastVote (.skip slot))

def skipSlots (impl : ConsensusImpl n) (slot : Nat) : Nat → ConsensusImpl n
  | 0 => impl
  | count + 1 => (impl.voteSkip slot).skipSlots (slot + 1) count

def alarm (session : Session n) (impl : ConsensusImpl n) : ConsensusImpl n :=
  let rangeStart := impl.timeoutSlot - 1
  let windowStart := rangeStart - rangeStart % session.slotsPerLeaderWindow
  let windowEnd := windowStart + session.slotsPerLeaderWindow
  { impl.skipSlots rangeStart (windowEnd - rangeStart) with
    timeoutSlot := windowEnd
    alarmSet := false }

/-! ### Start-up -/

def replayVote (state : SlotState n) : Vote → SlotState n
  | .notarize id =>
    if state.votedNotar.isSome ∧ state.votedNotar ≠ some id then
      state
    else
      { state with votedNotar := some id }
  | .finalize id =>
    if state.votedSkip ∨ state.votedNotar.isSome ∧ state.votedNotar ≠ some id then
      state
    else
      { state with votedFinal := true }
  | .skip _ => if state.votedFinal then state else { state with votedSkip := true }

def loadVotes : ConsensusImpl n → List Vote → ConsensusImpl n
  | impl, [] => impl
  | impl, vote :: rest =>
    match impl.state.slotAt vote.referencedSlot with
    | none => loadVotes impl rest
    | some _ => loadVotes (impl.modifySlot vote.referencedSlot (replayVote · vote)) rest

def startUp (session : Session n) (maxLeaderWindowDesync : Nat) (bootstrap : Pool.Bootstrap n) : ConsensusImpl n :=
  let impl := loadVotes { maxLeaderWindowDesync } bootstrap.votes
  let window := bootstrap.firstNonannouncedWindow
  if window ≠ 0 then
    let startSlot := (window - 1) * session.slotsPerLeaderWindow
    let endSlot := window * session.slotsPerLeaderWindow
    impl.skipSlots startSlot (endSlot - startSlot)
  else
    impl

/-! ### Notarize and finalize votes -/

def tryVoteFinal (impl : ConsensusImpl n) (slot : Nat) : Except Check (ConsensusImpl n) :=
  let state := impl.state.slots slot
  match state.votedNotar, state.notarCert with
  | none, none => .error .voteOrCertificatePresent
  | some voted, some certified =>
    if !state.votedSkip ∧ !state.votedFinal ∧ voted = certified then
      .ok ((impl.publish (.broadcastVote (.finalize voted))).modifySlot slot ({ · with votedFinal := true }))
    else
      .ok impl
  | _, _ => .ok impl

/-- Up to the suspension of `try_notarize` on the parent request. -/
def tryNotarize (impl : ConsensusImpl n) (candidate : Candidate n) : ConsensusImpl n :=
  ({ impl with waiting := impl.waiting ++ [candidate] } : ConsensusImpl n).publish (.waitForParent candidate)

def resumeWithParent (impl : ConsensusImpl n) (candidate : Candidate n) (answer : ParentAnswer n) : ConsensusImpl n :=
  let impl := { impl with waiting := impl.waiting.erase candidate }
  match answer with
  | .error _ => impl
  | .misbehavior misbehavior =>
    impl.publish (.misbehaviorReport candidate.leader misbehavior)
  | .noMisbehavior => { impl with validating := impl.validating ++ [candidate] }

def dropCandidate (impl : ConsensusImpl n) (candidate : Candidate n) : ConsensusImpl n :=
  { impl with validating := impl.validating.erase candidate }

/-- The end of `try_notarize` for an accepted and stored candidate. -/
def resumeWithVerdict (impl : ConsensusImpl n) (candidate : Candidate n) : Except Check (ConsensusImpl n) :=
  (((impl.dropCandidate candidate).modifySlot candidate.id.slot ({ · with votedNotar := some candidate.id })).publish
      (.broadcastVote (.notarize candidate.id))).tryVoteFinal candidate.id.slot

def firstTooNewSlot (session : Session n) (impl : ConsensusImpl n) : Nat :=
  (impl.currentWindow + impl.maxLeaderWindowDesync + 1) * session.slotsPerLeaderWindow % 2 ^ 32

def handleCandidateReceived (session : Session n) (impl : ConsensusImpl n) (candidate : Candidate n) : ConsensusImpl n :=
  let slot := candidate.id.slot
  if slot ≥ impl.firstTooNewSlot session then
    impl
  else
    match impl.state.slotAt slot with
    | none => impl
    | some state =>
      if state.votedNotar.isSome then
        impl
      else if candidate.parentId.any (·.slot ≥ slot) then
        impl
      else if state.pendingBlock.isSome then
        impl
      else
        (impl.modifySlot slot ({ · with pendingBlock := some candidate })).tryNotarize candidate

/-- The timeout moves behind a notarized slot. At the end of a window it is left
to the announcement of the next one. -/
def deferTimeout (session : Session n) (impl : ConsensusImpl n) (slot : Nat) : ConsensusImpl n :=
  if impl.timeoutSlot ≤ slot + 1 then
    { impl with
      timeoutSlot := if (slot + 1) % session.slotsPerLeaderWindow = 0 then slot + 1 else slot + 2
      alarmSet := true }
  else
    impl

def processNotarizationObserved (session : Session n) (impl : ConsensusImpl n)
    (id : CandidateId) : Except Check (ConsensusImpl n) :=
  match impl.state.slotAt id.slot with
  | none => .ok impl
  | some _ =>
    ((impl.deferTimeout session id.slot).modifySlot id.slot ({ · with notarCert := some id })).tryVoteFinal id.slot

/-! ### Leader windows -/

/-- Up to the suspension of `start_generation` on the state of the base. -/
def startGeneration (impl : ConsensusImpl n) (base : ParentId) (startSlot : Nat) : ConsensusImpl n :=
  { impl with generations := impl.generations ++ [(startSlot, base)] }

def resumeGeneration (session : Session n) (impl : ConsensusImpl n) (startSlot : Nat) (base : ParentId) : ConsensusImpl n :=
  let impl := { impl with generations := impl.generations.erase (startSlot, base) }
  if impl.currentWindow ≠ startSlot / session.slotsPerLeaderWindow then
    impl
  else
    impl.publish (.ourLeaderWindowStarted base startSlot (startSlot + session.slotsPerLeaderWindow))

def enterWindow (bus : Bus n) (impl : ConsensusImpl n) (startSlot : Nat) (base : ParentId) : ConsensusImpl n :=
  let impl := { impl with currentWindow := startSlot / bus.slotsPerLeaderWindow }
  if startSlot % bus.slotsPerLeaderWindow = 0 ∧ bus.isExpectedCollator bus.localId startSlot then
    impl.startGeneration base startSlot
  else
    impl

def armTimeout (impl : ConsensusImpl n) (startSlot : Nat) : ConsensusImpl n :=
  if impl.timeoutSlot ≤ startSlot then
    { impl with timeoutSlot := startSlot + 1, alarmSet := true }
  else
    impl

def handleLeaderWindowObserved (bus : Bus n) (impl : ConsensusImpl n) (startSlot : Nat) (base : ParentId) : ConsensusImpl n :=
  (impl.enterWindow bus startSlot base).armTimeout startSlot

/-! ### The actor -/

/-- What the actor is resumed with; `candidateDropped` and `generationFailed` end the coroutine. -/
inductive Event (n : Nat) where
  | notarizationObserved (id : CandidateId)
  | finalizationObserved (id : CandidateId)
  | leaderWindowObserved (startSlot : Nat) (base : ParentId)
  | candidateReceived (candidate : Candidate n)
  | parentResolved (candidate : Candidate n) (answer : ParentAnswer n)
  | candidateAccepted (candidate : Candidate n)
  | candidateDropped (candidate : Candidate n)
  | generationReady (startSlot : Nat) (base : ParentId)
  | generationFailed (startSlot : Nat) (base : ParentId)
  | alarm
  | noncriticalParamsUpdated (maxLeaderWindowDesync : Nat)
deriving DecidableEq

def handleEvent (bus : Bus n) (impl : ConsensusImpl n) :
    Event n → Except Check (ConsensusImpl n)
  | .notarizationObserved id => impl.processNotarizationObserved bus.toSession id
  | .finalizationObserved id => .ok { impl with state := impl.state.notifyFinalized id.slot }
  | .leaderWindowObserved startSlot base =>
    .ok (impl.handleLeaderWindowObserved bus startSlot base)
  | .candidateReceived candidate => .ok (impl.handleCandidateReceived bus.toSession candidate)
  | .parentResolved candidate answer => .ok (impl.resumeWithParent candidate answer)
  | .candidateAccepted candidate => impl.resumeWithVerdict candidate
  | .candidateDropped candidate => .ok (impl.dropCandidate candidate)
  | .generationReady startSlot base => .ok (impl.resumeGeneration bus.toSession startSlot base)
  | .generationFailed startSlot base =>
    .ok { impl with generations := impl.generations.erase (startSlot, base) }
  | .alarm => .ok (impl.alarm bus.toSession)
  | .noncriticalParamsUpdated maxLeaderWindowDesync => .ok { impl with maxLeaderWindowDesync }

/-- One event; `published` afterwards holds what this event published. -/
def step (bus : Bus n) (impl : ConsensusImpl n) (event : Event n) : Except Check (ConsensusImpl n) :=
  ({ impl with published := [] } : ConsensusImpl n).handleEvent bus event

/-- Completions resume a suspended coroutine and the alarm fires when it is set. -/
def Enabled (impl : ConsensusImpl n) : Event n → Prop
  | .parentResolved candidate _ => candidate ∈ impl.waiting
  | .candidateAccepted candidate => candidate ∈ impl.validating
  | .candidateDropped candidate => candidate ∈ impl.validating
  | .generationReady startSlot base => (startSlot, base) ∈ impl.generations
  | .generationFailed startSlot base => (startSlot, base) ∈ impl.generations
  | .alarm => impl.alarmSet = true
  | _ => True

instance (impl : ConsensusImpl n) : (event : Event n) → Decidable (impl.Enabled event)
  | .parentResolved candidate _ => inferInstanceAs (Decidable (candidate ∈ impl.waiting))
  | .candidateAccepted candidate => inferInstanceAs (Decidable (candidate ∈ impl.validating))
  | .candidateDropped candidate => inferInstanceAs (Decidable (candidate ∈ impl.validating))
  | .generationReady startSlot base =>
    inferInstanceAs (Decidable ((startSlot, base) ∈ impl.generations))
  | .generationFailed startSlot base =>
    inferInstanceAs (Decidable ((startSlot, base) ∈ impl.generations))
  | .alarm => inferInstanceAs (Decidable (impl.alarmSet = true))
  | .notarizationObserved _ | .finalizationObserved _ | .leaderWindowObserved _ _
  | .candidateReceived _ | .noncriticalParamsUpdated _ => isTrue trivial

end ConsensusImpl

end TonNode.Simplex
