import TonNode.Lib.RunEnds
import TonNode.Lib.SwapRemove
import TonNode.Simplex.SlotState

/-!
# The pool actor

`PoolImpl` collects votes and certificates, tracks the present slot and answers
parent requests. Handlers run to their next suspension point; coroutines that
wait for the database or the keyring are kept as frames of the state. A failed
assertion is an error and ends the process.
-/

namespace TonNode.Simplex

open Consensus Lib

variable {n : Nat}

structure NoncriticalParams where
  maxLeaderWindowDesync : Nat
  badSignatureBanDuration : Nat
deriving DecidableEq, Repr

/-- `promise` identifies the promise that is fulfilled with the answer. -/
structure Request (n : Nat) where
  promise : Nat
  id : CandidateId
  parent : ParentId
  candidateForProof : Candidate n
deriving DecidableEq, Repr

def Request.ofCandidate (promise : Nat) (candidate : Candidate n) : Request n where
  promise := promise
  id := candidate.id
  parent := candidate.parentId
  candidateForProof := candidate

inductive ParentAnswer (n : Nat) where
  | error (message : String)
  | misbehavior (misbehavior : Misbehavior n)
  | noMisbehavior
deriving DecidableEq, Repr

/-- The locals of a suspended `handle_our_vote`. -/
structure OurVote where
  vote : Vote
  tolerateConflicts : Bool
  suppressVoteBroadcast : Bool
deriving DecidableEq, Repr

/-- Effects visible to other actors, and the log line for an obtained certificate. -/
inductive Published (n : Nat) where
  | notarizationObserved (id : CandidateId) (certificate : Certificate n)
  | finalizationObserved (id : CandidateId) (certificate : Certificate n)
  | leaderWindowObserved (startSlot : Nat) (base : ParentId)
  | saveCertificate (certificate : Certificate n)
  | misbehaviorReport (validator : Fin n) (misbehavior : Misbehavior n)
  | outgoingProtocolMessage (message : ProtocolMessage)
  | obtainedCertificate (certificate : Certificate n)
  | parentResolved (request : Request n) (answer : ParentAnswer n)
  | broadcastPrechecked (error : Option String)
deriving DecidableEq, Repr

structure Pool (n : Nat) where
  params : NoncriticalParams
  state : ConsensusState (SlotState n)
  suppressCertificateBroadcast : Bool := true
  isStarted : Bool := false
  now : Nat := 0
  skipIntervals : Finset Nat := ∅
  firstNonannouncedWindow : Nat := 0
  lastFinalizedBlock : ParentId := none
  lastFinalCert : Option (Certificate n) := none
  firstNonfinalizedSlot : Nat := 0
  requests : List (Request n) := []
  nextPromise : Nat := 0
  badSignatureBans : Fin n → Option Nat := fun _ => none
  seenBroadcasts : Nat → Option Bits256 := fun _ => none
  /-- Suspended `handle_prospective_certificate` coroutines. -/
  saving : List (Certificate n) := []
  /-- Suspended `handle_our_vote` coroutines. -/
  ourVotes : List OurVote := []
  /-- Effects of the event being handled, in order. -/
  published : List (Published n) := []

namespace Pool

def publish (pool : Pool n) (event : Published n) : Pool n :=
  { pool with published := pool.published ++ [event] }

def modifySlot (pool : Pool n) (slot : Nat) (update : SlotState n → SlotState n) : Pool n :=
  { pool with state := pool.state.modifySlot slot update }

/-- `*state_->slot_at(slot)`. -/
def slotRef (pool : Pool n) (slot : Nat) : Except Check (SlotState n) :=
  match pool.state.slotAt slot with
  | some state => .ok state
  | none => .error .slotTracked

/-! ### Bookkeeping -/

/-- The loop of `advance_present`. Slots from `trackedEnd` on end it, so `trackedEnd` bounds the
number of iterations before `++now_` wraps and after it. -/
def advanceNow (pool : Pool n) : Nat → Nat → Except Check Nat
  | 0, now => .ok now
  | fuel + 1, now => do
    let slot ← pool.slotRef now
    if slot.isNotarized || slot.isSkipped then
      pool.advanceNow fuel (nextSlot now)
    else
      return now

def presentBase (pool : Pool n) : Except Check ParentId :=
  if pool.now ≠ 0 then do
    let slot ← pool.slotRef pool.now
    match slot.availableBase with
    | none => .error .availableBasePresent
    | some base => .ok base
  else
    .ok none

/-- The tail of `advance_present`, once `now_` has been moved. -/
def announceWindow (bus : Bus n) (pool : Pool n) : Except Check (Pool n) :=
  let newWindow := pool.now / bus.slotsPerLeaderWindow
  if pool.firstNonannouncedWindow > newWindow then
    .ok pool
  else do
    let base ← pool.presentBase
    return ({ pool with firstNonannouncedWindow := (newWindow + 1) % 2 ^ 32 } : Pool n).publish
      (.leaderWindowObserved pool.now base)

def advancePresent (bus : Bus n) (pool : Pool n) : Except Check (Pool n) :=
  if !pool.isStarted then
    .ok pool
  else do
    let now ← pool.advanceNow (pool.state.trackedEnd + 1 - pool.now + pool.state.trackedEnd) pool.now
    ({ pool with now } : Pool n).announceWindow bus

/-- The parameter is an `int` in the source, so the last slot comes in as `-1` and `slot + 1` is slot
`0`. The overflow at `2 ^ 31 - 1` is taken to wrap. -/
def nextNonskippedSlotAfter (pool : Pool n) (slot : Nat) : Except Check Nat := do
  let following ← pool.slotRef (nextSlot slot)
  if following.isSkipped then
    match lowerBound pool.skipIntervals (nextSlot slot) with
    | none => .error .skipIntervalPresent
    | some stop => do
      let _ ← pool.slotRef stop
      return stop
  else
    return nextSlot slot

/-! ### Request handling -/

inductive ParentStatus where
  | suitable
  | conflicting
  | unknown
deriving DecidableEq, Repr

def parentStatus (pool : Pool n) (parent : ParentId) : Except Check ParentStatus :=
  if nextSlotAfterParent parent = pool.firstNonfinalizedSlot then
    if pool.lastFinalizedBlock ≠ parent then
      if pool.firstNonfinalizedSlot ≠ 0 then
        .ok .conflicting
      else
        .error .firstNonfinalizedSlotPositive
    else
      .ok .suitable
  else
    match parent with
    | none => .error .parentPresent
    | some parentId => do
      let parentSlot ← pool.slotRef parentId.slot
      if parentSlot.isNotarized then
        if parentSlot.notarizedBlock ≠ parent then .ok .conflicting else .ok .suitable
      else
        .ok .unknown

/-- Whether the skip certificates reach from `next` to `slot`. -/
def skippedUntil (pool : Pool n) (next slot : Nat) : Except Check Bool :=
  if next = slot then
    .ok true
  else do
    let nextSlot ← pool.slotRef next
    if !nextSlot.isSkipped then
      .ok false
    else
      match lowerBound pool.skipIntervals next with
      | none => .error .skipIntervalPresent
      | some stop => .ok (stop ≥ slot)

/-- The part of `maybe_resolve_request` that looks at the parent. -/
def resolveByParent (pool : Pool n) (request : Request n) : Except Check (Option (ParentAnswer n)) := do
  match ← pool.parentStatus request.parent with
  | .conflicting => .ok (some (.misbehavior .conflictingCandidateAndCertificate))
  | .unknown => .ok none
  | .suitable => do
    let next := nextSlotAfterParent request.parent
    let reached ← pool.skippedUntil next request.id.slot
    return if reached then some .noMisbehavior else none

/-- `none` leaves the request pending. -/
def maybeResolveRequest (pool : Pool n) (request : Request n) : Except Check (Option (ParentAnswer n)) :=
  if request.id.slot < pool.firstNonfinalizedSlot then
    .ok (some (.error "Candidate's slot is already finalized"))
  else if nextSlotAfterParent request.parent < pool.firstNonfinalizedSlot then
    .ok (some (.misbehavior .conflictingCandidateAndCertificate))
  else do
    let slot ← pool.slotRef request.id.slot
    if slot.notarizedBlock.isSome ∧ slot.notarizedBlock ≠ some request.id then
      .ok (some (.misbehavior .conflictingCandidateAndCertificate))
    else
      pool.resolveByParent request

/-- The index loop of `maybe_resolve_requests`, removing by `std::swap` and `pop_back`. The
length of the vector bounds the number of iterations. -/
def resolveFrom (pool : Pool n) : Nat → Nat → Except Check (Pool n)
  | 0, _ => .ok pool
  | fuel + 1, index =>
    match pool.requests[index]? with
    | none => .ok pool
    | some request => do
      match ← pool.maybeResolveRequest request with
      | none => pool.resolveFrom fuel (index + 1)
      | some answer =>
        let remaining := { pool with requests := swapRemove pool.requests index }
        (remaining.publish (.parentResolved request answer)).resolveFrom fuel index

def maybeResolveRequests (pool : Pool n) : Except Check (Pool n) :=
  pool.resolveFrom pool.requests.length 0

def processWaitForParent (pool : Pool n) (candidate : Candidate n) : Except Check (Pool n) :=
  if candidate.parentId.all (·.slot < candidate.id.slot) then do
    let request : Request n := .ofCandidate pool.nextPromise candidate
    let pool := { pool with
      requests := pool.requests ++ [request]
      nextPromise := pool.nextPromise + 1 }
    match ← pool.maybeResolveRequest request with
    | none => return pool
    | some answer =>
      let remaining := { pool with requests := pool.requests.dropLast }
      return remaining.publish (.parentResolved request answer)
  else
    .error .parentBeforeCandidate

/-! ### Certificate handling -/

def handleSavedNotarCertificate (bus : Bus n) (pool : Pool n) (id : CandidateId)
    (cert : Certificate n) : Except Check (Pool n) := do
  let pool := pool.publish (.notarizationObserved id cert)
  let next ← pool.nextNonskippedSlotAfter id.slot
  (pool.modifySlot next (·.addAvailableBase (some id))).advancePresent bus

/-- `skip_intervals_` after `slot` was skipped; `next` is the slot behind its run. -/
def extendSkipInterval (pool : Pool n) (slot next : Nat) : Pool n :=
  let erased := pool.skipIntervals.erase slot
  { pool with skipIntervals := if next = nextSlot slot then insert (nextSlot slot) erased else erased }

def inheritBase (pool : Pool n) (slot next : Nat) : Pool n :=
  { pool with
    state :=
      match (pool.state.slots slot).availableBase with
      | some base => pool.state.modifySlot next (·.addAvailableBase base)
      | none => pool.state }

def handleSavedSkipCertificate (bus : Bus n) (pool : Pool n) (slot : Nat) : Except Check (Pool n) := do
  let next ← pool.nextNonskippedSlotAfter slot
  ((pool.extendSkipInterval slot next).inheritBase slot next).advancePresent bus

/-- A slot that is finalized without a notarization becomes a base now. -/
def addFinalizedBase (pool : Pool n) (id : CandidateId) : Except Check (Pool n) :=
  if !(pool.state.slots id.slot).isNotarized then do
    let next ← pool.nextNonskippedSlotAfter id.slot
    return pool.modifySlot next (·.addAvailableBase (some id))
  else
    .ok pool

def recordFinalized (pool : Pool n) (id : CandidateId) (cert : Certificate n) : Pool n :=
  ({ pool with
    lastFinalizedBlock := some id
    lastFinalCert := some cert
    firstNonfinalizedSlot := nextSlot id.slot } : Pool n).publish (.finalizationObserved id cert)

def advancePast (bus : Bus n) (pool : Pool n) (slot : Nat) : Except Check (Pool n) :=
  if pool.now ≤ slot then
    ({ pool with now := nextSlot slot } : Pool n).advancePresent bus
  else
    .ok pool

def dropFinalized (pool : Pool n) (slot : Nat) : Pool n :=
  { pool with
    skipIntervals := pool.skipIntervals.filter (slot < ·)
    state := pool.state.notifyFinalized slot }

def handleSavedFinalCertificate (bus : Bus n) (pool : Pool n) (id : CandidateId) (cert : Certificate n) : Except Check (Pool n) :=
  let slot := pool.state.slots id.slot
  if slot.isSkipped then
    .error .finalSlotNotSkipped
  else if slot.notarizedBlock.getD id ≠ id then
    .error .finalSlotNotarizedBlock
  else do
    let pool ← pool.addFinalizedBase id
    let pool ← (pool.recordFinalized id cert).advancePast bus id.slot
    return pool.dropFinalized id.slot

def handleTypedSavedCertificate (bus : Bus n) (pool : Pool n) (cert : Certificate n) : Except Check (Pool n) :=
  match cert.vote with
  | .notarize id => pool.handleSavedNotarCertificate bus id cert
  | .skip slot => pool.handleSavedSkipCertificate bus slot
  | .finalize id => pool.handleSavedFinalCertificate bus id cert

def storeCertificate (pool : Pool n) (cert : Certificate n) : Except Check (Pool n) :=
  let slot := cert.vote.referencedSlot
  let (stored, certs) := (pool.state.slots slot).certs.store cert
  if stored then
    .ok (pool.modifySlot slot ({ · with certs }))
  else
    .error .certificateNotStored

def broadcastCertificate (pool : Pool n) (cert : Certificate n) : Pool n :=
  let pool := pool.publish (.obtainedCertificate cert)
  if !pool.suppressCertificateBroadcast then
    pool.publish (.outgoingProtocolMessage (.certificate cert.toTl))
  else
    pool

/-- The caller holds a reference to the slot of the certificate. -/
def handleSavedCertificate (bus : Bus n) (pool : Pool n) (cert : Certificate n) : Except Check (Pool n) := do
  let pool ← pool.storeCertificate cert
  let pool ← (pool.broadcastCertificate cert).handleTypedSavedCertificate bus cert
  pool.maybeResolveRequests

/-- `slot.has_value() && slot->state->certs.needs(vote)`. -/
def wantsCertificate (pool : Pool n) (vote : Vote) : Bool :=
  match pool.state.slotAt vote.referencedSlot with
  | none => false
  | some state => state.certs.needs vote

/-- Up to the suspension of `handle_prospective_certificate` on the database. -/
def handleCertificate (pool : Pool n) (cert : Certificate n) : Except Check (Pool n) :=
  let slot := cert.vote.referencedSlot
  if !pool.wantsCertificate cert.vote then
    .ok pool
  else do
    let certs ← (pool.state.slots slot).certs.rememberProspective cert.vote
    let pool := pool.modifySlot slot ({ · with certs })
    let pool := { pool with saving := pool.saving ++ [cert] }
    return pool.publish (.saveCertificate cert)

/-- The loop over the signers of a saved certificate. -/
def addCertificateVotes (pool : Pool n) (cert : Certificate n) : List (Fin n) → Pool n
  | [] => pool
  | validator :: rest =>
    let slot := cert.vote.referencedSlot
    let (result, votes) := ((pool.state.slots slot).votes validator).addVote (.ofCertificate cert)
    let pool := pool.modifySlot slot (·.setVotes validator votes)
    match result.misbehavior with
    | some misbehavior =>
      (pool.publish (.misbehaviorReport validator misbehavior)).addCertificateVotes cert rest
    | none => pool.addCertificateVotes cert rest

/-- `handle_prospective_certificate` after the database answered. -/
def resumeProspectiveCertificate (bus : Bus n) (pool : Pool n) (cert : Certificate n) : Except Check (Pool n) :=
  let pool := { pool with saving := pool.saving.erase cert }
  match pool.state.slotAt cert.vote.referencedSlot with
  | none => .ok pool
  | some _ => (pool.addCertificateVotes cert cert.signers).handleSavedCertificate bus cert

/-! ### Vote handling -/

/-- The three overloads differ in the counter and the flag of the vote type. -/
def handleTypedVote (bus : Bus n) (pool : Pool n) (validator : Fin n) (vote : Vote) : Except Check (Pool n) := do
  let slot := vote.referencedSlot
  let pool := pool.modifySlot slot (·.addWeightTo vote (bus.weight validator))
  let state := pool.state.slots slot
  if !state.willBe vote.kind ∧ state.weightOf vote ≥ bus.weightThreshold then
    let cert ← state.createCert vote
    pool.handleCertificate cert
  else
    return pool

/-- The flag tells whether the vote was applied. -/
def handleVote (bus : Bus n) (pool : Pool n) (validator : Fin n) (vote : Signed n)
    (tolerateConflicts : Bool) : Except Check (Bool × Pool n) :=
  let slot := vote.vote.referencedSlot
  match pool.state.slotAt slot with
  | none => .ok (false, pool)
  | some state =>
    let (result, votes) := (state.votes validator).addVote (.ofSigned vote)
    let pool := pool.modifySlot slot (·.setVotes validator votes)
    match result.misbehavior with
    | some misbehavior =>
      if validator = bus.localId ∧ !tolerateConflicts then
        .error .ownVotesConsistent
      else
        .ok (false, pool.publish (.misbehaviorReport validator misbehavior))
    | none =>
      if result.isApplied then do
        let pool ← pool.handleTypedVote bus validator vote.vote
        return (true, pool)
      else
        .ok (false, pool)

/-- Up to the suspension of `handle_our_vote` on the keyring. -/
def handleOurVote (pool : Pool n) (vote : Vote) (tolerateConflicts suppressVoteBroadcast : Bool) : Pool n :=
  { pool with
    ourVotes := pool.ourVotes ++ [{ vote, tolerateConflicts, suppressVoteBroadcast }] }

/-- `handle_our_vote` after the keyring answered. -/
def resumeOurVote (bus : Bus n) (pool : Pool n) (frame : OurVote) (signature : BufferSlice) : Except Check (Pool n) := do
  let pool := { pool with ourVotes := pool.ourVotes.erase frame }
  let signedVote : Signed n := { validator := bus.localId, vote := frame.vote, signature }
  let (applied, pool) ← pool.handleVote bus bus.localId signedVote frame.tolerateConflicts
  if applied ∧ !frame.suppressVoteBroadcast then
    return pool.publish (.outgoingProtocolMessage (.vote frame.vote signature))
  else
    return pool

/-! ### Messages of other validators -/

def ban (pool : Pool n) (peer : Fin n) (time : Nat) : Pool n :=
  let expiry := time + pool.params.badSignatureBanDuration
  { pool with badSignatureBans := Function.update pool.badSignatureBans peer (some expiry) }

/-- An expired ban is erased. -/
def isBanned (pool : Pool n) (peer : Fin n) (time : Nat) : Bool × Pool n :=
  match pool.badSignatureBans peer with
  | none => (false, pool)
  | some expiry =>
    if expiry ≤ time then
      (false, { pool with badSignatureBans := Function.update pool.badSignatureBans peer none })
    else
      (true, pool)

def firstTooNewSlot (bus : Bus n) (pool : Pool n) : Nat :=
  (pool.now / bus.slotsPerLeaderWindow + pool.params.maxLeaderWindowDesync + 1) * bus.slotsPerLeaderWindow % 2 ^ 32

def handleVoteMessage (bus : Bus n) (pool : Pool n) (source : Fin n) (vote : Vote)
    (signature : BufferSlice) (time : Nat) : Except Check (Pool n) := do
  let slot := vote.referencedSlot
  if slot ≥ pool.firstTooNewSlot bus then
    return pool
  else if slot < pool.firstNonfinalizedSlot then
    return pool
  else
    let state ← pool.slotRef slot
    if !(state.votes source).wants vote then
      return pool
    else if !bus.checkSignature source (.vote vote) signature then
      return pool.ban source time
    else
      let (_, pool) ← pool.handleVote bus source { validator := source, vote, signature } false
      return pool

def handleCertificateMessage (bus : Bus n) (pool : Pool n) (source : Fin n)
    (certificate : TlCertificate) (time : Nat) : Except Check (Pool n) := do
  let slot := certificate.vote.referencedSlot
  let isTooNew : Bool := slot ≥ pool.firstTooNewSlot bus
  if !isTooNew && !pool.wantsCertificate certificate.vote then
    return pool
  else
    match Certificate.fromTl bus.toSession certificate with
    | .error _ => return pool.ban source time
    | .ok cert =>
      if isTooNew then
        let state ← pool.slotRef slot
        if !state.certs.needs certificate.vote then return pool else pool.handleCertificate cert
      else
        pool.handleCertificate cert

def handleIncomingProtocolMessage (bus : Bus n) (pool : Pool n) (source : Fin n)
    (message : ProtocolMessage) (time : Nat) : Except Check (Pool n) :=
  let (banned, pool) := pool.isBanned source time
  if banned then
    .ok pool
  else
    match message with
    | .vote vote signature => pool.handleVoteMessage bus source vote signature time
    | .certificate certificate => pool.handleCertificateMessage bus source certificate time
    | .other => .ok pool

def precheckCandidateBroadcast (bus : Bus n) (pool : Pool n) (slot : Nat)
    (broadcastId : Bits256) (signatureChecked : Bool) : Pool n :=
  if slot < pool.firstNonfinalizedSlot then
    pool.publish (.broadcastPrechecked (some "Slot is already finalized"))
  else if slot > (pool.now + pool.params.maxLeaderWindowDesync * bus.slotsPerLeaderWindow) % 2 ^ 32 then
    pool.publish (.broadcastPrechecked (some "Slot is too far in the future"))
  else
    match pool.seenBroadcasts slot with
    | some seen =>
      pool.publish (.broadcastPrechecked
        (if seen ≠ broadcastId then some "Duplicate broadcast" else none))
    | none =>
      let pool :=
        if signatureChecked then
          { pool with seenBroadcasts :=
              Function.update pool.seenBroadcasts slot (some broadcastId) }
        else
          pool
      pool.publish (.broadcastPrechecked none)

def publishStandstillMessages (bus : Bus n) (pool : Pool n) (slot : Nat) : Except Check (Pool n) := do
  let state ← pool.slotRef slot
  let messages ← state.standstillMessages bus.localId
  return { pool with published := pool.published ++ messages.map .outgoingProtocolMessage }

/-! ### Start-up -/

/-- What `DbImpl` leaves on the bus for the other actors. -/
structure Bootstrap (n : Nat) where
  firstNonannouncedWindow : Nat
  certificates : List (Certificate n)
  votes : List Vote

def empty (params : NoncriticalParams) : Pool n :=
  { params, state := .initial {} }

def loadCertificates (bus : Bus n) : Pool n → List (Certificate n) → Except Check (Pool n)
  | pool, [] => .ok pool
  | pool, cert :: rest =>
    match pool.state.slotAt cert.vote.referencedSlot with
    | none => loadCertificates bus pool rest
    | some _ => do
      let pool ← pool.handleSavedCertificate bus cert
      loadCertificates bus pool rest

def loadVotes : Pool n → List Vote → Pool n
  | pool, [] => pool
  | pool, vote :: rest =>
    match pool.state.slotAt vote.referencedSlot with
    | none => loadVotes pool rest
    | some _ => loadVotes (pool.handleOurVote vote true true) rest

/-- The pool before any certificate has been loaded: the genesis is a base. -/
def fresh (params : NoncriticalParams) (firstNonannouncedWindow : Nat) : Pool n :=
  { (empty params).modifySlot 0 ({ · with availableBase := some none }) with
    firstNonannouncedWindow }

def startUp (bus : Bus n) (params : NoncriticalParams) (bootstrap : Bootstrap n) : Except Check (Pool n) := do
  let pool := fresh params bootstrap.firstNonannouncedWindow
  let pool ← pool.loadCertificates bus bootstrap.certificates
  let pool := { pool with suppressCertificateBroadcast := false }
  return pool.loadVotes bootstrap.votes

def handleStart (bus : Bus n) (pool : Pool n) : Except Check (Pool n) :=
  ({ pool with isStarted := true } : Pool n).advancePresent bus

/-! ### The actor -/

/-- What the actor is resumed with: bus events, timer ticks and completions of
the keyring and the database. -/
inductive Event (n : Nat) where
  | start
  | incomingProtocolMessage (source : Fin n) (message : ProtocolMessage) (time : Nat)
  | broadcastVote (vote : Vote)
  | keyringSigned (frame : OurVote) (signature : BufferSlice)
  | certificateSaved (certificate : Certificate n)
  | certificateSaveFailed (certificate : Certificate n)
  | waitForParent (candidate : Candidate n)
  | standstill (slot : Nat)
  | precheckCandidateBroadcast (slot : Nat) (broadcastId : Bits256) (signatureChecked : Bool)
  | noncriticalParamsUpdated (params : NoncriticalParams)
deriving DecidableEq

def handleEvent (bus : Bus n) (pool : Pool n) : Event n → Except Check (Pool n)
  | .start => pool.handleStart bus
  | .incomingProtocolMessage source message time =>
    pool.handleIncomingProtocolMessage bus source message time
  | .broadcastVote vote => .ok (pool.handleOurVote vote false false)
  | .keyringSigned frame signature => pool.resumeOurVote bus frame signature
  | .certificateSaved cert => pool.resumeProspectiveCertificate bus cert
  | .certificateSaveFailed cert => .ok { pool with saving := pool.saving.erase cert }
  | .waitForParent candidate => pool.processWaitForParent candidate
  | .standstill slot => pool.publishStandstillMessages bus slot
  | .precheckCandidateBroadcast slot broadcastId signatureChecked =>
    .ok (pool.precheckCandidateBroadcast bus slot broadcastId signatureChecked)
  | .noncriticalParamsUpdated params => .ok { pool with params }

/-- One event; `published` afterwards holds what this event published. -/
def step (bus : Bus n) (pool : Pool n) (event : Event n) : Except Check (Pool n) :=
  ({ pool with published := [] } : Pool n).handleEvent bus event

/-- Completions answer a suspended coroutine, the keyring signs correctly, and
the standstill broadcast stays within the tracked slots. -/
def Enabled (bus : Bus n) (pool : Pool n) : Event n → Prop
  | .keyringSigned frame signature =>
    frame ∈ pool.ourVotes ∧ bus.checkSignature bus.localId (.vote frame.vote) signature = true
  | .certificateSaved cert => cert ∈ pool.saving
  | .certificateSaveFailed cert => cert ∈ pool.saving
  | .standstill slot => pool.state.firstNonFinalizedSlot ≤ slot
  | _ => True

instance (bus : Bus n) (pool : Pool n) : (event : Event n) → Decidable (pool.Enabled bus event)
  | .keyringSigned frame signature =>
    inferInstanceAs (Decidable (frame ∈ pool.ourVotes ∧ bus.checkSignature bus.localId (.vote frame.vote) signature = true))
  | .certificateSaved cert => inferInstanceAs (Decidable (cert ∈ pool.saving))
  | .certificateSaveFailed cert => inferInstanceAs (Decidable (cert ∈ pool.saving))
  | .standstill slot => inferInstanceAs (Decidable (pool.state.firstNonFinalizedSlot ≤ slot))
  | .start | .incomingProtocolMessage _ _ _ | .broadcastVote _ | .waitForParent _
  | .precheckCandidateBroadcast _ _ _ | .noncriticalParamsUpdated _ => isTrue trivial

/-- Pools reachable from a start-up, with everything published. The database hands out only
accepted certificates. -/
inductive Run (bus : Bus n) : List (Published n) → Pool n → Prop where
  | startUp {params : NoncriticalParams} {bootstrap : Bootstrap n} {pool : Pool n} :
      (∀ cert ∈ bootstrap.certificates, cert.Valid bus.toSession) →
      startUp bus params bootstrap = .ok pool → Run bus pool.published pool
  | step {log : List (Published n)} {pool next : Pool n} {event : Event n} :
      Run bus log pool → pool.Enabled bus event → step bus pool event = .ok next →
      Run bus (log ++ next.published) next

end Pool

end TonNode.Simplex
