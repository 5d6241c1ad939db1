import TonNode.Simplex.SignatureSet

/-!
# Finalization of blocks

`finalize_blocks` of the state resolver: ancestors before descendants, each
candidate by one coroutine that others wait for. The inner coroutines are the
frames of the state. A call that has returned is scheduled like any other
resumption; the source resumes the caller in the same turn.
-/

namespace TonNode.Simplex

open Consensus Block

namespace StateResolver

/-- Who awaits a call: the handler of `FinalizationObserved`, or the coroutine
that finalizes a child. -/
inductive Caller where
  | observer
  | child (id : CandidateId)
deriving DecidableEq, Repr

def Caller.child? : Caller → Option CandidateId
  | .observer => none
  | .child id => some id

structure FinalizedBlock where
  done : Bool := false
  started : Bool := false
  waiters : List Caller := []
deriving DecidableEq, Repr

/-- Suspension points of `finalize_blocks_inner`. -/
inductive Phase (n : Nat) where
  | resolving
  | waiting (candidate : Candidate n) (notarCert : Certificate n)
  | publishing
  | saving
deriving DecidableEq, Repr

structure Runner (n : Nat) where
  id : CandidateId
  finalCert : Option (Certificate n)
  finalCandidate : Option (Candidate n)
  phase : Phase n := .resolving
deriving DecidableEq, Repr

end StateResolver

structure StateResolver (n : Nat) where
  finalizedBlocks : CandidateId → Option StateResolver.FinalizedBlock
  runners : List (StateResolver.Runner n) := []
  /-- Children whose call for their parent has returned, and whether it succeeded. -/
  returned : List (CandidateId × Bool) := []
  /-- `FinalizeBlock` requests of the event being handled. -/
  published : List (Candidate n × BlockSignatureSet) := []

namespace StateResolver

variable {n : Nat}

def entry (resolver : StateResolver n) (id : CandidateId) : FinalizedBlock :=
  (resolver.finalizedBlocks id).getD {}

def setEntry (resolver : StateResolver n) (id : CandidateId) (entry : Option FinalizedBlock) : StateResolver n :=
  { resolver with finalizedBlocks := Function.update resolver.finalizedBlocks id entry }

def returnTo (resolver : StateResolver n) (callers : List Caller) (isOk : Bool) : StateResolver n :=
  { resolver with
    returned := resolver.returned ++ (callers.filterMap Caller.child?).map ((·, isOk)) }

def dropRunner (resolver : StateResolver n) (id : CandidateId) : StateResolver n :=
  { resolver with runners := resolver.runners.filter (·.id ≠ id) }

def finish (resolver : StateResolver n) (id : CandidateId) (isOk : Bool) : StateResolver n :=
  let state := resolver.entry id
  ((resolver.dropRunner id).returnTo state.waiters isOk).setEntry id
    (if isOk then some { state with done := true, waiters := [] } else none)

def start (isMasterchain : Bool) (resolver : StateResolver n) (runner : Runner n) : StateResolver n :=
  if runner.finalCert.isNone && isMasterchain then
    resolver.finish runner.id true
  else
    { resolver with runners := resolver.runners ++ [runner] }

/-- `finalize_blocks` up to its first suspension. -/
def finalizeBlocks (isMasterchain : Bool) (resolver : StateResolver n) (id : CandidateId)
    (finalCert : Option (Certificate n)) (finalCandidate : Option (Candidate n)) (caller : Caller) : StateResolver n :=
  let state := resolver.entry id
  if state.done then
    resolver.returnTo [caller] true
  else if state.started then
    resolver.setEntry id (some { state with waiters := state.waiters ++ [caller] })
  else
    (resolver.setEntry id (some { state with
      started := true, waiters := state.waiters ++ [caller] })).start isMasterchain
        { id, finalCert, finalCandidate }

def setRunner (resolver : StateResolver n) (runner : Runner n) : StateResolver n :=
  { resolver with runners := resolver.runners.map fun other =>
      if other.id = runner.id then runner else other }

/-- The part of the inner coroutine behind the parent; `none` if a `CHECK` fails. -/
def proceed (crypto : Crypto) (params : SessionParams) (resolver : StateResolver params.count)
    (runner : Runner params.count) (candidate : Candidate params.count)
    (notarCert : Certificate params.count) : Option (StateResolver params.count) :=
  if candidate.isEmpty then
    some (resolver.setRunner { runner with phase := .saving })
  else
    let signatureSet := match runner.finalCert with
      | some finalCert =>
        finalCert.toSignatureSet crypto params (runner.finalCandidate.getD candidate)
      | none => notarCert.toSignatureSet crypto params candidate
    signatureSet.map fun signatureSet =>
      { resolver.setRunner { runner with phase := .publishing } with
        published := resolver.published ++ [(candidate, signatureSet)] }

/-- Whether the final certificate is for the candidate of the coroutine itself. -/
def Runner.adopts (runner : Runner n) : Bool :=
  runner.finalCert.isSome && runner.finalCandidate.isNone

def Runner.adopt (runner : Runner n) (candidate : Candidate n) : Runner n :=
  if runner.adopts then { runner with finalCandidate := some candidate } else runner

def resumeWithCandidate (crypto : Crypto) (params : SessionParams) (isMasterchain : Bool)
    (resolver : StateResolver params.count) (runner : Runner params.count)
    (candidate : Candidate params.count) (notarCert : Certificate params.count) : Option (StateResolver params.count) :=
  if runner.adopts ∧ runner.finalCert.map (·.vote) ≠ some (.finalize runner.id) then
    none
  else
    let runner := runner.adopt candidate
    match candidate.parentId with
    | none => resolver.proceed crypto params runner candidate notarCert
    | some parent =>
      let resolver := resolver.setRunner { runner with phase := .waiting candidate notarCert }
      some (if candidate.isEmpty then
        resolver.finalizeBlocks isMasterchain parent runner.finalCert runner.finalCandidate (.child runner.id)
      else
        resolver.finalizeBlocks isMasterchain parent none none (.child runner.id))

def resumeWithParent (crypto : Crypto) (params : SessionParams)
    (resolver : StateResolver params.count) (runner : Runner params.count)
    (candidate : Candidate params.count) (notarCert : Certificate params.count) (isOk : Bool) :
    Option (StateResolver params.count) :=
  let resolver := { resolver with returned := resolver.returned.erase (runner.id, isOk) }
  if isOk then resolver.proceed crypto params runner candidate notarCert
  else some (resolver.finish runner.id false)

def startUp (finalized : List CandidateId) : StateResolver n where
  finalizedBlocks id := if id ∈ finalized then some { done := true } else none

end StateResolver

/-! ### With the database -/

/-- What happened so far. No actor reads it. -/
inductive FinalizerEntry (n : Nat) where
  | observed (id : CandidateId) (finalCert : Certificate n)
  | published (candidate : Candidate n) (signatureSet : BlockSignatureSet)
  | completed (id : CandidateId)
  | failed (id : CandidateId)
  | done (id : CandidateId)
  | restarted
deriving DecidableEq, Repr

/-- The resolver, the finalized blocks on the disk and the history. -/
structure Finalizer (n : Nat) where
  resolver : StateResolver n
  disk : List CandidateId := []
  log : List (FinalizerEntry n) := []

namespace Finalizer

open StateResolver

variable {n : Nat}

inductive Event (n : Nat) where
  | finalizationObserved (id : CandidateId) (finalCert : Certificate n)
  | candidateResolved (runner : Runner n) (candidate : Candidate n) (notarCert : Certificate n)
  | resolutionFailed (runner : Runner n)
  | parentReturned (runner : Runner n) (candidate : Candidate n) (notarCert : Certificate n)
      (isOk : Bool)
  | blockFinalized (runner : Runner n)
  | blockFailed (runner : Runner n)
  | commit (runner : Runner n)
  | saved (runner : Runner n)
  | saveFailed (runner : Runner n)
  | restart
deriving DecidableEq

def record (finalizer : Finalizer n) (entries : List (FinalizerEntry n)) : Finalizer n :=
  { finalizer with log := finalizer.log ++ entries }

/-- The new state of the resolver, with its requests in the history. -/
def adopt (finalizer : Finalizer n) (resolver : StateResolver n) : Finalizer n :=
  ({ finalizer with resolver } : Finalizer n).record (resolver.published.map fun request => .published request.1 request.2)

def handleEvent (crypto : Crypto) (params : SessionParams) (isMasterchain : Bool)
    (finalizer : Finalizer params.count) : Event params.count → Option (Finalizer params.count) :=
  let resolver := { finalizer.resolver with published := [] }
  fun
  | .finalizationObserved id finalCert =>
    some ((finalizer.adopt (resolver.finalizeBlocks isMasterchain id (some finalCert) none
      .observer)).record [.observed id finalCert])
  | .candidateResolved runner candidate notarCert =>
    (resolver.resumeWithCandidate crypto params isMasterchain runner candidate notarCert).map finalizer.adopt
  | .resolutionFailed runner => some (finalizer.adopt (resolver.finish runner.id false))
  | .parentReturned runner candidate notarCert isOk =>
    (resolver.resumeWithParent crypto params runner candidate notarCert isOk).map finalizer.adopt
  | .blockFinalized runner =>
    some ((finalizer.adopt (resolver.setRunner { runner with phase := .saving })).record [.completed runner.id])
  | .blockFailed runner =>
    some ((finalizer.adopt (resolver.finish runner.id false)).record [.failed runner.id])
  | .commit runner => some { finalizer with disk := runner.id :: finalizer.disk }
  | .saved runner =>
    some ((finalizer.adopt (resolver.finish runner.id true)).record [.done runner.id])
  | .saveFailed runner => some (finalizer.adopt (resolver.finish runner.id false))
  | .restart =>
    some (({ finalizer with resolver := .startUp finalizer.disk } : Finalizer _).record [.restarted])

/-- Awaits are answered to coroutines that wait. An id is resolved to its candidate,
and certificates name what they are for. -/
def Enabled (crypto : Crypto) (params : SessionParams)
    (candidates : CandidateId → Candidate params.count) (finalizer : Finalizer params.count) :
    Event params.count → Prop
  | .finalizationObserved id finalCert => finalCert.vote = .finalize id
  | .candidateResolved runner candidate notarCert =>
    runner ∈ finalizer.resolver.runners ∧ runner.phase = .resolving ∧
      candidate = candidates runner.id ∧ candidate.id = runner.id ∧
      params.Genuine crypto candidate ∧ notarCert.vote = .notarize runner.id
  | .resolutionFailed runner =>
    runner ∈ finalizer.resolver.runners ∧ runner.phase = .resolving
  | .parentReturned runner candidate notarCert isOk =>
    runner ∈ finalizer.resolver.runners ∧ runner.phase = .waiting candidate notarCert ∧
      (runner.id, isOk) ∈ finalizer.resolver.returned
  | .blockFinalized runner | .blockFailed runner =>
    runner ∈ finalizer.resolver.runners ∧ runner.phase = .publishing
  | .commit runner | .saveFailed runner =>
    runner ∈ finalizer.resolver.runners ∧ runner.phase = .saving
  | .saved runner =>
    runner ∈ finalizer.resolver.runners ∧ runner.phase = .saving ∧ runner.id ∈ finalizer.disk
  | .restart => True

/-- Runs of the finalizer of a session from its empty database on. -/
inductive Run (crypto : Crypto) (params : SessionParams) (isMasterchain : Bool)
    (candidates : CandidateId → Candidate params.count) : Finalizer params.count → Prop where
  | start : Run crypto params isMasterchain candidates { resolver := .startUp [] }
  | step {finalizer next : Finalizer params.count} {event : Event params.count} :
      Run crypto params isMasterchain candidates finalizer →
      finalizer.Enabled crypto params candidates event →
      finalizer.handleEvent crypto params isMasterchain event = some next →
      Run crypto params isMasterchain candidates next

end Finalizer

end TonNode.Simplex
