import TonNode.Simplex.State
import TonNode.Simplex.Votes

/-!
# The block producer

`BlockProducerImpl` generates one candidate per slot of a leader window, each on
top of the previous one. The collator and the clock decide when a slot gets a
full block, an empty block or another attempt.
-/

namespace TonNode.Consensus

open Simplex

variable {n : Nat}

/-- The locals of a suspended `generate_candidates`. -/
structure Generation where
  window : Nat
  slot : Nat
  endSlot : Nat
  parent : ParentId
  /-- The candidate whose id is with the keyring. -/
  signing : Option (CandidateId × CandidateBlock) := none
deriving DecidableEq, Repr

namespace BlockProducer

inductive Output (n : Nat) where
  | signMessage (id : CandidateId)
  | candidateGenerated (candidate : Candidate n)
  | candidateReceived (candidate : Candidate n)
deriving DecidableEq, Repr

end BlockProducer

structure BlockProducer (n : Nat) where
  currentLeaderWindow : Option Nat := none
  /-- Suspended `generate_candidates` coroutines. -/
  generations : List Generation := []
  /-- Effects of the event being handled, in order. -/
  published : List (BlockProducer.Output n) := []
deriving DecidableEq, Repr

namespace BlockProducer

def publish (producer : BlockProducer n) (output : Output n) : BlockProducer n :=
  { producer with published := producer.published ++ [output] }

def suspend (producer : BlockProducer n) (generation : Generation) : BlockProducer n :=
  { producer with generations := producer.generations ++ [generation] }

def wake (producer : BlockProducer n) (generation : Generation) : BlockProducer n :=
  { producer with generations := producer.generations.erase generation }

def leave (producer : BlockProducer n) (generation : Generation) : BlockProducer n :=
  if producer.currentLeaderWindow = some generation.window then
    { producer with currentLeaderWindow := none }
  else
    producer

/-- The loop condition and the wait for the collator. -/
def enterLoop (producer : BlockProducer n) (generation : Generation) : BlockProducer n :=
  if producer.currentLeaderWindow = some generation.window ∧
      generation.slot < generation.endSlot then
    producer.suspend generation
  else
    producer.leave generation

def handleOurLeaderWindowStarted (producer : BlockProducer n) (base : ParentId)
    (startSlot endSlot : Nat) : Except Check (BlockProducer n) :=
  if producer.currentLeaderWindow.all (· < startSlot) then
    .ok (({ producer with currentLeaderWindow := some startSlot } : BlockProducer n).enterLoop
      { window := startSlot, slot := startSlot, endSlot, parent := base })
  else
    .error .leaderWindowIncreasing

def hashData (generation : Generation) : CandidateBlock → Except Check CandidateHashData
  | .full id collatedFileHash => .ok (.createFull id collatedFileHash generation.parent)
  | .empty reference =>
    match generation.parent with
    | none => .error .parentPresent
    | some parent => .ok (.createEmpty reference parent)

def requestSignature (session : Session n) (producer : BlockProducer n)
    (generation : Generation) (block : CandidateBlock) : Except Check (BlockProducer n) := do
  let data ← hashData generation block
  let id := data.buildIdWith session.candidateHash generation.slot
  return (producer.suspend { generation with signing := some (id, block) }).publish
    (.signMessage id)

/-- The collator has a block for the slot, or the slot is to stay empty. -/
def resumeWithBlock (session : Session n) (producer : BlockProducer n)
    (generation : Generation) (block : CandidateBlock) : Except Check (BlockProducer n) :=
  let producer := producer.wake generation
  if producer.currentLeaderWindow ≠ some generation.window then
    .ok producer
  else
    producer.requestSignature session generation block

def signedCandidate (bus : Bus n) (generation : Generation) (id : CandidateId)
    (block : CandidateBlock) (signature : BufferSlice) : Candidate n where
  id := id
  parentId := generation.parent
  leader := bus.localId
  block := block
  signature := signature

def publishCandidate (producer : BlockProducer n) (candidate : Candidate n) : BlockProducer n :=
  (producer.publish (.candidateGenerated candidate)).publish (.candidateReceived candidate)

def resumeWithSignature (bus : Bus n) (producer : BlockProducer n) (generation : Generation)
    (signature : BufferSlice) : BlockProducer n :=
  let producer := producer.wake generation
  match generation.signing with
  | none => producer
  | some (id, block) =>
    if producer.currentLeaderWindow ≠ some generation.window then
      producer
    else
      (producer.publishCandidate (signedCandidate bus generation id block signature)).enterLoop
        { generation with parent := some id, slot := generation.slot + 1, signing := none }

/-- What the actor is resumed with. A failed collation that does not allow an empty
block is `collationRetried`. -/
inductive Event where
  | ourLeaderWindowStarted (base : ParentId) (startSlot endSlot : Nat)
  | blockChosen (generation : Generation) (block : CandidateBlock)
  | collationRetried (generation : Generation)
  | keyringSigned (generation : Generation) (signature : BufferSlice)
  | keyringFailed (generation : Generation)
deriving DecidableEq, Repr

def handleEvent (bus : Bus n) (producer : BlockProducer n) :
    Event → Except Check (BlockProducer n)
  | .ourLeaderWindowStarted base startSlot endSlot =>
    producer.handleOurLeaderWindowStarted base startSlot endSlot
  | .blockChosen generation block => producer.resumeWithBlock bus.toSession generation block
  | .collationRetried generation => .ok ((producer.wake generation).enterLoop generation)
  | .keyringSigned generation signature =>
    .ok (producer.resumeWithSignature bus generation signature)
  | .keyringFailed generation => .ok (producer.wake generation)

/-- One event; `published` afterwards holds what this event published. -/
def step (bus : Bus n) (producer : BlockProducer n) (event : Event) : Except Check (BlockProducer n) :=
  ({ producer with published := [] } : BlockProducer n).handleEvent bus event

def Signs (bus : Bus n) (generation : Generation) (signature : BufferSlice) : Prop :=
  ∃ pending ∈ generation.signing, bus.checkSignature bus.localId (.candidate pending.1) signature = true

instance (bus : Bus n) (generation : Generation) (signature : BufferSlice) :
    Decidable (Signs bus generation signature) :=
  inferInstanceAs (Decidable (∃ pending ∈ generation.signing, _))

/-- Completions resume a suspended coroutine and the keyring signs correctly. -/
def Enabled (bus : Bus n) (producer : BlockProducer n) : Event → Prop
  | .ourLeaderWindowStarted _ _ _ => True
  | .blockChosen generation _ => generation ∈ producer.generations ∧ generation.signing = none
  | .collationRetried generation =>
    generation ∈ producer.generations ∧ generation.signing = none
  | .keyringSigned generation signature =>
    generation ∈ producer.generations ∧ Signs bus generation signature
  | .keyringFailed generation =>
    generation ∈ producer.generations ∧ generation.signing.isSome = true

instance (bus : Bus n) (producer : BlockProducer n) :
    (event : Event) → Decidable (producer.Enabled bus event)
  | .ourLeaderWindowStarted _ _ _ => isTrue trivial
  | .blockChosen generation _ | .collationRetried generation =>
    inferInstanceAs (Decidable (generation ∈ producer.generations ∧ generation.signing = none))
  | .keyringSigned generation signature =>
    inferInstanceAs (Decidable (generation ∈ producer.generations ∧ Signs bus generation signature))
  | .keyringFailed generation =>
    inferInstanceAs (Decidable (generation ∈ producer.generations ∧ generation.signing.isSome = true))

end BlockProducer

end TonNode.Consensus
