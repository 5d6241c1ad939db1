import TonNode.Consensus.BlockProducer
import TonNode.Simplex.ConsensusImpl
import TonNode.Simplex.Storage

/-!
# One validator

The actors of a validator together with the events on their way between them.
Votes reach the database in the order they are published; other events reach
their handler in any order. A crash loses everything but the disk.
-/

namespace TonNode.Simplex

open Consensus

variable {n : Nat}

inductive Mail (n : Nat) where
  | consensus (event : ConsensusImpl.Event n)
  | waitForParent (candidate : Candidate n)
  | ourLeaderWindowStarted (base : ParentId) (startSlot endSlot : Nat)
deriving DecidableEq

/-- What a validator has handed to its keyring and reported since its first start.
No actor reads it. -/
structure Record (n : Nat) where
  cast : List Vote := []
  proposed : List CandidateId := []
  reports : List (Fin n × Misbehavior n) := []
deriving DecidableEq

def Published.mail? : Published n → Option (Mail n)
  | .notarizationObserved id _ => some (.consensus (.notarizationObserved id))
  | .finalizationObserved id _ => some (.consensus (.finalizationObserved id))
  | .parentResolved request answer =>
    some (.consensus (.parentResolved request.candidateForProof answer))
  | _ => none

def Published.report? : Published n → Option (Fin n × Misbehavior n)
  | .misbehaviorReport validator misbehavior => some (validator, misbehavior)
  | _ => none

namespace ConsensusImpl.Output

def vote? : Output n → Option Vote
  | .broadcastVote vote => some vote
  | _ => none

def mail? : Output n → Option (Mail n)
  | .waitForParent candidate => some (.waitForParent candidate)
  | .ourLeaderWindowStarted base startSlot endSlot =>
    some (.ourLeaderWindowStarted base startSlot endSlot)
  | _ => none

def report? : Output n → Option (Fin n × Misbehavior n)
  | .misbehaviorReport validator misbehavior => some (validator, misbehavior)
  | _ => none

end ConsensusImpl.Output

end TonNode.Simplex

namespace TonNode.Consensus.BlockProducer.Output

open Simplex

variable {n : Nat}

def mail? : Output n → Option (Mail n)
  | .candidateReceived candidate => some (.consensus (.candidateReceived candidate))
  | _ => none

def signed? : Output n → Option CandidateId
  | .signMessage id => some id
  | _ => none

end TonNode.Consensus.BlockProducer.Output

namespace TonNode.Simplex

open Consensus

variable {n : Nat}

structure Node (n : Nat) where
  storage : Storage n
  consensus : ConsensusImpl n
  producer : BlockProducer n := {}
  /-- Votes the database has not handled yet, oldest first. -/
  broadcasts : List Vote := []
  mail : List (Mail n) := []
  record : Record n := {}

namespace Node

def cast (node : Node n) (votes : List Vote) : Node n :=
  { node with record := { node.record with cast := node.record.cast ++ votes } }

def report (node : Node n) (reports : List (Fin n × Misbehavior n)) : Node n :=
  { node with record := { node.record with reports := node.record.reports ++ reports } }

def propose (node : Node n) (ids : List CandidateId) : Node n :=
  { node with record := { node.record with proposed := node.record.proposed ++ ids } }

def post (node : Node n) (mail : List (Mail n)) : Node n :=
  { node with mail := node.mail ++ mail }

def take (node : Node n) (mail : Mail n) : Node n :=
  { node with mail := node.mail.erase mail }

def publishFromPool (node : Node n) : Node n :=
  let events := node.storage.pool.published
  (node.post (events.filterMap Published.mail?)).report (events.filterMap Published.report?)

def queueVotes (node : Node n) (votes : List Vote) : Node n :=
  { node with broadcasts := node.broadcasts ++ votes }

def publishFromConsensus (node : Node n) : Node n :=
  let outputs := node.consensus.published
  ((node.queueVotes (outputs.filterMap (·.vote?))).post (outputs.filterMap (·.mail?))).report (outputs.filterMap (·.report?))

def publishFromProducer (node : Node n) : Node n :=
  let outputs := node.producer.published
  (node.post (outputs.filterMap (·.mail?))).propose (outputs.filterMap (·.signed?))

def poolMail? : Pool.Event n → Option (Mail n)
  | .waitForParent candidate => some (.waitForParent candidate)
  | _ => none

def producerMail? : BlockProducer.Event → Option (Mail n)
  | .ourLeaderWindowStarted base startSlot endSlot =>
    some (.ourLeaderWindowStarted base startSlot endSlot)
  | _ => none

def takeAny (node : Node n) : Option (Mail n) → Node n
  | none => node
  | some mail => node.take mail

def poolStep (bus : Bus n) (node : Node n) (event : Pool.Event n) : Except Check (Node n) := do
  let storage ← node.storage.poolStep bus event
  return ({ node.takeAny (poolMail? event) with storage } : Node n).publishFromPool

def consensusStep (bus : Bus n) (node : Node n) (event : ConsensusImpl.Event n) : Except Check (Node n) := do
  let consensus ← node.consensus.step bus event
  return ({ node.take (.consensus event) with consensus } : Node n).publishFromConsensus

def producerStep (bus : Bus n) (node : Node n) (event : BlockProducer.Event) : Except Check (Node n) := do
  let producer ← node.producer.step bus event
  return ({ node.takeAny (producerMail? event) with producer } : Node n).publishFromProducer

def deliverVote (session : Session n) (node : Node n) : Node n :=
  match node.broadcasts with
  | [] => node
  | vote :: rest =>
    { node with storage := node.storage.broadcastVote session vote, broadcasts := rest }

/-- A durable vote goes to the keyring, a durable window to the consensus actor. -/
def complete (bus : Bus n) (node : Node n) (write : Write n) : Except Check (Node n) := do
  let storage ← node.storage.complete bus write
  let node : Node n := { node with storage }
  match write with
  | .ourVote _ vote _ => return (node.cast [vote]).publishFromPool
  | .cert _ _ => return node.publishFromPool
  | .poolState startSlot base _ =>
    return node.post [.consensus (.leaderWindowObserved startSlot base)]

def refuse (bus : Bus n) (node : Node n) (cert : Certificate n) : Except Check (Node n) := do
  let storage ← node.storage.refuse bus cert
  return ({ node with storage } : Node n).publishFromPool

/-- A new process on the contents of a disk, `entries` being its vote table in the
order it is read. -/
def launch (bus : Bus n) (params : NoncriticalParams) (disk : Disk)
    (entries : List (Bits256 × DbValue)) (record : Record n) : Except Check (Node n) := do
  let (db, bootstrap) ← Db.init bus.toSession disk.poolState entries
  let storage ← Storage.boot bus params disk db bootstrap
  let consensus := ConsensusImpl.startUp bus.toSession params.maxLeaderWindowDesync bootstrap
  let node : Node n := { storage, consensus, record }
  return ((node.cast (storage.pool.ourVotes.map (·.vote))).publishFromPool).publishFromConsensus

inductive Event (n : Nat) where
  | pool (event : Pool.Event n)
  | consensus (event : ConsensusImpl.Event n)
  | producer (event : BlockProducer.Event)
  | deliverVote
  | commit
  | complete (write : Write n)
  | refuse (cert : Certificate n)
  | restart (params : NoncriticalParams) (entries : List (Bits256 × DbValue))
deriving DecidableEq

def handleEvent (bus : Bus n) (node : Node n) : Event n → Except Check (Node n)
  | .pool event => node.poolStep bus event
  | .consensus event => node.consensusStep bus event
  | .producer event => node.producerStep bus event
  | .deliverVote => .ok (node.deliverVote bus.toSession)
  | .commit => .ok { node with storage := node.storage.commit }
  | .complete write => node.complete bus write
  | .refuse cert => node.refuse bus cert
  | .restart params entries => launch bus params node.storage.disk entries node.record

/-- Completions resume somebody who waits, and a restart reads the table in some
order. -/
def Enabled (bus : Bus n) (node : Node n) : Event n → Prop
  | .pool event => event.isExternal = true ∧ node.storage.pool.Enabled bus event
  | .consensus event => node.consensus.Enabled event
  | .producer event => node.producer.Enabled bus event
  | .deliverVote => True
  | .commit => True
  | .complete write => write ∈ node.storage.completed
  | .refuse cert => cert ∈ node.storage.refused
  | .restart _ entries => entries.Perm node.storage.disk.votes

instance (bus : Bus n) (node : Node n) : (event : Event n) → Decidable (node.Enabled bus event)
  | .pool event => inferInstanceAs
      (Decidable (event.isExternal = true ∧ node.storage.pool.Enabled bus event))
  | .consensus event => inferInstanceAs (Decidable (node.consensus.Enabled event))
  | .producer event => inferInstanceAs (Decidable (node.producer.Enabled bus event))
  | .deliverVote | .commit => isTrue trivial
  | .complete write => inferInstanceAs (Decidable (write ∈ node.storage.completed))
  | .refuse cert => inferInstanceAs (Decidable (cert ∈ node.storage.refused))
  | .restart _ entries => inferInstanceAs (Decidable (entries.Perm node.storage.disk.votes))

end Node

/-- A signature that passes the check, on a vote `signed` allows the validator. -/
def Session.Genuine (session : Session n) (signed : Fin n → Vote → Prop) (validator : Fin n)
    (vote : Vote) (signature : BufferSlice) : Prop :=
  session.Verifies validator vote signature ∧ signed validator vote

def Pool.Event.Unforged (session : Session n) (signed : Fin n → Vote → Prop) :
    Pool.Event n → Prop
  | .incomingProtocolMessage source (.vote vote signature) _ =>
    session.Verifies source vote signature → signed source vote
  | .incomingProtocolMessage _ (.certificate certificate) _ =>
    certificate.Vouched session (session.Genuine signed)
  | _ => True

namespace Node

def Event.Unforged (session : Session n) (signed : Fin n → Vote → Prop) : Event n → Prop
  | .pool event => event.Unforged session signed
  | _ => True

/-- The local key signs nothing but what this validator has cast. -/
def Signed (bus : Bus n) (node : Node n) (validator : Fin n) (vote : Vote) : Prop :=
  validator = bus.localId → vote ∈ node.record.cast

/-- Votes the database handles in a step. -/
def delivered (node : Node n) : Event n → List Vote
  | .deliverVote => node.broadcasts.take 1
  | _ => []

/-- Everything that can happen to a validator from an empty disk on, whatever its consensus
actor receives, with `records` containing all the records that are to be saved. -/
inductive Run (bus : Bus n) (records : Set (DbRecord n)) : Node n → Prop where
  | start {params : NoncriticalParams} {node : Node n} :
      launch bus params {} [] {} = .ok node → Run bus records node
  | step {node next : Node n} {event : Event n} :
      Run bus records node → node.Enabled bus event →
      event.Unforged bus.toSession (node.Signed bus) →
      node.handleEvent bus event = .ok next →
      Storage.Hands records (node.delivered event) next.storage.pool → Run bus records next

end Node

end TonNode.Simplex
