import TonNode.Simplex.Pool

/-!
# The pool with its database

`DbImpl` refuses to write a vote or a certificate twice and restores what other
actors need after a restart. A failed write only occurs while the whole group is
shutting down and is not modelled.

Requests to the database are handled in the order they are sent and become
durable in that order. Answers reach the pool in any order. A crash loses
everything but the disk.
-/

namespace TonNode.Simplex

open Consensus

variable {n : Nat}

inductive DbValue where
  | ourVote (vote : Vote) (seqno : Nat)
  | cert (certificate : TlCertificate)
deriving DecidableEq, Repr

structure Disk where
  poolState : Option Nat := none
  votes : List (Bits256 × DbValue) := []
deriving DecidableEq, Repr

/-- A `set` request together with the event whose publisher waits for it. -/
inductive Write (n : Nat) where
  | ourVote (key : Bits256) (vote : Vote) (seqno : Nat)
  | cert (key : Bits256) (certificate : Certificate n)
  | poolState (startSlot : Nat) (base : ParentId) (firstNonannouncedWindow : Nat)
deriving DecidableEq, Repr

namespace Disk

def set (disk : Disk) (key : Bits256) (value : DbValue) : Disk :=
  { disk with votes := disk.votes.filter (·.1 ≠ key) ++ [(key, value)] }

def apply (disk : Disk) : Write n → Disk
  | .ourVote key vote seqno => disk.set key (.ourVote vote seqno)
  | .cert key certificate => disk.set key (.cert certificate.toTl)
  | .poolState _ _ firstNonannouncedWindow =>
    { disk with poolState := some firstNonannouncedWindow }

end Disk

structure Db where
  savedVotes : Finset Bits256 := ∅
  firstNonannouncedWindow : Nat := 0
  nextSeqno : Nat := 0
deriving DecidableEq

namespace Db

def remember (db : Db) (hash : Bits256) : Db :=
  { db with savedVotes := insert hash db.savedVotes }

def processBroadcastVote (session : Session n) (db : Db) (vote : Vote) : Except String (Write n × Db) :=
  let hash := session.recordHash (.vote vote)
  if hash ∈ db.savedVotes then
    .error "Vote was already casted"
  else
    .ok (.ourVote hash vote db.nextSeqno, { db.remember hash with nextSeqno := db.nextSeqno + 1 })

def processSaveCertificate (session : Session n) (db : Db) (cert : Certificate n) : Except String (Write n × Db) :=
  let hash := session.recordHash (.certificate cert)
  if hash ∈ db.savedVotes then
    .error "Certificate was already saved"
  else
    .ok (.cert hash cert, db.remember hash)

def processLeaderWindowObserved (session : Session n) (db : Db) (startSlot : Nat)
    (base : ParentId) : Except Check (Write n × Db) :=
  let window := startSlot / session.slotsPerLeaderWindow
  if db.firstNonannouncedWindow ≤ window then
    .ok (.poolState startSlot base (window + 1), { db with firstNonannouncedWindow := window + 1 })
  else
    .error .windowNotAnnounced

/-! ### Restoring the state -/

def ourVotes (entries : List (Bits256 × DbValue)) : List (Nat × Vote) :=
  entries.filterMap fun entry =>
    match entry.2 with
    | .ourVote vote seqno => some (seqno, vote)
    | .cert _ => none

def readCertificates (session : Session n) :
    List (Bits256 × DbValue) → Except Check (List (Certificate n))
  | [] => .ok []
  | (_, .ourVote _ _) :: rest => readCertificates session rest
  | (_, .cert certificate) :: rest =>
    match Certificate.fromTl session certificate with
    | .error _ => .error .storedCertificateValid
    | .ok cert => do
      let certs ← readCertificates session rest
      return cert :: certs

/-- The constructor of `DbImpl`, given the table in the order it is read. -/
def init (session : Session n) (poolState : Option Nat) (entries : List (Bits256 × DbValue)) :
    Except Check (Db × Pool.Bootstrap n) := do
  let certificates ← readCertificates session entries
  let votes := (ourVotes entries).insertionSort (fun left right => left.1 ≤ right.1)
  let nextSeqno := match votes.getLast? with
    | none => 0
    | some last => last.1 + 1
  let firstNonannouncedWindow := poolState.getD 0
  return ({ savedVotes := (entries.map (·.1)).toFinset, firstNonannouncedWindow, nextSeqno },
    { firstNonannouncedWindow, certificates, votes := votes.map (·.2) })

end Db

/-! ### With the pool -/

structure Storage (n : Nat) where
  disk : Disk
  db : Db
  pool : Pool n
  /-- Writes handed to the key-value store, oldest first. -/
  writes : List (Write n) := []
  /-- Durable writes whose publisher has not been resumed. -/
  completed : List (Write n) := []
  /-- Certificates the database refused to save. -/
  refused : List (Certificate n) := []

namespace Storage

def accept (storage : Storage n) (write : Write n) (db : Db) : Storage n :=
  { storage with db, writes := storage.writes ++ [write] }

def saveCertificate (session : Session n) (storage : Storage n) (cert : Certificate n) : Storage n :=
  match storage.db.processSaveCertificate session cert with
  | .ok (write, db) => storage.accept write db
  | .error _ => { storage with refused := storage.refused ++ [cert] }

def broadcastVote (session : Session n) (storage : Storage n) (vote : Vote) : Storage n :=
  match storage.db.processBroadcastVote session vote with
  | .ok (write, db) => storage.accept write db
  | .error _ => storage

def observeLeaderWindow (session : Session n) (storage : Storage n) (startSlot : Nat)
    (base : ParentId) : Except Check (Storage n) := do
  let (write, db) ← storage.db.processLeaderWindowObserved session startSlot base
  return storage.accept write db

def route (session : Session n) : Storage n → List (Published n) → Except Check (Storage n)
  | storage, [] => .ok storage
  | storage, .saveCertificate cert :: rest =>
    (storage.saveCertificate session cert).route session rest
  | storage, .leaderWindowObserved startSlot base :: rest => do
    let storage ← storage.observeLeaderWindow session startSlot base
    storage.route session rest
  | storage, _ :: rest => storage.route session rest

def poolStep (bus : Bus n) (storage : Storage n) (event : Pool.Event n) : Except Check (Storage n) := do
  let pool ← storage.pool.step bus event
  ({ storage with pool } : Storage n).route bus.toSession pool.published

def commit (storage : Storage n) : Storage n :=
  match storage.writes with
  | [] => storage
  | write :: rest =>
    { storage with
      disk := storage.disk.apply write
      writes := rest
      completed := storage.completed ++ [write] }

def complete (bus : Bus n) (storage : Storage n) (write : Write n) : Except Check (Storage n) :=
  let storage := { storage with completed := storage.completed.erase write }
  match write with
  | .ourVote _ vote _ => storage.poolStep bus (.broadcastVote vote)
  | .cert _ certificate => storage.poolStep bus (.certificateSaved certificate)
  | .poolState _ _ _ => .ok storage

def refuse (bus : Bus n) (storage : Storage n) (cert : Certificate n) : Except Check (Storage n) :=
  ({ storage with refused := storage.refused.erase cert } : Storage n).poolStep bus (.certificateSaveFailed cert)

def boot (bus : Bus n) (params : NoncriticalParams) (disk : Disk) (db : Db)
    (bootstrap : Pool.Bootstrap n) : Except Check (Storage n) := do
  let pool ← Pool.startUp bus params bootstrap
  ({ disk, db, pool } : Storage n).route bus.toSession pool.published

/-- A new process on the contents of the disk, `entries` being its vote table in
the order it is read. -/
def restart (bus : Bus n) (params : NoncriticalParams) (disk : Disk)
    (entries : List (Bits256 × DbValue)) : Except Check (Storage n) := do
  let (db, bootstrap) ← Db.init bus.toSession disk.poolState entries
  boot bus params disk db bootstrap

inductive Event (n : Nat) where
  | pool (event : Pool.Event n)
  | broadcastVote (vote : Vote)
  | commit
  | complete (write : Write n)
  | refuse (cert : Certificate n)
  | restart (params : NoncriticalParams) (entries : List (Bits256 × DbValue))
deriving DecidableEq

def handleEvent (bus : Bus n) (storage : Storage n) : Event n → Except Check (Storage n)
  | .pool event => storage.poolStep bus event
  | .broadcastVote vote => .ok (storage.broadcastVote bus.toSession vote)
  | .commit => .ok storage.commit
  | .complete write => storage.complete bus write
  | .refuse cert => storage.refuse bus cert
  | .restart params entries => restart bus params storage.disk entries

end Storage

/-- Events of the pool that are not answers of the database. -/
def Pool.Event.isExternal : Pool.Event n → Bool
  | .broadcastVote _ => false
  | .certificateSaved _ => false
  | .certificateSaveFailed _ => false
  | _ => true

namespace Storage

/-- Answers are given to waiting publishers only, and a restart reads the table
in some order. -/
def Enabled (bus : Bus n) (storage : Storage n) : Event n → Prop
  | .pool event => event.isExternal = true ∧ storage.pool.Enabled bus event
  | .broadcastVote _ => True
  | .commit => True
  | .complete write => write ∈ storage.completed
  | .refuse cert => cert ∈ storage.refused
  | .restart _ entries => entries.Perm storage.disk.votes

instance (bus : Bus n) (storage : Storage n) :
    (event : Event n) → Decidable (storage.Enabled bus event)
  | .pool event =>
    inferInstanceAs (Decidable (event.isExternal = true ∧ storage.pool.Enabled bus event))
  | .broadcastVote _ | .commit => isTrue trivial
  | .complete write => inferInstanceAs (Decidable (write ∈ storage.completed))
  | .refuse cert => inferInstanceAs (Decidable (cert ∈ storage.refused))
  | .restart _ entries => inferInstanceAs (Decidable (entries.Perm storage.disk.votes))

/-- Votes the database handles in a step. -/
def Event.votes : Event n → List Vote
  | .broadcastVote vote => [vote]
  | _ => []

/-- The records that a step hands to the database, refused ones included, are among `records`.
The pool has published the certificates to save. -/
structure Hands (records : Set (DbRecord n)) (votes : List Vote) (pool : Pool n) : Prop where
  votes : ∀ vote ∈ votes, .vote vote ∈ records
  certs : ∀ cert, .saveCertificate cert ∈ pool.published → .certificate cert ∈ records

lemma Hands.univ (votes : List Vote) (pool : Pool n) : Hands .univ votes pool :=
  ⟨fun _ _ => trivial, fun _ _ => trivial⟩

/-- Everything that can happen to a pool and its database from an empty disk on, with
`records` containing all the records that are to be saved. -/
inductive Run (bus : Bus n) (records : Set (DbRecord n)) : Storage n → Prop where
  | start {params : NoncriticalParams} {storage : Storage n} :
      restart bus params {} [] = .ok storage → Run bus records storage
  | step {storage next : Storage n} {event : Event n} :
      Run bus records storage → storage.Enabled bus event →
      storage.handleEvent bus event = .ok next →
      Hands records event.votes next.pool → Run bus records next

end Storage

end TonNode.Simplex
