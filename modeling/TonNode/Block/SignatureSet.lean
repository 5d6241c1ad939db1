import TonNode.Lib.ExceptBind
import TonNode.TonApi

/-!
# Block signature sets

`block::ValidatorSet` and `block::BlockSignatureSet`: which signatures accept a
block. Hashing and signature checking are parameters.
-/

namespace TonNode.Block

open Consensus Lib

structure ValidatorDescr where
  key : Bits256
  weight : Nat
  addr : Bits256
deriving DecidableEq, Repr

structure ShardIdFull where
  workchain : Int
  shard : Nat
deriving DecidableEq, Repr

structure Crypto where
  sha256 : BufferSlice → Bits256
  checkSignature : Bits256 → BufferSlice → BufferSlice → Except String Unit
  computeValidatorSetHash : Nat → ShardIdFull → List ValidatorDescr → Nat

def Crypto.shortId (crypto : Crypto) (descr : ValidatorDescr) : Bits256 :=
  crypto.sha256 (TonApi.storePublicKeyEd25519 descr.key)

/-! ### Validator sets -/

structure ValidatorSet where
  ccSeqno : Nat
  shard : ShardIdFull
  hash : Nat
  totalWeight : Nat
  ids : List ValidatorDescr
  idsMap : List (Bits256 × Nat)
deriving DecidableEq, Repr

namespace ValidatorSet

def sumWeight : List ValidatorDescr → Nat → Nat
  | [], total => total
  | descr :: rest, total => sumWeight rest (Simplex.addWeight total descr.weight)

def entryLe (left right : Nat × Nat) : Prop :=
  left.1 < right.1 ∨ left.1 = right.1 ∧ left.2 ≤ right.2

instance : DecidableRel entryLe := fun left right =>
  inferInstanceAs (Decidable (left.1 < right.1 ∨ left.1 = right.1 ∧ left.2 ≤ right.2))

def adjacentDistinct : List (Bits256 × Nat) → Bool
  | first :: second :: rest => first.1 != second.1 && adjacentDistinct (second :: rest)
  | _ => true

def entries (crypto : Crypto) (nodes : List ValidatorDescr) : List (Bits256 × Nat) :=
  nodes.zipIdx.map fun entry => (crypto.shortId entry.1, entry.2)

/-- The constructor; `none` if its `CHECK` on the short ids fails. -/
def create (crypto : Crypto) (ccSeqno : Nat) (shard : ShardIdFull) (nodes : List ValidatorDescr) : Option ValidatorSet :=
  let idsMap := (entries crypto nodes).insertionSort entryLe
  if adjacentDistinct idsMap then
    some {
      ccSeqno, shard, idsMap
      hash := crypto.computeValidatorSetHash ccSeqno shard nodes
      totalWeight := sumWeight nodes 0
      ids := nodes }
  else
    none

def getValidator (vset : ValidatorSet) (id : Bits256) : Option ValidatorDescr :=
  match vset.idsMap.dropWhile (·.1 < id) with
  | [] => none
  | entry :: _ => if entry.1 = id then vset.ids[entry.2]? else none

end ValidatorSet

/-! ### Signature sets -/

structure BlockSignature where
  node : Bits256
  signature : BufferSlice
deriving DecidableEq, Repr

inductive SignatureKind where
  | ordinary
  | simplex (sessionId : Bits256) (slot : Nat) (candidate : TonApi.CandidateHashData)
      (final : Bool)
deriving DecidableEq, Repr

structure BlockSignatureSet where
  signatures : List BlockSignature
  ccSeqno : Nat
  validatorSetHash : Nat
  kind : SignatureKind
deriving DecidableEq, Repr

namespace BlockSignatureSet

def createOrdinary (signatures : List BlockSignature) (ccSeqno validatorSetHash : Nat) : BlockSignatureSet :=
  { signatures, ccSeqno, validatorSetHash, kind := .ordinary }

def createSimplex (signatures : List BlockSignature) (ccSeqno validatorSetHash : Nat)
    (sessionId : Bits256) (slot : Nat) (candidate : TonApi.CandidateHashData) : BlockSignatureSet :=
  { signatures, ccSeqno, validatorSetHash, kind := .simplex sessionId slot candidate true }

def createSimplexApprove (signatures : List BlockSignature) (ccSeqno validatorSetHash : Nat)
    (sessionId : Bits256) (slot : Nat) (candidate : TonApi.CandidateHashData) : BlockSignatureSet :=
  { signatures, ccSeqno, validatorSetHash, kind := .simplex sessionId slot candidate false }

def isFinal (set : BlockSignatureSet) : Bool :=
  match set.kind with
  | .ordinary => true
  | .simplex _ _ _ final => final

def expectedBlockId : TonApi.CandidateHashData → BlockIdExt
  | .candidateHashDataOrdinary block _ _ => block
  | .candidateHashDataEmpty block _ => block

def toSign (crypto : Crypto) (set : BlockSignatureSet) (blockId : BlockIdExt) : Except String BufferSlice :=
  match set.kind with
  | .ordinary => .ok (TonApi.storeBlockId blockId.rootHash blockId.fileHash)
  | .simplex sessionId slot candidate final =>
    if blockId ≠ expectedBlockId candidate then
      .error "block id mismatch"
    else
      let candidateId : CandidateId :=
        { slot, hash := crypto.sha256 (TonApi.storeCandidateHashData candidate) }
      let data :=
        if final then TonApi.storeFinalizeVote candidateId
        else TonApi.storeNotarizeVote candidateId
      .ok (TonApi.storeDataToSign sessionId data)

def checkVset (set : BlockSignatureSet) (vset : ValidatorSet) : Except String Unit :=
  if vset.ccSeqno ≠ set.ccSeqno then
    .error ("catchain seqno mismatch: expected " ++ toString vset.ccSeqno ++ ", found " ++
      toString set.ccSeqno)
  else if vset.hash ≠ set.validatorSetHash then
    .error ("validator set hash mismatch: expected " ++ toString vset.hash ++ ", found " ++
      toString set.validatorSetHash)
  else
    .ok ()

/-- Both products are taken in `uint64`. -/
def checkThreshold (sigWeight totalWeight : Nat) : Bool :=
  sigWeight * 3 % 2 ^ 64 > totalWeight * 2 % 2 ^ 64

/-- The loop of `check_signatures_impl`; `check` is what it does with each signature. -/
def sumSigners (vset : ValidatorSet) (check : ValidatorDescr → BufferSlice → Except String Unit) :
    List BlockSignature → List Bits256 → Nat → Except String Nat
  | [], _, weight => .ok weight
  | signature :: rest, nodes, weight =>
    if signature.node ∈ nodes then
      .error "duplicate node"
    else
      match vset.getValidator signature.node with
      | none => .error "unknown node"
      | some validator => do
        check validator signature.signature
        sumSigners vset check rest (signature.node :: nodes) (Simplex.addWeight weight validator.weight)

def checkSignaturesImpl (crypto : Crypto) (set : BlockSignatureSet) (vset : ValidatorSet)
    (blockId : BlockIdExt) : Except String Nat := do
  set.checkVset vset
  let data ← set.toSign crypto blockId
  let weight ← sumSigners vset
    (fun validator signature => crypto.checkSignature validator.key data signature)
    set.signatures [] 0
  if checkThreshold weight vset.totalWeight then
    return weight
  else
    .error "too small sig weight"

end BlockSignatureSet

end TonNode.Block
