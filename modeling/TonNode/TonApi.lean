import TonNode.Simplex.Votes

/-!
# TL objects of the consensus

The objects of `ton_api.tl` that validators hash and sign, and their boxed
serialization. A TL integer is the value of the source integer it is cast from,
reduced to its width when it is stored. Constructor numbers are the CRC-32 of
the schema lines.
-/

namespace TonNode.TonApi

open Consensus Simplex

/-! ### Primitive values -/

def littleEndian : Nat → Nat → BufferSlice
  | 0, _ => []
  | count + 1, value => UInt8.ofNat value :: littleEndian count (value / 256)

def storeInt (value : Int) : BufferSlice := littleEndian 4 (value % 2 ^ 32).toNat

def storeLong (value : Int) : BufferSlice := littleEndian 8 (value % 2 ^ 64).toNat

def storeInt256 (value : Bits256) : BufferSlice := (littleEndian 32 value).reverse

/-- The length in one, four or eight bytes, the data and zeros up to a multiple of four. -/
def storeString (data : BufferSlice) : BufferSlice :=
  let header : BufferSlice :=
    if data.length < 254 then
      [UInt8.ofNat data.length]
    else if data.length < 2 ^ 24 then
      254 :: littleEndian 3 data.length
    else
      255 :: littleEndian 7 data.length
  let stored := header ++ data
  stored ++ List.replicate ((4 - stored.length % 4) % 4) 0

def storeVector {α : Type} (store : α → BufferSlice) (items : List α) : BufferSlice :=
  storeInt items.length ++ items.flatMap store

/-! ### Objects -/

inductive CandidateParent where
  | candidateParent (id : CandidateId)
  | candidateWithoutParents
deriving DecidableEq, Repr

inductive CandidateHashData where
  | candidateHashDataOrdinary (block : BlockIdExt) (collatedFileHash : Bits256)
      (parent : CandidateParent)
  | candidateHashDataEmpty (block : BlockIdExt) (parent : CandidateId)
deriving DecidableEq, Repr

def storeBlockIdExt (block : BlockIdExt) : BufferSlice :=
  storeInt block.workchain ++ storeLong block.shard ++ storeInt block.seqno ++
    storeInt256 block.rootHash ++ storeInt256 block.fileHash

/-- The bare object; the boxed one has the constructor number before it. -/
def storeCandidateId (id : CandidateId) : BufferSlice := storeInt id.slot ++ storeInt256 id.hash

def storeBoxedCandidateId (id : CandidateId) : BufferSlice :=
  storeInt 0xb691cd3f ++ storeCandidateId id

def storeCandidateParent : CandidateParent → BufferSlice
  | .candidateParent id => storeInt 0x1a4b9af1 ++ storeBoxedCandidateId id
  | .candidateWithoutParents => storeInt 0x22cbcca9

def storeCandidateHashData : CandidateHashData → BufferSlice
  | .candidateHashDataOrdinary block collatedFileHash parent =>
    storeInt 0xe8f9bcdc ++ storeBlockIdExt block ++ storeInt256 collatedFileHash ++ storeCandidateParent parent
  | .candidateHashDataEmpty block parent =>
    storeInt 0x72b4d933 ++ storeBlockIdExt block ++ storeCandidateId parent

def storeNotarizeVote (id : CandidateId) : BufferSlice :=
  storeInt 0xcdf605a8 ++ storeBoxedCandidateId id

def storeFinalizeVote (id : CandidateId) : BufferSlice :=
  storeInt 0x40a7e105 ++ storeBoxedCandidateId id

def storeSkipVote (slot : Nat) : BufferSlice := storeInt 0x2f6b1f26 ++ storeInt slot

def storeDataToSign (sessionId : Bits256) (data : BufferSlice) : BufferSlice :=
  storeInt 0xa8e33df8 ++ storeInt256 sessionId ++ storeString data

def storeVoteSignature (signature : TlVoteSignature) : BufferSlice :=
  storeInt 0xa264a978 ++ storeInt signature.who ++ storeString signature.signature

def storeVoteSignatureSet (signatures : List TlVoteSignature) : BufferSlice :=
  storeInt 0x365ee1f8 ++ storeVector storeVoteSignature signatures

def storeBlockId (rootHash fileHash : Bits256) : BufferSlice :=
  storeInt 0xc50b6e70 ++ storeInt256 rootHash ++ storeInt256 fileHash

def storePublicKeyEd25519 (key : Bits256) : BufferSlice := storeInt 0x4813b4c6 ++ storeInt256 key

end TonNode.TonApi

namespace TonNode

open Consensus Simplex TonApi

/-! ### Conversions of the consensus types -/

def Consensus.parentIdToTl : ParentId → CandidateParent
  | none => .candidateWithoutParents
  | some parent => .candidateParent parent

/-- An empty candidate without parent has no TL form; none is ever constructed. -/
def Consensus.CandidateHashData.toTl (data : Consensus.CandidateHashData) : Option TonApi.CandidateHashData :=
  match data.candidate with
  | .empty reference => data.parent.map (.candidateHashDataEmpty reference)
  | .full id collatedFileHash =>
    some (.candidateHashDataOrdinary id collatedFileHash (parentIdToTl data.parent))

def Consensus.CandidateBlock.blockId : CandidateBlock → BlockIdExt
  | .empty reference => reference
  | .full id _ => id

def Consensus.Candidate.blockId {n : Nat} (candidate : Candidate n) : BlockIdExt :=
  candidate.block.blockId

def Simplex.Vote.store : Vote → BufferSlice
  | .notarize id => storeNotarizeVote id
  | .finalize id => storeFinalizeVote id
  | .skip slot => storeSkipVote slot

def Simplex.DataToSign.store : DataToSign → BufferSlice
  | .vote unsigned => unsigned.store
  | .candidate id => storeBoxedCandidateId id

def Simplex.DbRecord.store {n : Nat} : DbRecord n → BufferSlice
  | .vote unsigned => unsigned.store
  | .certificate cert =>
    storeInt 0xbe7b573a ++ cert.vote.store ++ storeVoteSignatureSet
      (cert.signatures.map fun signature =>
        { who := signature.validator.val, signature := signature.signature })

end TonNode
