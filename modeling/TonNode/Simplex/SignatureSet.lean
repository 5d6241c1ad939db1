import TonNode.Block.SignatureChecks
import TonNode.Simplex.Certificate

/-!
# Certificates as block signatures

The session the bridge sets up for a validator set, and the signature sets made
from certificates of that session.
-/

namespace TonNode.Simplex

open Consensus Lib Block BlockSignatureSet

structure SessionParams where
  vset : ValidatorSet
  sessionId : Bits256
  slotsPerLeaderWindow : Nat

namespace SessionParams

/-- Validators of the bus are those of the set, in its order. -/
abbrev count (params : SessionParams) : Nat := params.vset.ids.length

def checkSignature (crypto : Crypto) (params : SessionParams) (validator : Fin params.count)
    (data signature : BufferSlice) : Bool :=
  (crypto.checkSignature (params.vset.ids.get validator).key (TonApi.storeDataToSign params.sessionId data) signature).isOk

def candidateHash (crypto : Crypto) (data : CandidateHashData) : Bits256 :=
  match data.toTl with
  | some object => crypto.sha256 (TonApi.storeCandidateHashData object)
  | none => 0

def session (crypto : Crypto) (params : SessionParams) : Session params.count where
  weight := params.vset.weight
  slotsPerLeaderWindow := params.slotsPerLeaderWindow
  checkSignature validator data signature := params.checkSignature crypto validator data.store signature
  candidateHash := candidateHash crypto
  recordHash record := crypto.sha256 record.store

/-- A candidate as its constructor and `build_id_with` leave it. -/
structure Genuine (crypto : Crypto) (params : SessionParams) (candidate : Candidate params.count) :
    Prop where
  parented : candidate.isEmpty = true → candidate.parentId ≠ none
  identified : candidate.id = candidate.hashData.buildIdWith (params.session crypto).candidateHash candidate.id.slot

end SessionParams

/-- `Certificate::to_signature_set`. There is no such member for skip certificates,
and its `CHECK` fails for another candidate. -/
def Certificate.toSignatureSet (crypto : Crypto) (params : SessionParams)
    (cert : Certificate params.count) (candidate : Candidate params.count) : Option BlockSignatureSet :=
  let signatures : List BlockSignature := cert.signatures.map fun signature =>
    ⟨params.vset.nodeId crypto signature.validator, signature.signature⟩
  match cert.vote with
  | .notarize id =>
    if candidate.id = id then
      candidate.hashData.toTl.map (createSimplexApprove signatures
        params.vset.ccSeqno params.vset.hash params.sessionId id.slot)
    else
      none
  | .finalize id =>
    if candidate.id = id then
      candidate.hashData.toTl.map (createSimplex signatures
        params.vset.ccSeqno params.vset.hash params.sessionId id.slot)
    else
      none
  | .skip _ => none

variable {crypto : Crypto} {params : SessionParams} {cert : Certificate params.count}
  {candidate : Candidate params.count}

lemma SessionParams.Genuine.exists_toTl (genuine : params.Genuine crypto candidate) :
    ∃ object, candidate.hashData.toTl = some object ∧ expectedBlockId object = candidate.blockId ∧
      candidate.id.hash = crypto.sha256 (TonApi.storeCandidateHashData object) := by
  have hashed : candidate.id.hash = SessionParams.candidateHash crypto candidate.hashData :=
    congrArg CandidateId.hash genuine.identified
  have parented := genuine.parented
  rw [hashed, SessionParams.candidateHash]
  obtain ⟨id, parentId, leader, block, signature⟩ := candidate
  cases block with
  | empty reference =>
    cases parentId with
    | none => exact absurd rfl (parented rfl)
    | some parent => exact ⟨_, rfl, rfl, rfl⟩
  | full blockId collatedFileHash => exact ⟨_, rfl, rfl, rfl⟩

lemma SessionParams.totalWeight_eq (crypto : Crypto) (params : SessionParams) :
    (params.session crypto).totalWeight = (params.vset.ids.map (·.weight)).sum :=
  params.vset.sum_weight

/-- What the signature set made from a certificate for a candidate contains. -/
structure Certificate.Converted (crypto : Crypto) (params : SessionParams)
    (cert : Certificate params.count) (candidate : Candidate params.count)
    (object : TonApi.CandidateHashData) (set : BlockSignatureSet) : Prop where
  signatures : set.signatures = cert.signatures.map fun signature =>
    ⟨params.vset.nodeId crypto signature.validator, signature.signature⟩
  ccSeqno : set.ccSeqno = params.vset.ccSeqno
  validatorSetHash : set.validatorSetHash = params.vset.hash
  kind : set.kind = .simplex params.sessionId candidate.id.slot object (cert.vote.kind == .finalize)
  block : expectedBlockId object = candidate.blockId
  hashed : crypto.sha256 (TonApi.storeCandidateHashData object) = candidate.id.hash

lemma Certificate.toSignatureSet_converted (names : cert.vote.candidateId? = some candidate.id)
    (genuine : params.Genuine crypto candidate) : ∃ object set, cert.toSignatureSet crypto params candidate = some set ∧
      Converted crypto params cert candidate object set := by
  obtain ⟨object, written, block, hashed⟩ := genuine.exists_toTl
  obtain ⟨vote, signatures⟩ := cert
  cases vote with
  | notarize other | finalize other =>
    cases names
    simp only [toSignatureSet, if_true, written, Option.map_some]
    exact ⟨object, _, rfl, rfl, rfl, rfl, rfl, block, hashed.symm⟩
  | skip slot => cases names

private lemma ok_of_isOk {result : Except String Unit} (passed : result.isOk = true) : result = .ok () := by
  cases result with
  | error message => cases passed
  | ok value => rfl

namespace Certificate.Converted

variable {object : TonApi.CandidateHashData} {set : BlockSignatureSet}

section

variable (converted : Converted crypto params cert candidate object set)
include converted

lemma toSign_block (names : cert.vote.candidateId? = some candidate.id) : set.toSign crypto candidate.blockId =
      .ok (TonApi.storeDataToSign params.sessionId cert.vote.store) := by
  have kind := converted.kind
  have hashed := converted.hashed
  obtain ⟨vote, signatures⟩ := cert
  rw [← converted.block]
  cases vote with
  | notarize other | finalize other =>
    cases names
    simp [toSign, kind, hashed, Vote.store, Vote.kind]
  | skip slot => cases names

lemma toSign_other {blockId : BlockIdExt} (different : blockId ≠ candidate.blockId) :
    set.toSign crypto blockId = .error "block id mismatch" := by
  rw [← converted.block] at different
  simp [toSign, converted.kind, different]

lemma accepted (names : cert.vote.candidateId? = some candidate.id)
    (lawful : params.vset.Lawful crypto) (capped : (params.vset.ids.map (·.weight)).sum ≤ 2 ^ 61)
    (valid : cert.Valid (params.session crypto)) :
    ∃ weight, set.checkSignaturesImpl crypto params.vset candidate.blockId = .ok weight := by
  have total := params.totalWeight_eq crypto
  have checked : ∀ signature ∈ cert.signatures, crypto.checkSignature (params.vset.ids.get signature.validator).key
        (TonApi.storeDataToSign params.sessionId cert.vote.store) signature.signature = .ok () :=
    fun signature member => ok_of_isOk (valid.signed signature member)
  have summed : sumSigners params.vset
      (fun validator signature => crypto.checkSignature validator.key
        (TonApi.storeDataToSign params.sessionId cert.vote.store) signature)
      set.signatures [] 0 =
      .ok (ValidatorSet.sumWeight (cert.signers.map params.vset.ids.get) 0) := by
    rw [converted.signatures]
    exact sumSigners_ok lawful valid.distinct (by simp) checked
  obtain ⟨exact, below⟩ := params.vset.sumWeight_signers capped valid.distinct
  have heavy := valid.heavy
  rw [Session.weightThreshold_eq _ (total ▸ capped), total] at heavy
  have enough := (checkThreshold_iff capped below).mpr heavy
  rw [← exact, ← lawful.totalWeight_eq capped] at enough
  have matching : set.checkVset params.vset = .ok () := by
    simp [checkVset, converted.ccSeqno, converted.validatorSetHash]
  refine ⟨ValidatorSet.sumWeight (cert.signers.map params.vset.ids.get) 0, ?_⟩
  rw [checkSignaturesImpl, matching, converted.toSign_block names]
  refine bind_eq_ok.mpr ⟨(), rfl, bind_eq_ok.mpr ⟨_, rfl, bind_eq_ok.mpr ⟨_, summed, ?_⟩⟩⟩
  exact if_pos enough

end

end Certificate.Converted

/-- Certificates and block signatures agree: every certificate of a candidate converts to
signatures of exactly its block, and accepted signatures come from a quorum. -/
theorem certificates_match_signature_sets (crypto : Crypto) (ccSeqno : Nat) (shard : ShardIdFull)
    (nodes : List ValidatorDescr) (unique : (nodes.map crypto.shortId).Nodup)
    (capped : (nodes.map (·.weight)).sum ≤ 2 ^ 61) :
    (∃ vset, ValidatorSet.create crypto ccSeqno shard nodes = some vset) ∧
    ∀ vset, ValidatorSet.create crypto ccSeqno shard nodes = some vset →
      (∀ (sessionId : Bits256) (slotsPerLeaderWindow : Nat) (received : TlCertificate)
          (cert : Certificate vset.ids.length) (candidate : Candidate vset.ids.length),
        let params : SessionParams := { vset, sessionId, slotsPerLeaderWindow }
        received.vote = .notarize candidate.id ∨ received.vote = .finalize candidate.id →
        Certificate.fromTl (params.session crypto) received = .ok cert →
        params.Genuine crypto candidate →
        ∃ set, cert.toSignatureSet crypto params candidate = some set ∧
          (∀ blockId, (∃ weight, set.checkSignaturesImpl crypto vset blockId = .ok weight) ↔ blockId = candidate.blockId) ∧
          (∀ blockId, blockId ≠ candidate.blockId →
            set.toSign crypto blockId = .error "block id mismatch") ∧
          (set.isFinal = true ↔ received.vote = .finalize candidate.id)) ∧
      (∀ (set : BlockSignatureSet) (blockId : BlockIdExt) (weight : Nat),
        set.checkSignaturesImpl crypto vset blockId = .ok weight → ∃ signers : List (Fin vset.ids.length),
          set.signatures.map (·.node) = signers.map (vset.nodeId crypto) ∧ signers.Nodup ∧
          weight = (signers.map vset.weight).sum ∧ (nodes.map (·.weight)).sum * 2 / 3 + 1 ≤ weight) ∧
      ∀ weight, weight ≤ vset.totalWeight →
        (checkThreshold weight vset.totalWeight = true ↔
          ¬ weight < vset.totalWeight * 2 % 2 ^ 64 / 3 + 1) := by
  refine ⟨ValidatorSet.create_of_unique crypto ccSeqno shard unique, fun vset created => ?_⟩
  obtain ⟨lawful, rfl⟩ := ValidatorSet.create_lawful created
  refine ⟨?_, fun set blockId weight => checkSignaturesImpl_quorum lawful capped, fun weight below => ?_⟩
  · intro sessionId slotsPerLeaderWindow received cert candidate params voted accepted genuine
    have total := params.totalWeight_eq crypto
    have valid := Certificate.fromTl_valid (total ▸ capped) accepted
    have vote := Certificate.fromTl_vote accepted
    have names : cert.vote.candidateId? = some candidate.id := by
      rw [vote]
      rcases voted with same | same <;> rw [same] <;> rfl
    obtain ⟨object, set, built, converted⟩ := Certificate.toSignatureSet_converted names genuine
    refine ⟨set, built, fun blockId => ⟨?_, ?_⟩, fun blockId => converted.toSign_other, ?_⟩
    · rintro ⟨weight, result⟩
      by_contra different
      obtain ⟨_, _, result⟩ := bind_eq_ok.mp result
      obtain ⟨data, signed, _⟩ := bind_eq_ok.mp result
      rw [converted.toSign_other different] at signed
      cases signed
    · rintro rfl
      exact converted.accepted names lawful capped valid
    · rw [isFinal, converted.kind, vote]
      rcases voted with same | same <;> simp [same, Vote.kind]
  · rw [lawful.totalWeight_eq capped] at below ⊢
    rw [checkThreshold_iff capped below, Nat.not_lt,
      Nat.mod_eq_of_lt (a := (vset.ids.map (·.weight)).sum * 2) (by omega)]

/-- Signatures are the low byte of the key, and hashes polynomials in the bytes. -/
def toyCrypto : Crypto where
  sha256 data := data.foldl (fun hash byte => hash * 257 + byte.toNat + 1) 0
  checkSignature key _ signature :=
    if signature = [UInt8.ofNat key] then .ok () else .error "bad signature: "
  computeValidatorSetHash ccSeqno _ _ := ccSeqno

def toyNodes : List ValidatorDescr := [⟨7, 3, 0⟩, ⟨5, 1, 0⟩]

def toyVset : ValidatorSet :=
  (ValidatorSet.create toyCrypto 1 ⟨0, 0⟩ toyNodes).getD ⟨0, ⟨0, 0⟩, 0, 0, [], []⟩

def toyParams : SessionParams := { vset := toyVset, sessionId := 9, slotsPerLeaderWindow := 4 }

def toyCandidate : Candidate 2 :=
  let data : CandidateHashData := .createEmpty ⟨0, 0, 1, 2, 3⟩ ⟨0, 4⟩
  { id := data.buildIdWith (SessionParams.candidateHash toyCrypto) 1
    parentId := data.parent, leader := ⟨0, Nat.two_pos⟩, block := data.candidate, signature := [] }

theorem toy_certificates_match_signature_sets :
    ∃ cert set, Certificate.fromTl (toyParams.session toyCrypto)
        { vote := .finalize toyCandidate.id, signatures := [⟨0, [7]⟩] } = .ok cert ∧
      Certificate.toSignatureSet toyCrypto toyParams cert toyCandidate = some set ∧
      (∃ weight, set.checkSignaturesImpl toyCrypto toyVset ⟨0, 0, 1, 2, 3⟩ = .ok weight) ∧
      set.toSign toyCrypto ⟨0, 0, 1, 2, 4⟩ = .error "block id mismatch" := by
  have created : ValidatorSet.create toyCrypto 1 ⟨0, 0⟩ toyNodes = some toyVset := by
    decide +kernel
  have genuine : toyParams.Genuine toyCrypto toyCandidate := ⟨by decide, rfl⟩
  obtain ⟨_, agree⟩ := certificates_match_signature_sets toyCrypto 1 ⟨0, 0⟩ toyNodes (by decide +kernel) (by decide)
  obtain ⟨accepting, _⟩ := agree toyVset created
  have parsed : Certificate.fromTl (toyParams.session toyCrypto) { vote := .finalize toyCandidate.id, signatures := [⟨0, [7]⟩] } =
      .ok { vote := .finalize toyCandidate.id, signatures := [⟨⟨0, by decide⟩, [7]⟩] } := rfl
  obtain ⟨set, built, exact, refused, _⟩ := accepting 9 4 _ _ toyCandidate (.inr rfl) parsed genuine
  exact ⟨_, set, parsed, built, (exact _).mpr rfl, refused _ (by decide)⟩

end TonNode.Simplex
