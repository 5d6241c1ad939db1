import TonNode.Lib.ExceptBind
import TonNode.Lib.WeightedQuorum
import TonNode.Simplex.Votes

/-!
# Certificate parsing

`Certificate::from_tl` and `Certificate::to_tl`. Parsing accepts exactly the
certificates with distinct known signers, valid signatures and enough weight.
-/

namespace TonNode.Simplex

open Consensus Lib List

variable {n : Nat}

namespace Certificate

structure Collected (n : Nat) where
  voted : Fin n → Bool
  signatures : List (VoteSignature n)
  votedWeight : Nat

def collect (session : Session n) :
    List TlVoteSignature → Collected n → Except String (Collected n)
  | [], collected => .ok collected
  | signature :: rest, collected =>
    if known : signature.who < n then
      if collected.voted ⟨signature.who, known⟩ then
        .error ("Duplicate validator index " ++ toString signature.who ++ " in certificate")
      else
        collect session rest {
          voted := Function.update collected.voted ⟨signature.who, known⟩ true
          signatures := collected.signatures ++ [⟨⟨signature.who, known⟩, signature.signature⟩]
          votedWeight := addWeight collected.votedWeight (session.weight ⟨signature.who, known⟩) }
    else
      .error ("Invalid validator index " ++ toString signature.who ++ " in certificate")

def checkSignatures (session : Session n) (vote : Vote) :
    List (VoteSignature n) → Except String Unit
  | [] => .ok ()
  | signature :: rest =>
    if session.checkSignature signature.validator (.vote vote) signature.signature then
      checkSignatures session vote rest
    else
      .error ("Invalid vote signature for validator " ++ toString signature.validator)

def fromTl (session : Session n) (certificate : TlCertificate) : Except String (Certificate n) := do
  let collected ← collect session certificate.signatures
    { voted := fun _ => false, signatures := [], votedWeight := 0 }
  if collected.votedWeight < session.weightThreshold then
    .error "Not enough signatures in certificate"
  else
    checkSignatures session certificate.vote collected.signatures
    return { vote := certificate.vote, signatures := collected.signatures }

def toTl (certificate : Certificate n) : TlCertificate where
  vote := certificate.vote
  signatures := certificate.signatures.map fun signature =>
    { who := signature.validator.val, signature := signature.signature }

def signers (certificate : Certificate n) : List (Fin n) :=
  certificate.signatures.map (·.validator)

/-- A heavy set of distinct validators signed the vote, in the sense of `signs`. -/
structure Supported (session : Session n) (signs : Fin n → Vote → BufferSlice → Prop)
    (certificate : Certificate n) : Prop where
  distinct : certificate.signers.Nodup
  heavy : session.weightThreshold ≤ (certificate.signers.map session.weight).sum
  signed : ∀ signature ∈ certificate.signatures, signs signature.validator certificate.vote signature.signature

/-- What every node may rely on once a certificate has been accepted. -/
abbrev Valid (session : Session n) (certificate : Certificate n) : Prop :=
  certificate.Supported session session.Verifies

lemma Supported.imp {session : Session n} {signs other : Fin n → Vote → BufferSlice → Prop}
    {certificate : Certificate n} (supported : certificate.Supported session signs)
    (signed : ∀ signature ∈ certificate.signatures, signs signature.validator certificate.vote signature.signature →
        other signature.validator certificate.vote signature.signature) : certificate.Supported session other :=
  ⟨supported.distinct, supported.heavy, fun signature member =>
    signed signature member (supported.signed signature member)⟩

end Certificate

lemma sum_weight_le_total (session : Session n) {validators : List (Fin n)} (distinct : validators.Nodup) :
    (validators.map session.weight).sum ≤ session.totalWeight := by
  rw [← sum_toFinset _ distinct]
  exact Finset.sum_le_sum_of_subset (Finset.subset_univ _)

namespace Certificate

/-- The loop invariant: `voted` marks the collected signers, and the weight is their exact sum. -/
private structure Accounted (session : Session n) (collected : Collected n) : Prop where
  marked : ∀ validator, collected.voted validator = true ↔ validator ∈ collected.signatures.map (·.validator)
  distinct : (collected.signatures.map (·.validator)).Nodup
  exact : collected.votedWeight = ((collected.signatures.map (·.validator)).map session.weight).sum

private lemma accounted_initial (session : Session n) :
    Accounted session { voted := fun _ => false, signatures := [], votedWeight := 0 } :=
  ⟨by simp, by simp, by simp⟩

variable {session : Session n} {received : TlCertificate} {certificate : Certificate n} {start final : Collected n}
variable {signature : VoteSignature n}

private lemma Accounted.append {collected : Collected n} (accounted : Accounted session collected)
    (capped : session.totalWeight ≤ 2 ^ 61) {validator : Fin n}
    (fresh : collected.voted validator = false) (signature : BufferSlice) :
    Accounted session {
      voted := Function.update collected.voted validator true
      signatures := collected.signatures ++ [⟨validator, signature⟩]
      votedWeight := addWeight collected.votedWeight (session.weight validator) } := by
  have absent : validator ∉ collected.signatures.map (·.validator) := by
    intro member
    have voted := (accounted.marked validator).mpr member
    simp [fresh] at voted
  have distinct : ((collected.signatures ++
      [(⟨validator, signature⟩ : VoteSignature n)]).map (·.validator)).Nodup := by
    simp only [map_append, map_cons, map_nil]
    exact accounted.distinct.append (by simp) (by simpa using absent)
  refine ⟨?_, distinct, ?_⟩
  · intro other
    by_cases same : other = validator
    · simp [same]
    · simp only [Function.update_of_ne same, map_append, mem_append, map_cons, map_nil, mem_singleton, same, or_false]
      exact accounted.marked other
  · have bound := sum_weight_le_total session distinct
    have total : (((collected.signatures ++
        [(⟨validator, signature⟩ : VoteSignature n)]).map (·.validator)).map session.weight).sum =
          collected.votedWeight + session.weight validator := by
      simp [accounted.exact]
    simp only [addWeight]
    rw [total] at bound ⊢
    exact Nat.mod_eq_of_lt (by omega)

private lemma collect_accounted (capped : session.totalWeight ≤ 2 ^ 61) {received : List TlVoteSignature}
    (accounted : Accounted session start) (result : collect session received start = .ok final) : Accounted session final := by
  induction received generalizing start with
  | nil =>
    cases result
    exact accounted
  | cons signature rest ih =>
    simp only [collect] at result
    split at result
    next known =>
      split at result
      next duplicate => cases result
      next fresh => exact ih (accounted.append capped (by simpa using fresh) _) result
    next unknown => cases result

private lemma collect_toTl (session : Session n) (signatures : List (VoteSignature n))
    (start : Collected n) (distinct : (signatures.map (·.validator)).Nodup)
    (fresh : ∀ signature ∈ signatures, start.voted signature.validator = false) :
    ∃ voted weight, collect session
      (signatures.map fun signature =>
        { who := signature.validator.val, signature := signature.signature }) start =
      .ok { voted, signatures := start.signatures ++ signatures, votedWeight := weight } := by
  induction signatures generalizing start with
  | nil => exact ⟨start.voted, start.votedWeight, by simp [collect]⟩
  | cons signature rest ih =>
    simp only [map_cons, nodup_cons] at distinct
    have unmarked : start.voted signature.validator = false := fresh signature (by simp)
    obtain ⟨voted, weight, collected⟩ := ih {
        voted := Function.update start.voted signature.validator true
        signatures := start.signatures ++ [signature]
        votedWeight := addWeight start.votedWeight (session.weight signature.validator) }
      distinct.2 (by
        intro other member
        have different : other.validator ≠ signature.validator := by
          intro same
          exact distinct.1 (mem_map.mpr ⟨other, member, same⟩)
        simp only [Function.update_of_ne different]
        exact fresh other (by simp [member]))
    refine ⟨voted, weight, ?_⟩
    simp only [map_cons, collect, Fin.is_lt, Fin.eta, dite_true, unmarked]
    simpa using collected

lemma checkSignatures_ok_iff (session : Session n) (vote : Vote) (signatures : List (VoteSignature n)) :
    checkSignatures session vote signatures = .ok () ↔ ∀ signature ∈ signatures,
        session.checkSignature signature.validator (.vote vote) signature.signature = true := by
  induction signatures with
  | nil => simp [checkSignatures]
  | cons signature rest ih =>
    by_cases accepted : session.checkSignature signature.validator (.vote vote) signature.signature = true
    · simp [checkSignatures, accepted, ih]
    · simp [checkSignatures, accepted]

lemma fromTl_cases (accepted : fromTl session received = .ok certificate) : ∃ final,
    collect session received.signatures { voted := fun _ => false, signatures := [], votedWeight := 0 } = .ok final ∧
      session.weightThreshold ≤ final.votedWeight ∧ checkSignatures session received.vote final.signatures = .ok () ∧
      certificate = { vote := received.vote, signatures := final.signatures } := by
  obtain ⟨final, collected, accepted⟩ := bind_eq_ok.mp accepted
  split at accepted
  · cases accepted
  next heavy =>
    obtain ⟨_, checked, accepted⟩ := bind_eq_ok.mp accepted
    cases accepted
    exact ⟨final, collected, Nat.not_lt.mp heavy, checked, rfl⟩

lemma fromTl_vote (accepted : fromTl session received = .ok certificate) : certificate.vote = received.vote := by
  obtain ⟨_, _, _, _, rfl⟩ := fromTl_cases accepted
  rfl

lemma fromTl_valid (capped : session.totalWeight ≤ 2 ^ 61)
    (accepted : fromTl session received = .ok certificate) : certificate.Valid session := by
  obtain ⟨final, collected, heavy, checked, rfl⟩ := fromTl_cases accepted
  have accounted := collect_accounted capped (accounted_initial session) collected
  refine ⟨accounted.distinct, ?_, (checkSignatures_ok_iff _ _ _).mp checked⟩
  simp only [signers]
  rwa [← accounted.exact]

private lemma collect_signatures {received : List TlVoteSignature}
    (result : collect session received start = .ok final) (member : signature ∈ final.signatures) :
    signature ∈ start.signatures ∨ ⟨signature.validator.val, signature.signature⟩ ∈ received := by
  induction received generalizing start with
  | nil =>
    cases result
    exact .inl member
  | cons first rest ih =>
    simp only [collect] at result
    split at result
    next known =>
      split at result
      next duplicate => cases result
      next fresh =>
        rcases ih result with earlier | later
        · rcases mem_append.mp earlier with before | here
          · exact .inl before
          · rw [mem_singleton.mp here]
            exact .inr (by simp)
        · exact .inr (mem_cons_of_mem _ later)
    next unknown => cases result

lemma fromTl_signatures (accepted : fromTl session received = .ok certificate) (member : signature ∈ certificate.signatures) :
    ⟨signature.validator.val, signature.signature⟩ ∈ received.signatures := by
  obtain ⟨final, collected, _, _, rfl⟩ := fromTl_cases accepted
  rcases collect_signatures collected member with started | here
  · cases started
  · exact here

end Certificate

/-- The signatures in a received certificate that pass the check were made in
the sense of `signs`. -/
def TlCertificate.Vouched (session : Session n) (signs : Fin n → Vote → BufferSlice → Prop) (received : TlCertificate) : Prop :=
  ∀ (validator : Fin n) (signature : BufferSlice), ⟨validator.val, signature⟩ ∈ received.signatures →
    session.Verifies validator received.vote signature → signs validator received.vote signature

namespace Certificate

variable {session : Session n} {certificate : Certificate n}

section

variable (capped : session.totalWeight ≤ 2 ^ 61) {signs : Fin n → Vote → BufferSlice → Prop}
include capped

lemma fromTl_supported {received : TlCertificate} (vouched : received.Vouched session signs)
    (accepted : fromTl session received = .ok certificate) : certificate.Supported session signs := by
  refine (fromTl_valid capped accepted).imp fun signature member verified => ?_
  rw [fromTl_vote accepted] at verified ⊢
  exact vouched _ _ (fromTl_signatures accepted member) verified

lemma fromTl_toTl (valid : certificate.Valid session) : fromTl session certificate.toTl = .ok certificate := by
  obtain ⟨voted, weight, collected⟩ := collect_toTl session certificate.signatures
    { voted := fun _ => false, signatures := [], votedWeight := 0 } valid.distinct (by simp)
  have accounted := collect_accounted capped (accounted_initial session) collected
  simp only [nil_append] at collected accounted
  have heavy : ¬ weight < session.weightThreshold := by
    have exact : weight = (certificate.signers.map session.weight).sum := accounted.exact
    have enough := valid.heavy
    omega
  have checked := (checkSignatures_ok_iff session certificate.vote certificate.signatures).mpr valid.signed
  simp only [fromTl, toTl, collected, bind, Except.bind, heavy, if_false, checked]
  rfl

lemma Supported.quorum (supported : certificate.Supported session signs) :
    IsQuorum session.weight certificate.signers.toFinset := by
  have heavy := supported.heavy
  rw [session.weightThreshold_eq capped] at heavy
  rw [IsQuorum, sum_toFinset _ supported.distinct]
  exact heavy

end

end Certificate

end TonNode.Simplex
