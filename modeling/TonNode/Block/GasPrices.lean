import TonNode.Lib.MachineInt

/-!
# Buying gas

`compute_gas_price` and `gas_bought_for`, for the configured limit and for the limits that are
overridden for some accounts. An operation on big numbers that leaves their range is `none`.
-/

namespace TonNode.Block

open Lib Option

abbrev WorkchainId := Int

abbrev UnixTime := Nat

/-- What buying gas reads. `gas_price256` and `max_gas_threshold` are always those that
`compute_threshold` sets. -/
structure ComputePhaseConfig where
  gasPrice : Nat
  gasLimit : Nat
  flatGasLimit : Nat
  flatGasPrice : Nat
  globalVersion : Int

def computeMaxGasThreshold (gasPrice256 : Int) (gasLimit flatGasLimit flatGasPrice : Nat) : Option Int :=
  if flatGasLimit < gasLimit then do
    let product ← int257 (gasPrice256 * toInt64 (gasLimit - flatGasLimit))
    int257 (ceilShift product 16 + toInt64 flatGasPrice)
  else some flatGasPrice

namespace ComputePhaseConfig

def gasPrice256 (cfg : ComputePhaseConfig) : Int := cfg.gasPrice

/-- The gas bought under a limit; a null amount buys nothing. -/
def gasBoughtUnder (cfg : ComputePhaseConfig) (gasLimit : Nat) : Option Int → Option Nat
  | none => some 0
  | some nanograms =>
    if nanograms < 0 then some 0
    else do
      let maxGasThreshold ←
        computeMaxGasThreshold cfg.gasPrice256 gasLimit cfg.flatGasLimit cfg.flatGasPrice
      if maxGasThreshold ≤ nanograms then some gasLimit
      else if nanograms < toInt64 cfg.flatGasPrice then some 0
      else do
        let rest ← addTiny nanograms (-toInt64 cfg.flatGasPrice)
        let shifted ← int257 (rest * 2 ^ 16)
        if cfg.gasPrice256 = 0 then none
        else
          let res := shifted / cfg.gasPrice256
          some ((toUInt64 (toLong res) + cfg.flatGasLimit) % 2 ^ 64)

def gasBoughtFor (cfg : ComputePhaseConfig) (nanograms : Option Int) : Option Nat :=
  cfg.gasBoughtUnder cfg.gasLimit nanograms

def computeGasPrice (cfg : ComputePhaseConfig) (gasUsed : Nat) : Option Int :=
  if gasUsed ≤ cfg.flatGasLimit then some cfg.flatGasPrice
  else do
    let product ← int257 (cfg.gasPrice256 * toInt64 (gasUsed - cfg.flatGasLimit))
    addTiny (ceilShift product 16) (toInt64 cfg.flatGasPrice)

end ComputePhaseConfig

structure OverriddenGasLimit where
  workchain : WorkchainId
  addr : Nat
  newLimit : Nat
  fromVersion : Int
  untilTime : UnixTime

def OverriddenGasLimit.oldWallet (addr newLimit : Nat) : OverriddenGasLimit :=
  ⟨0, addr, newLimit, 9, 1740787200⟩

def overriddenGasLimits : List OverriddenGasLimit :=
  [⟨0, 0xffbfd8f5ae5b2e1c7c3614885cb02145483dfaee575f0dd08a72c366369211cd, 70000000, 5, 1709164800⟩,
    .oldWallet 0x5e4a5f9dba638789e6770c990d2959237aca3bc19d15a734782c26cb19343cc6 70000000,
    .oldWallet 0xb755c43ee37925c30f547e2991e7c4c18c1ce4ec63eea5743708dbad868369fa 70000000,
    .oldWallet 0x61c016fc8efa241af7eb787451a1e571236dfb3eb389832aec0212c0fb8ac10b 70000000,
    .oldWallet 0xa4a11a78384f92154a0c12761f2f7bc5e374f703335f5bc8f24c2e32ce4f1c26 70000000,
    .oldWallet 0x4de480ab6acefd53c158126ef5c2cdf89fe64d210d0b44da5c90e52c215dce79 70000000,
    .oldWallet 0x436a76c2794a88e3fbfec6b9c0374fc8db046f10868b835420d9937973a665d4 225000000]

/-- The fields of a transaction and its account that buying gas reads and sets. -/
structure Transaction where
  now : UnixTime
  workchain : WorkchainId
  addr : Nat
  gasLimitOverridden : Bool

namespace Transaction

def overrideGasLimit (tx : Transaction) (cfg : ComputePhaseConfig) : Option Nat :=
  match overriddenGasLimits.find? fun entry =>
      entry.workchain == tx.workchain && entry.addr == tx.addr with
  | none => none
  | some entry =>
    if cfg.globalVersion < entry.fromVersion ∨ entry.untilTime ≤ tx.now then none
    else some entry.newLimit

def gasBoughtFor (tx : Transaction) (cfg : ComputePhaseConfig) (nanograms : Option Int) : Option Nat × Transaction :=
  match tx.overrideGasLimit cfg with
  | some gasLimit => (cfg.gasBoughtUnder gasLimit nanograms, { tx with gasLimitOverridden := true })
  | none => (cfg.gasBoughtFor nanograms, tx)

end Transaction

/-- Gas up to a limit is bought at the highest amount whose price is not above what is paid. -/
structure Adjoint (price : Nat → Option Int) (bought : Option Int → Option Nat)
    (limit flatGasLimit flatGasPrice : Nat) : Prop where
  total : ∀ nanograms, ∃ gas, bought nanograms = some gas ∧ gas ≤ limit
  monotone : ∀ less more, less ≤ more → ∀ gas moreGas, bought (some less) = some gas →
    bought (some more) = some moreGas → gas ≤ moreGas
  affordable : ∀ nanograms : Int, flatGasPrice ≤ nanograms → ∀ gas,
    bought (some nanograms) = some gas → ∃ fee, price gas = some fee ∧ fee ≤ nanograms
  exact : ∀ nanograms : Int, flatGasPrice ≤ nanograms → ∀ gas, bought (some nanograms) = some gas → ∀ used ≤ limit,
      ∃ fee, price used = some fee ∧ (fee ≤ nanograms ↔ used ≤ max gas flatGasLimit)

namespace ComputePhaseConfig

variable {cfg : ComputePhaseConfig} {limit gas : Nat} {nanograms : Int}

structure Bounded (cfg : ComputePhaseConfig) : Prop where
  gasPrice : cfg.gasPrice < 2 ^ 63
  flatGasLimit : cfg.flatGasLimit < 2 ^ 63
  flatGasPrice : cfg.flatGasPrice < 2 ^ 63

def fee (cfg : ComputePhaseConfig) (gas : Nat) : Int :=
  ceilShift (cfg.gasPrice * (gas - cfg.flatGasLimit : Nat)) 16 + cfg.flatGasPrice

/-- The flat price, added to the lowest digit of what gas up to the limit costs or taken from the
lowest digit of what is paid for it, leaves a word. -/
structure DigitsFit (cfg : ComputePhaseConfig) (limit : Nat) : Prop where
  price : ∀ gas ≤ limit, cfg.flatGasLimit < gas →
    lowDigit (ceilShift (cfg.gasPrice * (gas - cfg.flatGasLimit : Nat)) 16) + cfg.flatGasPrice + 2 ^ 51 < 2 ^ 63
  rest : ∀ nanograms : Int, cfg.flatGasPrice ≤ nanograms → nanograms < cfg.fee limit →
    -2 ^ 63 ≤ lowDigit nanograms - cfg.flatGasPrice

lemma DigitsFit.of_le (low : cfg.flatGasPrice ≤ 2 ^ 63 - 2 ^ 52) (limit : Nat) : cfg.DigitsFit limit where
  price gas _ _ := by
    have digit := lowDigit_bounds (ceilShift (cfg.gasPrice * (gas - cfg.flatGasLimit : Nat)) 16)
    omega
  rest nanograms _ _ := by
    have digit := lowDigit_bounds nanograms
    omega

lemma fee_le_iff : cfg.fee gas ≤ nanograms ↔ (cfg.gasPrice : Int) * (gas - cfg.flatGasLimit : Nat) ≤
      (nanograms - cfg.flatGasPrice) * 2 ^ 16 := by
  rw [← ceilShift_le_iff, fee]
  omega

lemma fee_of_le (flat : gas ≤ cfg.flatGasLimit) : cfg.fee gas = cfg.flatGasPrice := by
  rw [fee, Nat.sub_eq_zero_of_le flat]
  simp [ceilShift]

lemma fee_mono {more : Nat} (less : gas ≤ more) : cfg.fee gas ≤ cfg.fee more := by
  have atMore := (@fee_le_iff cfg more _).mp le_rfl
  refine fee_le_iff.mpr (le_trans ?_ atMore)
  have rest : ((gas - cfg.flatGasLimit : Nat) : Int) ≤ (more - cfg.flatGasLimit : Nat) := by omega
  exact Int.mul_le_mul_of_nonneg_left rest (Int.natCast_nonneg _)

lemma flatGasPrice_le_fee (cfg : ComputePhaseConfig) (gas : Nat) : (cfg.flatGasPrice : Int) ≤ cfg.fee gas := by
  rw [← fee_of_le (Nat.zero_le cfg.flatGasLimit)]
  exact fee_mono (Nat.zero_le gas)

section

variable (bounded : cfg.Bounded)
include bounded

lemma Bounded.product_lt (small : gas < 2 ^ 63) : cfg.gasPrice * (gas - cfg.flatGasLimit) < 2 ^ 63 * 2 ^ 63 :=
  Nat.mul_lt_mul'' bounded.gasPrice (by omega)

lemma Bounded.product_eq (small : gas < 2 ^ 63) :
    int257 (cfg.gasPrice256 * toInt64 (gas - cfg.flatGasLimit)) = some (cfg.gasPrice * (gas - cfg.flatGasLimit : Nat)) := by
  have product := bounded.product_lt small
  rw [toInt64_eq (by omega), gasPrice256, ← Nat.cast_mul]
  exact int257_eq (Int.natCast_nonneg _) (by omega)

lemma Bounded.fee_lt (small : gas < 2 ^ 63) : cfg.fee gas < 2 ^ 127 := by
  have product := bounded.product_lt small
  have flatPrice := bounded.flatGasPrice
  have rounded : ceilShift (cfg.gasPrice * (gas - cfg.flatGasLimit) : Nat) 16 ≤ (cfg.gasPrice * (gas - cfg.flatGasLimit) : Nat) :=
    (ceilShift_le_iff 16).mpr (by omega)
  rw [fee, ← Nat.cast_mul]
  omega

lemma Bounded.computeGasPrice_above (small : gas < 2 ^ 63) (above : cfg.flatGasLimit < gas) : cfg.computeGasPrice gas =
    addTiny (ceilShift (cfg.gasPrice * (gas - cfg.flatGasLimit : Nat)) 16) cfg.flatGasPrice := by
  unfold computeGasPrice
  rw [if_neg (by omega), bounded.product_eq small, toInt64_eq bounded.flatGasPrice]
  rfl

lemma Bounded.computeGasPrice_eq (fits : cfg.DigitsFit limit) (small : limit < 2 ^ 63) (within : gas ≤ limit) :
    cfg.computeGasPrice gas = some (cfg.fee gas) := by
  by_cases flat : gas ≤ cfg.flatGasLimit
  · rw [computeGasPrice, if_pos flat, fee_of_le flat]
  · have digit := lowDigit_bounds (ceilShift (cfg.gasPrice * (gas - cfg.flatGasLimit : Nat)) 16)
    rw [bounded.computeGasPrice_above (by omega) (by omega)]
    exact addTiny_eq_some_iff.mpr ⟨⟨by omega, fits.price gas within (by omega)⟩, rfl⟩

lemma Bounded.threshold_eq (small : limit < 2 ^ 63) :
    computeMaxGasThreshold cfg.gasPrice256 limit cfg.flatGasLimit cfg.flatGasPrice = some (cfg.fee limit) := by
  have flatPrice := bounded.flatGasPrice
  have below := bounded.fee_lt small
  unfold computeMaxGasThreshold
  split
  · rw [bounded.product_eq small, toInt64_eq (by omega)]
    have nonneg := le_trans (Int.natCast_nonneg _) (cfg.flatGasPrice_le_fee limit)
    exact int257_eq nonneg (show cfg.fee limit < 2 ^ 256 by omega)
  next flat => rw [fee_of_le (by omega)]

end

/-- What `gas_bought_for` returns for an amount that pays the flat price. -/
def purchase (cfg : ComputePhaseConfig) (limit : Nat) (nanograms : Int) : Nat :=
  if cfg.fee limit ≤ nanograms then limit
  else ((nanograms - cfg.flatGasPrice) * 2 ^ 16 / cfg.gasPrice).toNat + cfg.flatGasLimit

section

variable (enough : cfg.flatGasPrice ≤ nanograms)
include enough

lemma gasPrice_pos (below : ¬ cfg.fee limit ≤ nanograms) : (0 : Int) < cfg.gasPrice := by
  by_contra free
  obtain zero : cfg.gasPrice = 0 := by omega
  refine below (fee_le_iff.mpr ?_)
  rw [zero]
  omega

lemma le_purchase_iff (below : ¬ cfg.fee limit ≤ nanograms) : cfg.fee gas ≤ nanograms ↔
    gas - cfg.flatGasLimit ≤ ((nanograms - cfg.flatGasPrice) * 2 ^ 16 / cfg.gasPrice).toNat := by
  have positive := gasPrice_pos enough below
  have quotient : 0 ≤ (nanograms - cfg.flatGasPrice) * 2 ^ 16 / cfg.gasPrice := Int.ediv_nonneg (by omega) positive.le
  rw [fee_le_iff, mul_comm, ← Int.le_ediv_iff_mul_le positive]
  omega

lemma purchase_le : cfg.purchase limit nanograms ≤ limit := by
  unfold purchase
  split
  · exact le_rfl
  next below =>
    have more := mt (le_purchase_iff enough below).mpr below
    omega

lemma fee_le_iff_le_purchase (within : gas ≤ limit) :
    cfg.fee gas ≤ nanograms ↔ gas ≤ max (cfg.purchase limit nanograms) cfg.flatGasLimit := by
  unfold purchase
  split
  next above =>
    have paid := le_trans (fee_mono within) above
    have covered : gas ≤ max limit cfg.flatGasLimit := by omega
    exact ⟨fun _ => covered, fun _ => paid⟩
  next below =>
    rw [le_purchase_iff enough below]
    omega

end

section

variable (bounded : cfg.Bounded) (small : limit < 2 ^ 63)
include bounded small

lemma Bounded.gasBoughtUnder_above (enough : cfg.fee limit ≤ nanograms) :
    cfg.gasBoughtUnder limit (some nanograms) = some limit := by
  have atLeast := cfg.flatGasPrice_le_fee limit
  simp only [gasBoughtUnder, bounded.threshold_eq small, bind_eq_bind, bind_some]
  rw [if_neg (by omega), if_pos enough]

lemma Bounded.gasBoughtUnder_below (enough : cfg.flatGasPrice ≤ nanograms) (below : nanograms < cfg.fee limit) :
    cfg.gasBoughtUnder limit (some nanograms) =
      (addTiny nanograms (-cfg.flatGasPrice)).bind fun rest => (int257 (rest * 2 ^ 16)).bind fun shifted =>
        if cfg.gasPrice256 = 0 then none
        else some ((toUInt64 (toLong (shifted / cfg.gasPrice256)) + cfg.flatGasLimit) % 2 ^ 64) := by
  simp only [gasBoughtUnder, bounded.threshold_eq small, bind_eq_bind, bind_some, toInt64_eq bounded.flatGasPrice]
  rw [if_neg (show ¬ nanograms < 0 by omega), if_neg (by omega), if_neg (by omega)]

lemma Bounded.gasBoughtUnder_eq (fits : cfg.DigitsFit limit) (enough : cfg.flatGasPrice ≤ nanograms) :
    cfg.gasBoughtUnder limit (some nanograms) = some (cfg.purchase limit nanograms) := by
  have atMost := @purchase_le cfg limit _ enough
  have high := bounded.fee_lt small
  unfold purchase at atMost ⊢
  split
  next above => exact bounded.gasBoughtUnder_above small above
  next below =>
    rw [if_neg below] at atMost
    have paid : cfg.gasPrice256 ≠ 0 := (gasPrice_pos enough below).ne'
    have quotient : 0 ≤ (nanograms - cfg.flatGasPrice) * 2 ^ 16 / cfg.gasPrice :=
      Int.ediv_nonneg (by omega) (Int.natCast_nonneg _)
    obtain ⟨rest, isRest⟩ := Int.eq_ofNat_of_zero_le quotient
    have digit := lowDigit_bounds nanograms
    have fitsHere := fits.rest nanograms enough (by omega)
    have added : addTiny nanograms (-cfg.flatGasPrice) = some (nanograms - cfg.flatGasPrice) :=
      addTiny_eq_some_iff.mpr ⟨⟨by omega, by omega⟩, (sub_eq_add_neg _ _).symm⟩
    rw [bounded.gasBoughtUnder_below small enough (by omega), added, bind_some, int257_eq (by omega) (by omega), bind_some, if_neg paid, gasPrice256, isRest]
    rw [isRest, Int.toNat_natCast] at atMost
    rw [toUInt64_toLong (by omega), Int.toNat_natCast, Nat.mod_eq_of_lt (by omega)]

lemma Bounded.gasBoughtUnder_low
    (less : nanograms < cfg.flatGasPrice) : cfg.gasBoughtUnder limit (some nanograms) = some 0 := by
  have flatPrice := bounded.flatGasPrice
  have atLeast := cfg.flatGasPrice_le_fee limit
  simp only [gasBoughtUnder, bounded.threshold_eq small, bind_eq_bind, bind_some,
    toInt64_eq (show cfg.flatGasPrice < 2 ^ 63 by omega)]
  split
  · rfl
  · rw [if_neg (show ¬ cfg.fee limit ≤ nanograms by omega)]

lemma Bounded.adjoint (fits : cfg.DigitsFit limit) :
    Adjoint cfg.computeGasPrice (cfg.gasBoughtUnder limit) limit cfg.flatGasLimit cfg.flatGasPrice where
  total nanograms := by
    cases nanograms with
    | none => exact ⟨0, rfl, Nat.zero_le _⟩
    | some nanograms =>
      by_cases enough : cfg.flatGasPrice ≤ nanograms
      · exact ⟨_, bounded.gasBoughtUnder_eq small fits enough, purchase_le enough⟩
      · exact ⟨0, bounded.gasBoughtUnder_low small (by omega), Nat.zero_le _⟩
  monotone less more atMost gas moreGas isGas isMore := by
    by_cases enough : cfg.flatGasPrice ≤ less
    · rw [bounded.gasBoughtUnder_eq small fits enough] at isGas
      rw [bounded.gasBoughtUnder_eq small fits (by omega)] at isMore
      cases isGas
      cases isMore
      unfold purchase
      split
      next above => rw [if_pos (by omega)]
      next below =>
        split
        · have bound := @purchase_le cfg limit _ enough
          rwa [purchase, if_neg below] at bound
        · have positive := gasPrice_pos enough below
          exact Nat.add_le_add_right (Int.toNat_le_toNat (Int.ediv_le_ediv positive (by omega))) _
    · rw [bounded.gasBoughtUnder_low small (by omega)] at isGas
      cases isGas
      exact Nat.zero_le _
  affordable nanograms enough gas isGas := by
    rw [bounded.gasBoughtUnder_eq small fits enough] at isGas
    cases isGas
    have within := @purchase_le cfg limit _ enough
    exact ⟨_, bounded.computeGasPrice_eq fits small within, (fee_le_iff_le_purchase enough within).mpr (le_max_left _ _)⟩
  exact nanograms enough gas isGas used within := by
    rw [bounded.gasBoughtUnder_eq small fits enough] at isGas
    cases isGas
    exact ⟨_, bounded.computeGasPrice_eq fits small within, fee_le_iff_le_purchase enough within⟩

/-- A sum that leaves its word is asked for by some price or some purchase below the limit. -/
lemma Bounded.digitsFit
    (adjoint : Adjoint cfg.computeGasPrice (cfg.gasBoughtUnder limit) limit cfg.flatGasLimit cfg.flatGasPrice) :
    cfg.DigitsFit limit where
  price gas within above := by
    obtain ⟨fee, isFee, _⟩ := adjoint.exact (cfg.fee limit) (cfg.flatGasPrice_le_fee limit) limit
      (bounded.gasBoughtUnder_above small le_rfl) gas within
    rw [bounded.computeGasPrice_above (by omega) above] at isFee
    exact (addTiny_eq_some_iff.mp isFee).1.2
  rest nanograms enough below := by
    obtain ⟨gas, isGas, _⟩ := adjoint.total (some nanograms)
    rw [bounded.gasBoughtUnder_below small enough below] at isGas
    obtain ⟨rest, isRest, _⟩ := Option.bind_eq_some_iff.mp isGas
    exact (addTiny_eq_some_iff.mp isRest).1.1

lemma Bounded.adjoint_iff :
    Adjoint cfg.computeGasPrice (cfg.gasBoughtUnder limit) limit cfg.flatGasLimit cfg.flatGasPrice ↔ cfg.DigitsFit limit :=
  ⟨bounded.digitsFit small, bounded.adjoint small⟩

end

end ComputePhaseConfig

lemma Transaction.overrideGasLimit_lt {tx : Transaction} {cfg : ComputePhaseConfig} {limit : Nat}
    (overridden : tx.overrideGasLimit cfg = some limit) : limit < 2 ^ 63 := by
  unfold overrideGasLimit at overridden
  split at overridden
  · cases overridden
  next entry found =>
    split at overridden
    · cases overridden
    · cases overridden
      have all : ∀ entry ∈ overriddenGasLimits, entry.newLimit < 2 ^ 63 := by decide
      exact all entry (List.mem_of_find?_eq_some found)

/-- Prices and purchases match exactly if the sums with the flat price fit, also under the limit
that a transaction overrides; they fit for every flat price that is not close to `2 ^ 63`. -/
theorem gas_purchase_adjoint (cfg : ComputePhaseConfig) (gasPrice : cfg.gasPrice < 2 ^ 63)
    (gasLimit : cfg.gasLimit < 2 ^ 63) (flatGasLimit : cfg.flatGasLimit < 2 ^ 63) (flatGasPrice : cfg.flatGasPrice < 2 ^ 63) :
    (Adjoint cfg.computeGasPrice cfg.gasBoughtFor cfg.gasLimit cfg.flatGasLimit cfg.flatGasPrice ↔
      cfg.DigitsFit cfg.gasLimit) ∧
    (∀ tx : Transaction,
      Adjoint cfg.computeGasPrice (fun nanograms => (tx.gasBoughtFor cfg nanograms).1)
        ((tx.overrideGasLimit cfg).getD cfg.gasLimit) cfg.flatGasLimit cfg.flatGasPrice ↔
      cfg.DigitsFit ((tx.overrideGasLimit cfg).getD cfg.gasLimit)) ∧
    (cfg.flatGasPrice ≤ 2 ^ 63 - 2 ^ 52 → ∀ limit, cfg.DigitsFit limit) := by
  have bounded : cfg.Bounded := ⟨gasPrice, flatGasLimit, flatGasPrice⟩
  refine ⟨bounded.adjoint_iff gasLimit, fun tx => ?_, .of_le⟩
  unfold Transaction.gasBoughtFor
  cases overridden : tx.overrideGasLimit cfg with
  | none => exact bounded.adjoint_iff gasLimit
  | some limit => exact bounded.adjoint_iff (Transaction.overrideGasLimit_lt overridden)

theorem gas_purchase_adjoint_basechain : ∃ gas, (Transaction.gasBoughtFor ⟨1740000000, 0,
        0x436a76c2794a88e3fbfec6b9c0374fc8db046f10868b835420d9937973a665d4, false⟩
        ⟨26214400, 1000000, 100, 40000, 9⟩ (some 1000000000)).1 = some gas ∧ gas ≤ 225000000 := by
  obtain ⟨_, overridden, fits⟩ :=
    gas_purchase_adjoint ⟨26214400, 1000000, 100, 40000, 9⟩ (by decide) (by decide) (by decide) (by decide)
  exact ((overridden _).mpr (fits (by decide) _)).total _

def steepConfig : ComputePhaseConfig := ⟨1, 1, 0, 2 ^ 63 - 1, 0⟩

/-- The sum of the flat price and the price of one unit does not fit the digit it is formed in. -/
theorem gas_purchase_overflows : steepConfig.gasBoughtFor (some (2 ^ 63 - 1)) = some 0 ∧ steepConfig.computeGasPrice 1 = none ∧
      ¬ Adjoint steepConfig.computeGasPrice steepConfig.gasBoughtFor 1 0 (2 ^ 63 - 1) := by
  refine ⟨by decide, by decide, fun adjoint => ?_⟩
  obtain ⟨fee, isFee, _⟩ := adjoint.exact (2 ^ 63 - 1) (by decide) 0 (by decide) 1 (by decide)
  exact absurd isFee (by decide +revert)

end TonNode.Block
