import Mathlib

/-!
# Machine integers

Conversions between 64-bit words and unbounded integers, shifts that round up, and numbers that are
kept in balanced digits of 52 bits.
-/

namespace TonNode.Lib

def toUInt64 (value : Int) : Nat := (value % 2 ^ 64).toNat

def toInt64 (word : Nat) : Int :=
  if word % 2 ^ 64 < 2 ^ 63 then ((word % 2 ^ 64 : Nat) : Int)
  else ((word % 2 ^ 64 : Nat) : Int) - 2 ^ 64

/-- The value that a 32-bit `int` keeps of an integer. -/
@[irreducible] def wrapInt (value : Int) : Int := value.bmod (2 ^ 32)

/-- The signed 64-bit value of an integer; the lowest one stands for what does not fit. -/
def toLong (value : Int) : Int :=
  if -2 ^ 63 ≤ value ∧ value < 2 ^ 63 then value else -2 ^ 63

def ceilShift (value : Int) (shift : Nat) : Int := -((-value) / 2 ^ shift)

def int257 (value : Int) : Option Int :=
  if -2 ^ 256 ≤ value ∧ value < 2 ^ 256 then some value else none

/-- The lowest digit of a number in balanced digits of 52 bits. -/
def lowDigit (value : Int) : Int := (value + 2 ^ 51) % 2 ^ 52 - 2 ^ 51

/-- Adds a word to the lowest digit, which is then normalized; neither sum may leave a signed
word. -/
def addTiny (value word : Int) : Option Int :=
  if -2 ^ 63 ≤ lowDigit value + word ∧ lowDigit value + word + 2 ^ 51 < 2 ^ 63 then
    some (value + word)
  else none

lemma toInt64_eq {word : Nat} (small : word < 2 ^ 63) : toInt64 word = word := by
  unfold toInt64
  have same : word % 2 ^ 64 = word := Nat.mod_eq_of_lt (by omega)
  rw [same, if_pos small]

lemma wrapInt_wrapInt_add (value other : Int) : wrapInt (wrapInt value + other) = wrapInt (value + other) := by
  unfold wrapInt
  exact Int.bmod_add_bmod

lemma wrapInt_wrapInt_mul (value other : Int) : wrapInt (wrapInt value * other) = wrapInt (value * other) := by
  unfold wrapInt
  exact Int.bmod_mul_bmod

lemma wrapInt_of_fits {value : Int} (low : -2 ^ 31 ≤ value) (high : value < 2 ^ 31) : wrapInt value = value := by
  unfold wrapInt
  apply Int.bmod_eq_of_le <;> omega

lemma wrapInt_eq {count : Nat} (small : count < 2 ^ 31) : wrapInt count = count :=
  wrapInt_of_fits (by omega) (by omega)

/-- A counter that overflows is off by as many times `2 ^ 32` as it passed its highest value. -/
lemma toUInt64_wrapInt {count : Nat} (small : count < 2 ^ 42) : ∃ turns : Nat, turns ≤ 2 ^ 10 ∧
    (turns = 0 → count < 2 ^ 31) ∧ toUInt64 (wrapInt count) + 2 ^ 32 * turns ≡ count [MOD 2 ^ 64] := by
  refine ⟨(count + 2 ^ 31) / 2 ^ 32, by omega, by omega, ?_⟩
  unfold wrapInt toUInt64 Nat.ModEq
  rw [Int.bmod_def]
  split <;> omega

lemma toUInt64_natCast {word : Nat} (small : word < 2 ^ 64) : toUInt64 word = word := by
  unfold toUInt64
  omega

lemma toUInt64_toLong {word : Nat} (small : word < 2 ^ 63) : toUInt64 (toLong word) = word := by
  unfold toLong toUInt64
  rw [if_pos (by omega)]
  omega

lemma int257_eq {value : Int} (low : 0 ≤ value) (high : value < 2 ^ 256) : int257 value = some value :=
  if_pos ⟨by omega, high⟩

lemma lowDigit_bounds (value : Int) : -2 ^ 51 ≤ lowDigit value ∧ lowDigit value < 2 ^ 51 := by
  unfold lowDigit
  omega

lemma addTiny_eq_some_iff {value word sum : Int} : addTiny value word = some sum ↔
    (-2 ^ 63 ≤ lowDigit value + word ∧ lowDigit value + word + 2 ^ 51 < 2 ^ 63) ∧ value + word = sum := by
  unfold addTiny
  split
  next fits => rw [Option.some.injEq, and_iff_right fits]
  next overflows => exact ⟨nofun, fun both => absurd both.1 overflows⟩

lemma ceilShift_le_iff {value bound : Int} (shift : Nat) : ceilShift value shift ≤ bound ↔ value ≤ bound * 2 ^ shift := by
  unfold ceilShift
  have positive : (0 : Int) < 2 ^ shift := by positivity
  constructor
  · intro less
    have := (Int.le_ediv_iff_mul_le positive).mp (show -bound ≤ -value / 2 ^ shift by omega)
    linarith
  · intro less
    have := (Int.le_ediv_iff_mul_le positive).mpr (show -bound * 2 ^ shift ≤ -value by linarith)
    omega

end TonNode.Lib
