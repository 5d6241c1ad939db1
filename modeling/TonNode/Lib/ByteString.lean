import Mathlib

/-!
# Byte strings

Big-endian numbers in a fixed number of bytes, and bit strings packed into bytes with a completion
tag: a one and as many zeros as fill the last byte.
-/

namespace TonNode.Lib

open List

/-- The low `count` bytes of a number, the highest first. -/
def storeUint (value : Nat) : Nat → List UInt8
  | 0 => []
  | count + 1 => storeUint (value / 256) count ++ [UInt8.ofNat value]

def readInt (bytes : List UInt8) : Nat :=
  bytes.foldl (fun value byte => value * 256 + byte.toNat) 0

@[simp] lemma storeUint_length (value count : Nat) : (storeUint value count).length = count := by
  induction count generalizing value with
  | zero => rfl
  | succ count ih => simp [storeUint, ih]

lemma readInt_append_singleton (bytes : List UInt8) (byte : UInt8) :
    readInt (bytes ++ [byte]) = readInt bytes * 256 + byte.toNat := by
  simp [readInt, foldl_append]

lemma readInt_storeUint_mod (value count : Nat) : readInt (storeUint value count) = value % 256 ^ count := by
  induction count generalizing value with
  | zero => simp [storeUint, readInt, Nat.mod_one]
  | succ count ih =>
    have low : (UInt8.ofNat value).toNat = value % 256 := UInt8.toNat_ofNat'
    have split : value % 256 ^ (count + 1) = value % 256 + 256 * (value / 256 % 256 ^ count) := by
      rw [Nat.pow_succ, Nat.mul_comm (256 ^ count) 256, Nat.mod_mul]
    rw [storeUint, readInt_append_singleton, ih, low, split]
    omega

lemma readInt_storeUint {value count : Nat} (fits : value < 256 ^ count) : readInt (storeUint value count) = value := by
  rw [readInt_storeUint_mod, Nat.mod_eq_of_lt fits]

/-- The bits of a byte, the highest first. -/
def bitsOfByte (byte : UInt8) : List Bool :=
  [byte.toNat.testBit 7, byte.toNat.testBit 6, byte.toNat.testBit 5, byte.toNat.testBit 4,
    byte.toNat.testBit 3, byte.toNat.testBit 2, byte.toNat.testBit 1, byte.toNat.testBit 0]

def byteOfBits (bits : List Bool) : UInt8 :=
  UInt8.ofNat (bits.foldl (fun value bit => 2 * value + bit.toNat) 0)

def unpackBits (bytes : List UInt8) : List Bool := bytes.flatMap bitsOfByte

/-- The first `count` bytes of a bit string. -/
def packBytes : Nat → List Bool → List UInt8
  | 0, _ => []
  | count + 1, bits => byteOfBits (bits.take 8) :: packBytes count (bits.drop 8)

/-- A bit string with its completion tag, unless it fills its last byte. -/
def completeBits (bits : List Bool) : List Bool :=
  if bits.length % 8 = 0 then bits
  else bits ++ true :: List.replicate (7 - bits.length % 8) false

def packBits (bits : List Bool) : List UInt8 :=
  packBytes ((bits.length + 7) / 8) (completeBits bits)

private lemma bitsOfByte_byteOfBits_cons : ∀ b₇ b₆ b₅ b₄ b₃ b₂ b₁ b₀ : Bool,
      bitsOfByte (byteOfBits [b₇, b₆, b₅, b₄, b₃, b₂, b₁, b₀]) = [b₇, b₆, b₅, b₄, b₃, b₂, b₁, b₀] := by
  decide +kernel

lemma bitsOfByte_byteOfBits {bits : List Bool} (whole : bits.length = 8) : bitsOfByte (byteOfBits bits) = bits := by
  obtain ⟨b₇, b₆, b₅, b₄, b₃, b₂, b₁, b₀, rfl⟩ :
      ∃ b₇ b₆ b₅ b₄ b₃ b₂ b₁ b₀, bits = [b₇, b₆, b₅, b₄, b₃, b₂, b₁, b₀] := by
    match bits, whole with
    | [b₇, b₆, b₅, b₄, b₃, b₂, b₁, b₀], _ => exact ⟨_, _, _, _, _, _, _, _, rfl⟩
  apply bitsOfByte_byteOfBits_cons

@[simp] lemma packBytes_length (count : Nat) (bits : List Bool) : (packBytes count bits).length = count := by
  induction count generalizing bits with
  | zero => rfl
  | succ count ih => simp [packBytes, ih]

@[simp] lemma packBits_length (bits : List Bool) : (packBits bits).length = (bits.length + 7) / 8 := by
  simp [packBits]

lemma unpackBits_append (first second : List UInt8) : unpackBits (first ++ second) = unpackBits first ++ unpackBits second := by
  simp [unpackBits]

lemma unpackBits_packBytes {count : Nat} {bits : List Bool} (enough : 8 * count ≤ bits.length) :
    unpackBits (packBytes count bits) = bits.take (8 * count) := by
  induction count generalizing bits with
  | zero => rfl
  | succ count ih =>
    have first : (bits.take 8).length = 8 := by rw [length_take]; omega
    have rest : 8 * count ≤ (bits.drop 8).length := by rw [length_drop]; omega
    have here : unpackBits (packBytes (count + 1) bits) =
        bitsOfByte (byteOfBits (bits.take 8)) ++ unpackBits (packBytes count (bits.drop 8)) := by
      simp [packBytes, unpackBits]
    rw [here, bitsOfByte_byteOfBits first, ih rest, Nat.mul_succ, Nat.add_comm, take_add]

lemma completeBits_length (bits : List Bool) : (completeBits bits).length = 8 * ((bits.length + 7) / 8) := by
  unfold completeBits
  split
  · omega
  · simp only [length_append, length_cons, length_replicate]
    omega

lemma unpackBits_packBits (bits : List Bool) : unpackBits (packBits bits) = completeBits bits := by
  have whole := completeBits_length bits
  rw [packBits, unpackBits_packBytes (by omega), ← whole, take_length]

lemma take_unpackBits_packBits (bits : List Bool) (rest : List UInt8) :
    (unpackBits (packBits bits ++ rest)).take bits.length = bits := by
  rw [unpackBits_append, unpackBits_packBits, completeBits]
  split
  · simp
  · simp

lemma bitsOfByte_getD (bytes : List UInt8) {index : Nat} (inside : index < bytes.length) :
    bitsOfByte (bytes.getD index 0) = ((unpackBits bytes).drop (8 * index)).take 8 := by
  induction bytes generalizing index with
  | nil => cases inside
  | cons byte rest ih =>
    have whole : (bitsOfByte byte).length = 8 := rfl
    cases index with
    | zero =>
      simp only [unpackBits, flatMap_cons, getD_cons_zero, Nat.mul_zero, drop_zero]
      rw [← whole, take_left]
    | succ index =>
      have inRest : index < rest.length := by simpa using inside
      have skip : 8 * (index + 1) = (bitsOfByte byte).length + 8 * index := by omega
      simp only [unpackBits, flatMap_cons, getD_cons_succ] at ih ⊢
      rw [skip, drop_append, drop_of_length_le (by omega), nil_append, Nat.add_sub_cancel_left]
      exact ih inRest

section Records

variable {α β : Type} {record : α → List β} {size : Nat}

lemma flatMap_length_of_forall (items : List α) (sized : ∀ item, (record item).length = size) :
    (items.flatMap record).length = items.length * size := by
  induction items with
  | nil => simp
  | cons item rest ih => simp [sized item, ih, Nat.succ_mul, Nat.add_comm]

variable {position : Nat} {item : α}

lemma take_drop_flatMap (items : List α) (sized : ∀ item, (record item).length = size)
    (found : items[position]? = some item) (rest : List β) :
    ((items.flatMap record ++ rest).drop (size * position)).take size = record item := by
  induction items generalizing position with
  | nil => simp at found
  | cons head tail ih =>
    have headSize := sized head
    cases position with
    | zero =>
      have same : head = item := by simpa using found
      subst same
      simp [← headSize]
    | succ position =>
      have inTail : tail[position]? = some item := by simpa using found
      have skip : size * (position + 1) = (record head).length + size * position := by
        rw [headSize, Nat.mul_succ, Nat.add_comm]
      rw [flatMap_cons, append_assoc, skip, ← drop_drop, drop_left]
      exact ih inTail

lemma drop_flatMap_take (items : List α) (found : items[position]? = some item) :
    (items.flatMap record).drop ((items.take position).flatMap record).length =
      record item ++ (items.drop (position + 1)).flatMap record := by
  obtain ⟨inside, rfl⟩ := List.getElem?_eq_some_iff.mp found
  have split : items = items.take position ++ items[position] :: items.drop (position + 1) := by
    rw [← List.drop_eq_getElem_cons inside, List.take_append_drop]
  have whole : items.flatMap record = (items.take position).flatMap record ++
      (record items[position] ++ (items.drop (position + 1)).flatMap record) := by
    conv_lhs => rw [split]
    rw [flatMap_append, flatMap_cons]
  rw [whole, drop_left]

lemma length_flatMap_take_succ (items : List α) (found : items[position]? = some item) :
    ((items.take (position + 1)).flatMap record).length =
      ((items.take position).flatMap record).length + (record item).length := by
  rw [take_add_one, found]
  simp

end Records

end TonNode.Lib
