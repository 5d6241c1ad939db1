import TonNode.Vm.BocParser
import TonNode.Vm.DataCellProperties

/-!
# A serialized cell is read back

The bytes of a created cell, followed by its references and anything else, are parsed to the places
where its parts are, and the cell created from them is the cell itself.
-/

namespace TonNode.Vm

open Boc List Bool CellSerializationInfo LevelMask Cell

namespace LevelMask

variable {mask : Nat}

lemma length_significant (small : mask < 8) : ((List.range (getLevel mask + 1)).filter (isSignificant mask)).length =
      getHashesCount mask := by
  revert mask
  decide +kernel

lemma last_significant (small : mask < 8) :
    ((List.range (getLevel mask + 1)).filter (isSignificant mask))[getHashesCount mask - 1]? = some (getLevel mask) := by
  revert mask
  decide +kernel

lemma getHashesCount_le (small : mask < 8) : getHashesCount mask ≤ 4 :=
  Nat.succ_le_succ (getHashI_le small)

end LevelMask

namespace DataCell

variable {sha : Sha256} {cell : DataCell}

lemma significantLevels_length (small : cell.getLevelMask < 8) :
    cell.significantLevels.length = getHashesCount cell.getLevelMask :=
  length_significant small

lemma storedHashes_length (small : cell.getLevelMask < 8) :
    cell.storedHashes.length = getHashesCount cell.getLevelMask * 34 := by
  unfold storedHashes
  rw [length_append, Lib.flatMap_length_of_forall _ (fun level => Lib.packBytes_length _ _),
    Lib.flatMap_length_of_forall _ (fun level => Lib.storeUint_length _ _), significantLevels_length small]
  simp only [hashBytes, depthBytes]
  omega

lemma getHash_getLevel (cell : DataCell) (small : cell.getLevelMask < 8) : cell.getHash cell.getLevel = cell.reprHash := by
  have low : cell.info.getLevel ≤ 3 := getLevel_le small
  have top : min cell.info.getLevel maxLevel = cell.info.getLevel := Nat.min_eq_left low
  unfold reprHash getHash LevelInfo.getHash getLevel
  rw [Nat.min_self, top]

lemma getDepth_getLevel (cell : DataCell) (small : cell.getLevelMask < 8) :
    cell.getDepth cell.getLevel = cell.getDepth maxLevel := by
  have low : cell.info.getLevel ≤ 3 := getLevel_le small
  have top : min cell.info.getLevel maxLevel = cell.info.getLevel := Nat.min_eq_left low
  unfold getDepth LevelInfo.getDepth getLevel
  rw [Nat.min_self, top]

def serializationInfo (cell : DataCell) (withHashes : Bool) (refByteSize : Nat) : CellSerializationInfo :=
  let count := getHashesCount cell.getLevelMask
  let depthOffset := 2 + if withHashes then count * hashBytes else 0
  let dataOffset := depthOffset + if withHashes then count * depthBytes else 0
  let dataLen := (cell.bits.length + 7) / 8
  { special := cell.isSpecial
    levelMask := cell.getLevelMask
    withHashes
    hashesOffset := 2
    depthOffset
    dataOffset
    dataLen
    dataWithBits := cell.bits.length % 8 != 0
    refsOffset := dataOffset + dataLen
    refsCnt := cell.refs.length
    endOffset := dataOffset + dataLen + cell.refs.length * refByteSize }

section

variable (created : Created sha cell)
include created

lemma Created.mask_lt : cell.getLevelMask < 8 :=
  created.wellFormed.mask_lt

lemma Created.constructD1_eq : cell.constructD1 = cell.refs.length + cell.isSpecial.toNat * 8 + cell.getLevelMask * 32 := by
  have small := created.mask_lt
  have same : apply cell.getLevelMask maxLevel = cell.getLevelMask := Nat.mod_eq_of_lt small
  unfold constructD1 CellChecker.descriptor1
  rw [same]

lemma Created.ofDescriptors (withHashes : Bool) (refByteSize : Nat) :
    ofDescriptors (cell.constructD1 + withHashes.toNat * 16)
      cell.constructD2 refByteSize = .ok (cell.serializationInfo withHashes refByteSize) := by
  have small := created.mask_lt
  have few := created.refs_length_le
  have special := toNat_le cell.isSpecial
  have hashes := toNat_le withHashes
  have d1 := created.constructD1_eq
  have refsCnt : (cell.constructD1 + withHashes.toNat * 16) % 8 = cell.refs.length := by omega
  have levelMask : (cell.constructD1 + withHashes.toNat * 16) / 32 = cell.getLevelMask := by omega
  have specialBit : (cell.constructD1 + withHashes.toNat * 16).testBit 3 = cell.isSpecial := by
    have bit : (cell.constructD1 + withHashes.toNat * 16) / 2 ^ 3 % 2 = cell.isSpecial.toNat := by
      omega
    rw [Nat.testBit_eq_decide_div_mod_eq, bit]
    cases cell.isSpecial <;> rfl
  have hashesBit : (cell.constructD1 + withHashes.toNat * 16).testBit 4 = withHashes := by
    have bit : (cell.constructD1 + withHashes.toNat * 16) / 2 ^ 4 % 2 = withHashes.toNat := by
      omega
    rw [Nat.testBit_eq_decide_div_mod_eq, bit]
    cases withHashes <;> rfl
  have dataLen : cell.constructD2 / 2 + cell.constructD2 % 2 = (cell.bits.length + 7) / 8 := by
    unfold constructD2
    omega
  have dataBits : (cell.constructD2 % 2 == 1) = (cell.bits.length % 8 != 0) := by
    rw [Bool.eq_iff_iff]
    simp only [beq_iff_eq, bne_iff_ne]
    unfold constructD2
    omega
  unfold CellSerializationInfo.ofDescriptors serializationInfo
  simp only [refsCnt, levelMask, specialBit, hashesBit, dataLen, dataBits]
  rw [if_neg (by omega)]

lemma Created.getSerializedSize_le (withHashes : Bool) : cell.getSerializedSize withHashes ≤ maxSerializedBytes := by
  have few := getHashesCount_le created.mask_lt
  have short := created.bits_length_le
  unfold getSerializedSize maxSerializedBytes
  simp only [hashBytes, depthBytes, maxBytes, maxLevel]
  split <;> omega

end

def hashPart (cell : DataCell) (withHashes : Bool) : List UInt8 :=
  if withHashes then cell.storedHashes else []

section

variable (created : Created sha cell) (withHashes : Bool)
include created withHashes

lemma Created.serialize_eq : cell.serialize withHashes =
      [UInt8.ofNat (cell.constructD1 + withHashes.toNat * 16), UInt8.ofNat cell.constructD2] ++
        (cell.hashPart withHashes ++ Lib.packBits cell.bits) := by
  unfold serialize hashPart
  rw [if_neg (Nat.not_lt.mpr (created.getSerializedSize_le withHashes)), append_assoc]

lemma Created.hashPart_length : 2 + (cell.hashPart withHashes).length = (cell.serializationInfo withHashes 0).dataOffset := by
  unfold hashPart serializationInfo
  cases withHashes with
  | false => rfl
  | true =>
    simp only [↓reduceIte, storedHashes_length created.mask_lt, hashBytes, depthBytes]
    omega

lemma Created.serialize_length : (cell.serialize withHashes).length = cell.getSerializedSize withHashes := by
  rw [created.serialize_eq, length_append, length_append, Lib.packBits_length]
  unfold hashPart getSerializedSize
  cases withHashes with
  | false =>
    simp only [false_eq_true, ↓reduceIte, length_cons, length_nil]
    omega
  | true =>
    simp only [↓reduceIte, storedHashes_length created.mask_lt, length_cons, length_nil, hashBytes, depthBytes]
    omega

end

lemma serializationInfo_refsOffset (cell : DataCell) (withHashes : Bool) (refByteSize : Nat) :
    (cell.serializationInfo withHashes refByteSize).refsOffset = cell.getSerializedSize withHashes := by
  unfold serializationInfo getSerializedSize
  cases withHashes with
  | false =>
    simp only [false_eq_true, ↓reduceIte]
    omega
  | true =>
    simp only [↓reduceIte, hashBytes, depthBytes]
    omega

lemma serializationInfo_endOffset (cell : DataCell) (withHashes : Bool) (refByteSize : Nat) :
    (cell.serializationInfo withHashes refByteSize).endOffset =
      cell.getSerializedSize withHashes + cell.refs.length * refByteSize := by
  rw [← serializationInfo_refsOffset cell withHashes refByteSize]
  rfl

variable {refByteSize position : Nat}

lemma Created.init_serialize (created : Created sha cell) (withHashes : Bool) {rest : List UInt8}
    (enough : cell.refs.length * refByteSize ≤ rest.length) :
    init (cell.serialize withHashes ++ rest) refByteSize =
      .ok (cell.serializationInfo withHashes refByteSize) := by
  have small := created.mask_lt
  have few := created.refs_length_le
  have short := created.bits_length_le
  have d1Eq := created.constructD1_eq
  have special := toNat_le cell.isSpecial
  have hashes := toNat_le withHashes
  have d1 : byteAt (cell.serialize withHashes ++ rest) 0 =
      cell.constructD1 + withHashes.toNat * 16 := by
    rw [created.serialize_eq]
    exact UInt8.toNat_ofNat_of_lt' (by simp only [UInt8.size]; omega)
  have d2 : byteAt (cell.serialize withHashes ++ rest) 1 = cell.constructD2 := by
    rw [created.serialize_eq]
    refine UInt8.toNat_ofNat_of_lt' ?_
    unfold constructD2
    simp only [UInt8.size]
    omega
  have total : (cell.serialize withHashes ++ rest).length =
      cell.getSerializedSize withHashes + rest.length := by
    rw [length_append, created.serialize_length]
  have two : 2 ≤ cell.getSerializedSize withHashes := by
    unfold getSerializedSize
    omega
  unfold init
  rw [if_neg (by omega), d1, d2, created.ofDescriptors, Lib.ok_bind, serializationInfo_endOffset, if_neg (by omega)]

lemma Created.drop_dataOffset (created : Created sha cell) (withHashes : Bool) (refByteSize : Nat) (rest : List UInt8) :
    (cell.serialize withHashes ++ rest).drop (cell.serializationInfo withHashes refByteSize).dataOffset =
        Lib.packBits cell.bits ++ rest := by
  have before := created.hashPart_length withHashes
  have same : (cell.serializationInfo withHashes refByteSize).dataOffset =
      ([UInt8.ofNat (cell.constructD1 + withHashes.toNat * 16), UInt8.ofNat cell.constructD2] ++
        cell.hashPart withHashes).length := by
    rw [length_append]
    exact before.symm
  rw [created.serialize_eq, ← append_assoc, append_assoc, same, drop_left]

private lemma completion_tag : ∀ value < 256, ∀ used < 7, (Lib.bitsOfByte (UInt8.ofNat value)).drop (used + 1) =
        true :: List.replicate (6 - used) false → 0 < value % 128 ∧ trailingZeroes value = 6 - used := by
  decide +kernel

lemma last_packed_byte {bits : List Bool} (tagged : bits.length % 8 ≠ 0) (rest : List UInt8) :
    byteAt (Lib.packBits bits ++ rest) ((bits.length + 7) / 8 - 1) % 128 ≠ 0 ∧ trailingZeroes
        (byteAt (Lib.packBits bits ++ rest) ((bits.length + 7) / 8 - 1)) = 7 - bits.length % 8 := by
  have index : (bits.length + 7) / 8 - 1 = bits.length / 8 := by omega
  have inside : bits.length / 8 < (Lib.packBits bits).length := by
    rw [Lib.packBits_length]
    omega
  have inAll : bits.length / 8 < (Lib.packBits bits ++ rest).length := by
    rw [length_append]
    omega
  have complete : (Lib.completeBits bits).length = 8 * ((bits.length + 7) / 8) := Lib.completeBits_length bits
  have lastBits : Lib.bitsOfByte ((Lib.packBits bits ++ rest).getD (bits.length / 8) 0) =
      (Lib.completeBits bits).drop (8 * (bits.length / 8)) := by
    rw [Lib.bitsOfByte_getD _ inAll, Lib.unpackBits_append, Lib.unpackBits_packBits,
      drop_append_of_le_length (by omega), take_append_of_le_length]
    · rw [take_of_length_le]
      rw [length_drop]
      omega
    · rw [length_drop]
      omega
  have tag : ((Lib.completeBits bits).drop (8 * (bits.length / 8))).drop (bits.length % 8) =
      true :: List.replicate (7 - bits.length % 8) false := by
    rw [drop_drop, Nat.div_add_mod, Lib.completeBits, if_neg tagged, drop_left]
  obtain ⟨used, usedEq⟩ : ∃ used, bits.length % 8 = used + 1 := ⟨bits.length % 8 - 1, by omega⟩
  have found := completion_tag ((Lib.packBits bits ++ rest).getD (bits.length / 8) 0).toNat (UInt8.toNat_lt _) used (by omega)
  rw [UInt8.ofNat_toNat, lastBits, ← usedEq] at found
  obtain ⟨nonzero, zeroes⟩ := found (by rw [tag]; congr 2; omega)
  rw [index]
  unfold byteAt
  exact ⟨by omega, by omega⟩

section

variable (created : Created sha cell) {level : Nat}
include created

lemma Created.getBits (withHashes : Bool) (refByteSize : Nat) (rest : List UInt8) :
    (cell.serializationInfo withHashes refByteSize).getBits (cell.serialize withHashes ++ rest) = .ok cell.bits.length := by
  unfold CellSerializationInfo.getBits
  have withBits : (cell.serializationInfo withHashes refByteSize).dataWithBits = (cell.bits.length % 8 != 0) := rfl
  have dataLen : (cell.serializationInfo withHashes refByteSize).dataLen = (cell.bits.length + 7) / 8 := rfl
  rw [withBits, dataLen]
  by_cases whole : cell.bits.length % 8 = 0
  · rw [if_neg (by simp [whole])]
    congr 1
    omega
  · rw [if_pos (by simp [whole])]
    have place : byteAt (cell.serialize withHashes ++ rest)
        ((cell.serializationInfo withHashes refByteSize).dataOffset + (cell.bits.length + 7) / 8 - 1) =
        byteAt (Lib.packBits cell.bits ++ rest) ((cell.bits.length + 7) / 8 - 1) := by
      rw [← created.drop_dataOffset withHashes refByteSize rest]
      unfold byteAt
      rw [getD_eq_getElem?_getD, getD_eq_getElem?_getD, getElem?_drop]
      congr 3
      omega
    obtain ⟨nonzero, zeroes⟩ := last_packed_byte whole rest
    simp only [place]
    rw [if_neg nonzero, zeroes]
    congr 1
    omega

lemma Created.drop_hashes (rest : List UInt8) : (cell.serialize true ++ rest).drop 2 =
      cell.storedHashes ++ (Lib.packBits cell.bits ++ rest) := by
  rw [created.serialize_eq]
  simp [hashPart]

lemma Created.hashAt (rest : List UInt8) (found : cell.significantLevels[position]? = some level) :
    (cell.serializationInfo true refByteSize).hashAt (cell.serialize true ++ rest) position = cell.getHash level := by
  have whole : (cell.getHash level).length = 256 := created.wellFormed.hash_length level
  have hashesOffset : (cell.serializationInfo true refByteSize).hashesOffset = 2 := rfl
  unfold CellSerializationInfo.hashAt substr
  rw [hashesOffset, ← drop_drop, created.drop_hashes]
  unfold storedHashes
  rw [append_assoc, Lib.take_drop_flatMap _ (fun level => Lib.packBytes_length _ _) found,
    Lib.unpackBits_packBytes (by rw [whole]; decide)]
  exact take_of_length_le (by rw [whole]; decide)

lemma Created.depthAt (rest : List UInt8) (found : cell.significantLevels[position]? = some level) :
    (cell.serializationInfo true refByteSize).depthAt (cell.serialize true ++ rest) position = cell.getDepth level := by
  have low : cell.getDepth level ≤ 1024 := created.wellFormed.depth_le level
  have depthOffset : (cell.serializationInfo true refByteSize).depthOffset =
      2 + cell.significantLevels.length * hashBytes := by
    rw [significantLevels_length created.mask_lt]
    rfl
  have hashes : (cell.significantLevels.flatMap fun level =>
      Lib.packBytes hashBytes (cell.getHash level)).length = cell.significantLevels.length * hashBytes :=
    Lib.flatMap_length_of_forall _ fun level => Lib.packBytes_length _ _
  unfold CellSerializationInfo.depthAt readAt substr
  rw [depthOffset, Nat.add_assoc, ← drop_drop, created.drop_hashes, ← drop_drop]
  unfold storedHashes
  rw [append_assoc, ← hashes, drop_left, Lib.take_drop_flatMap _ (fun level => Lib.storeUint_length _ _) found]
  apply Lib.readInt_storeUint
  simp only [depthBytes]
  omega

lemma Created.checkLowerHashes (refByteSize : Nat) (rest : List UInt8) {levels after : List Nat}
    (stored : cell.significantLevels.drop position = levels.filter (isSignificant cell.getLevelMask) ++ after) :
    (cell.serializationInfo true refByteSize).checkLowerHashes (cell.serialize true ++ rest) cell position levels = .ok () := by
  induction levels generalizing position with
  | nil => rfl
  | cons level levels ih =>
    have levelMask : (cell.serializationInfo true refByteSize).levelMask = cell.getLevelMask := rfl
    rw [checkLowerHashes, levelMask]
    cases significant : isSignificant cell.getLevelMask level with
    | false =>
      simp only [false_eq_true, ↓reduceIte]
      apply ih
      rw [stored, filter_cons, significant]
      rfl
    | true =>
      rw [filter_cons, significant] at stored
      simp only [↓reduceIte, cons_append] at stored
      have found : cell.significantLevels[position]? = some level := by
        have head : (cell.significantLevels.drop position)[0]? = some level := by rw [stored]; rfl
        rwa [getElem?_drop, Nat.add_zero] at head
      have next : cell.significantLevels.drop (position + 1) =
          levels.filter (isSignificant cell.getLevelMask) ++ after := by
        rw [← drop_drop, stored]
        rfl
      simp only [↓reduceIte]
      rw [created.hashAt rest found, created.depthAt rest found, if_neg (by simp), if_neg (by simp)]
      exact ih next

lemma Created.checkHashes (refByteSize : Nat) (rest : List UInt8) :
    (cell.serializationInfo true refByteSize).checkHashes (cell.serialize true ++ rest) cell = .ok () := by
  have last : cell.significantLevels[_]? = some cell.getLevel := last_significant created.mask_lt
  have levelMask : (cell.serializationInfo true refByteSize).levelMask = cell.getLevelMask := rfl
  unfold CellSerializationInfo.checkHashes
  simp only [levelMask]
  rw [created.hashAt rest last, created.depthAt rest last,
    getHash_getLevel cell created.mask_lt, getDepth_getLevel cell created.mask_lt, if_neg (by simp), if_neg (by simp)]
  apply created.checkLowerHashes refByteSize rest
  rw [drop_zero]
  unfold significantLevels
  rw [range_succ, filter_append]
  rfl

lemma Created.createDataCell (withHashes : Bool) (refByteSize : Nat) (rest : List UInt8) :
    (cell.serializationInfo withHashes refByteSize).createDataCell sha
      (cell.serialize withHashes ++ rest) cell.refs = .ok cell := by
  have special : (cell.serializationInfo withHashes refByteSize).special = cell.isSpecial := rfl
  have levelMask : (cell.serializationInfo withHashes refByteSize).levelMask = cell.getLevelMask := rfl
  have stored : (cell.serializationInfo withHashes refByteSize).withHashes = withHashes := rfl
  unfold CellSerializationInfo.createDataCell
  rw [created.getBits, Lib.ok_bind, created.drop_dataOffset, Lib.take_unpackBits_packBits, special]
  simp only [created.recreate, levelMask, stored, ne_eq, not_true_eq_false, ↓reduceIte]
  cases withHashes with
  | false => rfl
  | true => simp only [↓reduceIte, created.checkHashes, Lib.ok_bind]

end

end DataCell

end TonNode.Vm
