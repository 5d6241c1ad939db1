import TonNode.Lib.BitMap
import TonNode.Vm.Cell

/-!
# Edge labels of dictionaries

A node of a dictionary starts with the label of the edge that leads to it, in one of three
encodings: the length in unary, the length in binary, or one repeated bit.
-/

namespace TonNode.Vm

open Lib List

/-- `32 - count_leading_zeroes32(n)` -/
def lenBits (n : Nat) : Nat :=
  if n = 0 then 0 else Nat.log2 n + 1

/-- A label that has been read; the label itself still stands at the start of `remainder` unless
it is one repeated bit. -/
structure LabelParser where
  remainder : CellSlice
  lSame : Nat
  lBits : Nat
  sBits : Nat

namespace LabelParser

def parseLabel (cs : CellSlice) (maxLabelLen : Nat) : Option LabelParser :=
  match cs.bits with
  | false :: false :: _ =>
    some { remainder := cs.advance 2, lSame := 0, lBits := 0, sBits := 0 }
  | false :: true :: _ =>
    let cs := cs.advance 1
    let lBits := (cs.bits.takeWhile id).length
    if maxLabelLen < lBits ∨ cs.bits.length < 2 * lBits + 1 then none
    else some { remainder := cs.advance (lBits + 1), lSame := 0, lBits, sBits := lBits }
  | true :: false :: _ =>
    match (cs.advance 2).fetchUlong (lenBits maxLabelLen) with
    | none => none
    | some (lBits, cs) =>
      if maxLabelLen < lBits ∨ cs.bits.length < lBits then none
      else some { remainder := cs, lSame := 0, lBits, sBits := lBits }
  | true :: true :: same :: _ =>
    match (cs.advance 3).fetchUlong (lenBits maxLabelLen) with
    | none => none
    | some (lBits, cs) =>
      if maxLabelLen < lBits then none
      else some { remainder := cs, lSame := 6 + same.toNat, lBits, sBits := 0 }
  | _ => none

def validateExt (label : LabelParser) (n : Nat) : Except Thrown Unit :=
  if n < label.lBits then .error (.vmError .dictErr "invalid dictionary node")
  else if label.lBits < n ∧
      (label.remainder.bits.length ≠ label.sBits ∨ label.remainder.refs.length ≠ 2) then
    .error (.vmError .dictErr "invalid dictionary fork node")
  else .ok ()

/-- The constructor, with every check on. -/
def ofCell (cell : Option Cell) (maxLabelLen : Nat) : Except Thrown LabelParser := do
  let cs ← loadCellSlice cell
  let label ← orThrow (parseLabel cs maxLabelLen)
    (.vmError .cellUnd "error while parsing a dictionary node label")
  label.validateExt maxLabelLen
  return label

def same (label : LabelParser) : Bool := label.lSame % 2 = 1

/-- The length of the part of `key` that repeats one bit from its start. -/
def bitsMemscan (key : List Bool) (bit : Bool) : Nat :=
  (key.takeWhile (· = bit)).length

def isPrefixOf (label : LabelParser) (key : List Bool) (len : Nat) : Bool :=
  if len < label.lBits then false
  else if label.lSame = 0 then
    label.lBits ≤ label.remainder.bits.length && label.remainder.bits.take label.lBits = key.take label.lBits
  else bitsMemscan (key.take label.lBits) label.same = label.lBits

def commonPrefixLen (label : LabelParser) (key : List Bool) (len : Nat) : Nat :=
  if label.lSame = 0 then
    Lib.commonPrefixLen label.remainder.bits (key.take (min label.lBits len))
  else bitsMemscan (key.take (min label.lBits len)) label.same

/-- The bits `extract_label_to` writes. -/
def bits (label : LabelParser) : List Bool :=
  if label.lSame = 0 then label.remainder.bits.take label.lBits
  else List.replicate label.lBits label.same

/-- The rest of the node, after `extract_label_to` or `skip_label`. -/
def payload (label : LabelParser) : CellSlice := label.remainder.advance label.sBits

end LabelParser

def appendDictLabelSame (cb : CellBuilder) (same : Bool) (len maxLen : Nat) : Except Thrown CellBuilder := do
  let k := lenBits maxLen
  ensure (len ≤ maxLen ∧ maxLen ≤ 1023) .assertion
  if 1 < len ∧ k < 2 * len - 1 then
    -- mode '11'
    let cb ← cb.storeLong (6 + same.toNat) 3
    cb.storeLong len k
  else if k < len then
    -- mode '10'
    let cb ← cb.storeLong 2 2
    let cb ← cb.storeLong len k
    cb.storeLong (-same.toNat) len
  else
    -- mode '0'
    let cb ← cb.storeLong 0 1
    let cb ← cb.storeLong (-2) (len + 1)
    cb.storeLong (-same.toNat) len

/-- The mode and the length of a label that is not one repeated bit. -/
def appendDictLabelHead (cb : CellBuilder) (len maxLen : Nat) : Except Thrown CellBuilder := do
  let k := lenBits maxLen
  if k < len then
    let cb ← cb.storeLong 2 2
    cb.storeLong len k
  else
    let cb ← cb.storeLong 0 1
    cb.storeLong (-2) (len + 1)

def appendDictLabel (cb : CellBuilder) (label : List Bool) (len maxLen : Nat) : Except Thrown CellBuilder := do
  ensure (len ≤ maxLen ∧ maxLen ≤ 1023) .assertion
  let first := label.headD false
  if 0 < len ∧ LabelParser.bitsMemscan (label.take len) first = len then
    appendDictLabelSame cb first len maxLen
  else
    let cb ← appendDictLabelHead cb len maxLen
    if cb.remainingBits < len then
      .error (.vmError .cellOv "cannot store a label into a dictionary cell")
    else cb.storeBits (label.take len)

def shortLabel (label : List Bool) : List Bool :=
  false :: (List.replicate label.length true ++ false :: label)

def longLabel (n : Nat) (label : List Bool) : List Bool :=
  true :: false :: (longBits label.length (lenBits n) ++ label)

def sameLabel (n : Nat) (bit : Bool) (len : Nat) : List Bool :=
  true :: true :: bit :: longBits len (lenBits n)

inductive LabelEncoding (n : Nat) : List Bool → List Bool → Prop where
  | short {label : List Bool} : label.length ≤ n → LabelEncoding n label (shortLabel label)
  | long {label : List Bool} : label.length ≤ n → LabelEncoding n label (longLabel n label)
  | same {bit : Bool} {len : Nat} :
      len ≤ n → LabelEncoding n (List.replicate len bit) (sameLabel n bit len)

def dictLabel (n : Nat) (label : List Bool) : List Bool :=
  if label = List.replicate label.length (label.headD false) ∧ 1 < label.length ∧
      lenBits n < 2 * label.length - 1 then
    sameLabel n (label.headD false) label.length
  else if lenBits n < label.length then longLabel n label
  else shortLabel label

lemma shortLabel_length (label : List Bool) : (shortLabel label).length = 2 * label.length + 2 := by
  simp [shortLabel]
  omega

lemma longLabel_length (n : Nat) (label : List Bool) : (longLabel n label).length = 2 + lenBits n + label.length := by
  simp [longLabel, longBits_length]
  omega

lemma sameLabel_length (n : Nat) (bit : Bool) (len : Nat) : (sameLabel n bit len).length = 3 + lenBits n := by
  simp [sameLabel, longBits_length]
  omega

variable {n : Nat} {label : List Bool} {bits : List Bool}

lemma LabelEncoding.length_le (encoding : LabelEncoding n label bits) : label.length ≤ n := by
  cases encoding with
  | short fits => exact fits
  | long fits => exact fits
  | same fits => simpa using fits

lemma dictLabel_encoding (fits : label.length ≤ n) : LabelEncoding n label (dictLabel n label) := by
  unfold dictLabel
  split
  next uniform =>
    have encoding : LabelEncoding n (List.replicate label.length (label.headD false)) _ := .same fits
    rwa [← uniform.1] at encoding
  · split
    · exact .long fits
    · exact .short fits

private lemma replicate_uniform (len : Nat) (bit : Bool) :
    List.replicate len bit = List.replicate len ((List.replicate len bit).headD false) := by
  cases len with
  | zero => rfl
  | succ len => rfl

private lemma lenBits_pos (positive : 0 < n) : 1 ≤ lenBits n := by
  unfold lenBits
  split <;> omega

lemma dictLabel_shortest (encoding : LabelEncoding n label bits) : (dictLabel n label).length ≤ bits.length := by
  have fits := encoding.length_le
  unfold dictLabel
  split
  next uniform =>
    cases encoding with
    | short _ => rw [sameLabel_length, shortLabel_length]; omega
    | long _ => rw [sameLabel_length, longLabel_length]; omega
    | same _ => simp only [sameLabel_length, Nat.le_refl]
  next mixed =>
    cases encoding with
    | short _ =>
      split
      · rw [longLabel_length, shortLabel_length]; omega
      · exact Nat.le_refl _
    | long _ =>
      split
      · exact Nat.le_refl _
      · rw [longLabel_length, shortLabel_length]; omega
    | @same bit len _ =>
      simp only [not_and, length_replicate] at mixed fits ⊢
      have notSame := mixed (replicate_uniform len bit)
      have positive : 0 < len → 1 ≤ lenBits n := fun some => lenBits_pos (by omega)
      split
      · rw [longLabel_length, sameLabel_length, length_replicate]; omega
      · rw [shortLabel_length, sameLabel_length, length_replicate]; omega

lemma lenBits_spec (n : Nat) : n < 2 ^ lenBits n := by
  unfold lenBits
  split
  · omega
  · exact Nat.lt_log2_self

end TonNode.Vm
