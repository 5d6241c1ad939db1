import TonNode.Lib.ExceptBind

/-!
# Cells, slices and builders

A cell holds up to 1023 bits and up to 4 references. A slice is what is left of a loaded cell, a
builder what has been stored so far.
-/

namespace TonNode.Vm

open List

inductive SpecialType where
  | ordinary
  | prunnedBranch
  | library
  | merkleProof
  | merkleUpdate
deriving DecidableEq

inductive Cell where
  | mk (specialType : SpecialType) (bits : List Bool) (refs : List Cell)

namespace Cell

def maxBits : Nat := 1023
def maxRefs : Nat := 4
def maxDepth : Nat := 1024

def specialType : Cell → SpecialType
  | .mk specialType _ _ => specialType

def bits : Cell → List Bool
  | .mk _ bits _ => bits

def refs : Cell → List Cell
  | .mk _ _ refs => refs

mutual

def depth : Cell → Nat
  | .mk _ _ refs => refsDepth refs

def refsDepth : List Cell → Nat
  | [] => 0
  | cell :: rest => max (depth cell + 1) (refsDepth rest)

end

end Cell

inductive Excno where
  | cellOv
  | cellUnd
  | dictErr
deriving DecidableEq

/-- What the code below throws; a failed `assert` or `CHECK` is `assertion`. -/
inductive Thrown where
  | vmError (excno : Excno) (message : String)
  | cellCreateError
  | cellWriteError
  | combineError
  | assertion
deriving DecidableEq

namespace Thrown

/-- The exceptions the virtual machine reports as a cell overflow. -/
def IsCellOverflow : Thrown → Prop
  | .vmError .cellOv _ => True
  | .cellCreateError => True
  | .cellWriteError => True
  | _ => False

instance : DecidablePred IsCellOverflow := fun thrown => by
  cases thrown with
  | vmError excno message => cases excno <;> unfold IsCellOverflow <;> infer_instance
  | _ => unfold IsCellOverflow; infer_instance

end Thrown

/-- The source's `assert` and `CHECK`. -/
def ensure (condition : Prop) [Decidable condition] (thrown : Thrown) : Except Thrown Unit :=
  if condition then .ok () else .error thrown

/-- The low `width` bits of a two's complement number, the highest first. -/
def longBits (value : Int) : Nat → List Bool
  | 0 => []
  | width + 1 => longBits (value / 2) width ++ [decide (value % 2 = 1)]

/-- The unsigned number a bit string spells, the highest bit first. -/
def bitsValue (bits : List Bool) : Nat :=
  bits.foldl (fun value bit => 2 * value + bit.toNat) 0

structure CellSlice where
  bits : List Bool
  refs : List Cell

namespace CellSlice

def advance (cs : CellSlice) (count : Nat) : CellSlice :=
  if count ≤ cs.bits.length then { cs with bits := cs.bits.drop count } else cs

def fetchUlong (cs : CellSlice) (count : Nat) : Option (Nat × CellSlice) :=
  if cs.bits.length < count then none
  else some (bitsValue (cs.bits.take count), cs.advance count)

def prefetchRef (cs : CellSlice) (offset : Nat) : Option Cell :=
  cs.refs[offset]?

end CellSlice

/-- The slice of an ordinary cell; no library is available here. -/
def loadCellSlice : Option Cell → Except Thrown CellSlice
  | none => .error .assertion
  | some (.mk specialType bits refs) =>
    match specialType with
    | .ordinary => .ok { bits, refs }
    | .library =>
      .error (.vmError .cellUnd
        "failed to load library cell (no vm_state_interface available)")
    | .prunnedBranch => .error (.vmError .cellUnd "trying to load prunned cell")
    | .merkleProof | .merkleUpdate => .error (.vmError .cellUnd "unexpected special cell")

structure CellBuilder where
  bits : List Bool
  refs : List Cell

namespace CellBuilder

def new : CellBuilder := { bits := [], refs := [] }

def canExtendBy (cb : CellBuilder) (newBits newRefs : Nat) : Bool :=
  cb.bits.length + newBits ≤ Cell.maxBits && cb.refs.length + newRefs ≤ Cell.maxRefs

def remainingBits (cb : CellBuilder) : Nat := Cell.maxBits - cb.bits.length

def append (cb : CellBuilder) (cs : CellSlice) : CellBuilder :=
  { bits := cb.bits ++ cs.bits, refs := cb.refs ++ cs.refs }

def storeBits (cb : CellBuilder) (bits : List Bool) : Except Thrown CellBuilder :=
  if cb.canExtendBy bits.length 0 then .ok { cb with bits := cb.bits ++ bits }
  else .error .cellCreateError

def storeLong (cb : CellBuilder) (value : Int) (valueBits : Nat) : Except Thrown CellBuilder :=
  cb.storeBits (longBits value valueBits)

def storeRefBool (cb : CellBuilder) : Option Cell → Option CellBuilder
  | none => none
  | some ref =>
    if cb.refs.length < Cell.maxRefs then some { cb with refs := cb.refs ++ [ref] } else none

def storeRef (cb : CellBuilder) (ref : Option Cell) : Except Thrown CellBuilder :=
  match cb.storeRefBool ref with
  | some stored => .ok stored
  | none => .error .cellCreateError

/-- The source's `append_cellslice_bool`, `append_builder_bool` and
`cell_builder_add_slice_bool`. -/
def addSliceBool (cb : CellBuilder) (cs : CellSlice) : Option CellBuilder :=
  if cb.canExtendBy cs.bits.length cs.refs.length then some (cb.append cs) else none

def finalize (cb : CellBuilder) : Except Thrown Cell :=
  if cb.refs.length ≤ Cell.maxRefs ∧ cb.bits.length ≤ Cell.maxBits ∧
      Cell.refsDepth cb.refs ≤ Cell.maxDepth then
    .ok (.mk .ordinary cb.bits cb.refs)
  else .error .cellWriteError

end CellBuilder

def orThrow {α : Type} (result : Option α) (thrown : Thrown) : Except Thrown α :=
  match result with
  | some value => .ok value
  | none => .error thrown

/-- A computation that overflows a cell or returns a value that `holds`. -/
abbrev Yields {α : Type} (result : Except Thrown α) (holds : α → Prop) : Prop :=
  Lib.Ensures Thrown.IsCellOverflow result holds

lemma ensure_eq {condition : Prop} [Decidable condition] (holds : condition) (thrown : Thrown) :
    ensure condition thrown = .ok () :=
  if_pos holds

lemma orThrow_addSlice_yields (cb : CellBuilder) (cs : CellSlice) {thrown : Thrown} (overflow : thrown.IsCellOverflow) :
    Yields (orThrow (cb.addSliceBool cs) thrown) (· = cb.append cs) := by
  unfold CellBuilder.addSliceBool
  split
  · exact rfl
  · exact overflow

namespace CellBuilder

lemma storeBits_yields (cb : CellBuilder) (bits : List Bool) :
    Yields (cb.storeBits bits) (· = { cb with bits := cb.bits ++ bits }) := by
  unfold storeBits
  split
  · exact rfl
  · exact trivial

lemma storeRef_yields (cb : CellBuilder) (ref : Cell) :
    Yields (cb.storeRef (some ref)) (· = { cb with refs := cb.refs ++ [ref] }) := by
  unfold storeRef storeRefBool
  split
  next stored same =>
    simp only [Option.ite_none_right_eq_some, Option.some.injEq] at same
    exact same.2.symm
  · exact trivial

lemma finalize_yields (cb : CellBuilder) : Yields cb.finalize (· = .mk .ordinary cb.bits cb.refs) := by
  unfold finalize
  split
  · exact rfl
  · exact trivial

end CellBuilder

lemma longBits_length (value : Int) (width : Nat) : (longBits value width).length = width := by
  induction width generalizing value with
  | zero => rfl
  | succ width ih => simp [longBits, ih]

lemma longBits_neg_one (width : Nat) : longBits (-1) width = List.replicate width true := by
  induction width with
  | zero => rfl
  | succ width ih =>
    have half : (-1 : Int) / 2 = -1 := by decide
    rw [longBits, half, ih, replicate_succ']
    rfl

lemma longBits_zero (width : Nat) : longBits 0 width = List.replicate width false := by
  induction width with
  | zero => rfl
  | succ width ih =>
    rw [longBits, Int.zero_ediv, ih, replicate_succ']
    rfl

lemma longBits_neg_two (width : Nat) : longBits (-2) (width + 1) = List.replicate width true ++ [false] := by
  have half : (-2 : Int) / 2 = -1 := by decide
  rw [longBits, half, longBits_neg_one]
  rfl

private lemma bitsValue_append_singleton (bits : List Bool) (bit : Bool) :
    bitsValue (bits ++ [bit]) = 2 * bitsValue bits + bit.toNat := by
  simp [bitsValue, foldl_append]

lemma bitsValue_append (left right : List Bool) :
    bitsValue (left ++ right) = bitsValue left * 2 ^ right.length + bitsValue right := by
  induction right using List.reverseRecOn with
  | nil => simp [bitsValue]
  | append_singleton front last ih =>
    rw [← append_assoc, bitsValue_append_singleton, ih, bitsValue_append_singleton, length_append,
      length_singleton, Nat.pow_succ, ← Nat.mul_assoc]
    omega

lemma longBits_bitsValue (bits : List Bool) : longBits (bitsValue bits) bits.length = bits := by
  induction bits using List.reverseRecOn with
  | nil => rfl
  | append_singleton front last ih =>
    have small := Bool.toNat_le last
    have half : ((2 * bitsValue front + last.toNat : Nat) : Int) / 2 = bitsValue front := by omega
    have bit : decide (((2 * bitsValue front + last.toNat : Nat) : Int) % 2 = 1) = last := by
      cases last <;> simp [Int.add_emod]
    rw [bitsValue_append_singleton, length_append, length_singleton, longBits, half, ih, bit]

lemma bitsValue_longBits_mod (value width : Nat) : bitsValue (longBits value width) = value % 2 ^ width := by
  induction width generalizing value with
  | zero => simp [longBits, bitsValue, Nat.mod_one]
  | succ width ih =>
    have half : ((value : Int) / 2) = ((value / 2 : Nat) : Int) := by omega
    have split : value % 2 ^ (width + 1) = value % 2 + 2 * (value / 2 % 2 ^ width) := by
      rw [Nat.pow_succ, Nat.mul_comm (2 ^ width) 2, Nat.mod_mul]
    rw [longBits, half, bitsValue_append_singleton, ih, split]
    by_cases odd : value % 2 = 1
    · have odd' : (value : Int) % 2 = 1 := by omega
      simp only [odd', decide_true, Bool.toNat_true]
      omega
    · have even' : ¬ (value : Int) % 2 = 1 := by omega
      simp only [even', decide_false, Bool.toNat_false]
      omega

lemma bitsValue_longBits (value width : Nat) (fits : value < 2 ^ width) : bitsValue (longBits value width) = value := by
  rw [bitsValue_longBits_mod, Nat.mod_eq_of_lt fits]

lemma bitsValue_lt (bits : List Bool) : bitsValue bits < 2 ^ bits.length := by
  induction bits using List.reverseRecOn with
  | nil => exact Nat.one_pos
  | append_singleton front last ih =>
    rw [bitsValue_append_singleton, length_append, length_singleton, Nat.pow_succ]
    have small := Bool.toNat_le last
    omega

end TonNode.Vm
