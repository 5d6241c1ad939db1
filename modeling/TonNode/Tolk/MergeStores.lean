import TonNode.Vm.Cell

/-!
# Merging constant stores and skips

Stores and skips of constants are emitted as pseudo instructions. The peephole optimizer puts one
store or one skip in the place of as many of a run as fit.
-/

namespace TonNode.Tolk

open Vm List

def fitsBits (x : Int) (bits : Nat) (sgnd : Bool) : Bool :=
  if sgnd then -2 ^ (bits - 1) ≤ x ∧ x < 2 ^ (bits - 1) else 0 ≤ x ∧ x < 2 ^ bits

/-- Instructions; `STIR` and `STUR` are the reversed stores, and a literal has digits of `width` bits. -/
inductive Instr where
  | pushInt (x : Int)
  | swap
  | nip
  | storeInt (sgnd reversed : Bool) (bits : Nat)
  | stSliceConst (width : Nat) (digits : List Nat)
  | ldu (bits : Nat)
  | sdSkipFirst

inductive StackEntry (α : Type) where
  | int (x : Int)
  | builder (cb : CellBuilder)
  | slice (cs : CellSlice)
  | other (value : α)

/-- A stack underflow counts as a failed type check, a width no instruction has as an invalid code. -/
inductive Excno where
  | typeChk
  | rangeChk
  | cellOv
  | cellUnd
  | invOpcode

def storeBits (bits : List Bool) (cb : CellBuilder) : Except Excno CellBuilder :=
  if cb.canExtendBy bits.length 0 then .ok { cb with bits := cb.bits ++ bits } else .error .cellOv

def storeIntCommon (x : Int) (bits : Nat) (sgnd : Bool) (cb : CellBuilder) : Except Excno CellBuilder :=
  if 1 ≤ bits ∧ bits ≤ 256 then
    if cb.canExtendBy bits 0 then
      if fitsBits x bits sgnd then .ok { cb with bits := cb.bits ++ longBits x bits } else .error .rangeChk
    else .error .cellOv
  else .error .invOpcode

def skipFirst (bits : Nat) (cs : CellSlice) : Except Excno CellSlice :=
  if bits ≤ cs.bits.length then .ok { cs with bits := cs.bits.drop bits } else .error .cellUnd

variable {α β ε : Type}

def exec : List (StackEntry α) → Instr → Except Excno (List (StackEntry α))
  | stack, .pushInt x => .ok (.int x :: stack)
  | first :: second :: stack, .swap => .ok (second :: first :: stack)
  | first :: _ :: stack, .nip => .ok (first :: stack)
  | .builder cb :: .int x :: stack, .storeInt sgnd false bits => (storeIntCommon x bits sgnd cb).map (.builder · :: stack)
  | .int x :: .builder cb :: stack, .storeInt sgnd true bits => (storeIntCommon x bits sgnd cb).map (.builder · :: stack)
  | .builder cb :: stack, .stSliceConst width digits =>
    (storeBits (digits.flatMap fun digit : Nat => longBits digit width) cb).map (.builder · :: stack)
  | .slice cs :: stack, .ldu bits =>
    if 1 ≤ bits ∧ bits ≤ 256 then
      (skipFirst bits cs).map fun rest => .slice rest :: .int (bitsValue (cs.bits.take bits)) :: stack
    else .error .invOpcode
  | .int bits :: .slice cs :: stack, .sdSkipFirst =>
    if 0 ≤ bits ∧ bits ≤ 1023 then (skipFirst bits.toNat cs).map (.slice · :: stack) else .error .rangeChk
  | _, _ => .error .typeChk

def run (code : List Instr) (stack : List (StackEntry α)) : Except Excno (List (StackEntry α)) :=
  code.foldlM exec stack

lemma run_singleton (instr : Instr) (stack : List (StackEntry α)) : run [instr] stack = exec stack instr := by
  rw [run, foldlM_cons]
  exact bind_pure _

/-- `MY_store_intU` or `MY_store_intI`, with a number that is not negative and a length. -/
structure MyStoreInt where
  unsigned : Bool
  number : Nat
  len : Nat

def compileStoreInt (x z : Int) (sgnd : Bool) : Option MyStoreInt :=
  if 0 ≤ x ∧ 0 < z ∧ z ≤ 256 ∧ fitsBits x z.toNat sgnd then some ⟨!sgnd, x.toNat, z.toNat⟩ else none

def compileStoreBool (v : Int) : Option MyStoreInt :=
  if v = 0 then some ⟨true, 0, 1⟩ else if v = -1 then some ⟨true, 1, 1⟩ else none

def compileStoreCoins (v : Int) : Option MyStoreInt :=
  if v = 0 then some ⟨true, 0, 4⟩ else none

def compileSkipBitsInSlice (len : Int) : Option Nat :=
  if 0 ≤ len ∧ len < 1024 then some len.toNat else none

namespace MyStoreInt

def Emitted (op : MyStoreInt) : Prop :=
  (∃ x z sgnd, compileStoreInt x z sgnd = some op) ∨ ∃ v, compileStoreBool v = some op ∨ compileStoreCoins v = some op

def individual (op : MyStoreInt) : List Instr := [.pushInt op.number, .swap, .storeInt (!op.unsigned) false op.len]

def bits (op : MyStoreInt) : List Bool := longBits op.number op.len

def store (cb : CellBuilder) (op : MyStoreInt) : Except Excno CellBuilder :=
  storeIntCommon op.number op.len (!op.unsigned) cb

end MyStoreInt

/-- The loop of `detect_rewrite_MY_store_int`. -/
def mergeStores : List MyStoreInt → Nat → Nat → Nat → Nat × Nat × Nat
  | [], totalNumber, totalLen, merged => (totalNumber, totalLen, merged)
  | op :: window, totalNumber, totalLen, merged =>
    if totalLen + op.len > 256 then (totalNumber, totalLen, merged)
    else mergeStores window (totalNumber * 2 ^ op.len + op.number) (totalLen + op.len) (merged + 1)

def useStSliceConst (totalNumber totalLen : Nat) : Bool :=
  totalLen ≤ 32 ∨ (totalLen ≤ 48 ∧ totalNumber ≥ 256) ∨ (totalLen ≤ 64 ∧ totalNumber ≥ 65536) ∨
    (totalLen ≤ 96 ∧ totalNumber ≥ 2 ^ 32) ∨ totalNumber > 2 ^ 62

/-- The digits are filled in from the last one; once the number is zero, the others stay zero. -/
def literalDigits (base : Nat) : Nat → Nat → List Nat
  | 0, _ => []
  | count + 1, number =>
    if number = 0 then List.replicate (count + 1) 0
    else literalDigits base count (number / base) ++ [number % base]

def stSliceConst (totalNumber totalLen : Nat) : Instr :=
  if totalLen % 4 = 0 then .stSliceConst 4 (literalDigits 16 (totalLen / 4) totalNumber)
  else .stSliceConst 1 (literalDigits 2 totalLen totalNumber)

/-- How many of the window are replaced, and what by. -/
def detectRewriteMyStoreInt (window : List MyStoreInt) : Nat × List Instr :=
  let (totalNumber, totalLen, merged) := mergeStores window 0 0 0
  (merged, if useStSliceConst totalNumber totalLen then [stSliceConst totalNumber totalLen]
    else [.pushInt totalNumber, .storeInt (!(window.headD ⟨true, 0, 0⟩).unsigned) true totalLen])

def mergeSkips : List Nat → Nat → Nat → Nat × Nat
  | [], total, merged => (total, merged)
  | len :: window, total, merged =>
    if total + len > 1023 then (total, merged) else mergeSkips window (total + len) (merged + 1)

def detectRewriteMySkipBits (window : List Nat) : Nat × List Instr :=
  let (total, merged) := mergeSkips window 0 0
  (merged, if total = 0 then [] else if total ≤ 256 then [.ldu total, .nip] else [.pushInt total, .sdSkipFirst])

def optimizeDepth : Nat := 20

/-- A rule applied at every offset of a run in turn, until none of the run is left; `none` is a
failed assertion of `apply`. -/
def rewriteRun (detect : List β → Nat × List Instr) : List β → Option (List Instr)
  | [] => some []
  | op :: ops =>
    let window := (op :: ops).take optimizeDepth
    let (p, q) := detect window
    if 0 < p ∧ p ≤ window.length then (rewriteRun detect (ops.drop (p - 1))).map (q ++ ·) else none
termination_by ops => ops.length

/-- The code works on the top of the stack alone. -/
def Acts (entry : ε → StackEntry α) (code : List Instr) (effect : ε → Except Excno ε) : Prop :=
  ∀ top stack, run code (entry top :: stack) = (effect top).map (entry · :: stack)

/-- The rule puts code that acts as the first operations of a run in their place. -/
def Replaces (entry : ε → StackEntry α) (act : ε → β → Except Excno ε) (isPiece : β → Prop)
    (detect : List β → Nat × List Instr) : Prop :=
  ∀ op ops, (∀ piece ∈ op :: ops, isPiece piece) → ∃ p q, p ≤ ops.length ∧ detect (op :: ops) = (p + 1, q) ∧
    Acts entry q (fun top => (op :: ops.take p).foldlM act top)

variable {entry : ε → StackEntry α} {act : ε → β → Except Excno ε} {code : β → List Instr}
variable {detect : List β → Nat × List Instr} {isPiece : β → Prop} {ops : List β}

lemma Acts.append {first second : List Instr} {effect more : ε → Except Excno ε} (firstActs : Acts entry first effect)
    (secondActs : Acts entry second more) : Acts entry (first ++ second) (fun top => effect top >>= more) := by
  intro top stack
  have ran := firstActs top stack
  unfold run at ran ⊢
  rw [foldlM_append, ran]
  dsimp only
  cases effect top with
  | error excno => rfl
  | ok next => exact secondActs next stack

lemma Acts.flatMap (each : ∀ op ∈ ops, Acts entry (code op) (act · op)) :
    Acts entry (ops.flatMap code) (fun top => ops.foldlM act top) := by
  induction ops with
  | nil => exact fun top stack => rfl
  | cons op ops ih => exact (each op mem_cons_self).append (ih fun other later => each other (mem_cons_of_mem _ later))

lemma rewriteRun_acts (replaces : Replaces entry act isPiece detect) (pieces : ∀ piece ∈ ops, isPiece piece) :
    ∃ out, rewriteRun detect ops = some out ∧ Acts entry out (fun top => ops.foldlM act top) := by
  induction length : ops.length using Nat.strongRecOn generalizing ops with
  | _ length ih =>
    cases ops with
    | nil => exact ⟨[], by rw [rewriteRun], fun top stack => rfl⟩
    | cons op ops =>
      have isWindow : (op :: ops).take optimizeDepth = op :: ops.take 19 := rfl
      obtain ⟨p, q, bound, detected, acts⟩ := replaces op (ops.take 19)
        fun piece member => pieces piece (mem_of_mem_take (isWindow ▸ member))
      have inside := bound
      rw [length_take] at inside
      rw [take_take, Nat.min_eq_left (by omega)] at acts
      rw [length_cons] at length
      obtain ⟨out, rewritten, outActs⟩ := ih (ops.drop p).length (by rw [length_drop]; omega)
        (fun piece member => pieces piece (mem_cons_of_mem _ (mem_of_mem_drop member))) rfl
      refine ⟨q ++ out, ?_, ?_⟩
      · rw [rewriteRun]
        simp only [isWindow, detected]
        rw [if_pos ⟨p.succ_pos, Nat.succ_le_succ bound⟩, Nat.add_sub_cancel, rewritten]
        rfl
      · have both := acts.append outActs
        simpa only [← foldlM_append, cons_append, take_append_drop] using both

/-- So is a run whose operations act one by one as the code they stand for. -/
lemma rewriteRun_exact (replaces : Replaces entry act isPiece detect)
    (each : ∀ op, isPiece op → Acts entry (code op) (act · op)) (pieces : ∀ piece ∈ ops, isPiece piece) :
    ∃ out, rewriteRun detect ops = some out ∧
      ∀ top stack, run out (entry top :: stack) = run (ops.flatMap code) (entry top :: stack) := by
  obtain ⟨out, rewritten, acts⟩ := rewriteRun_acts replaces pieces
  have individually := Acts.flatMap fun op member => each op (pieces op member)
  exact ⟨out, rewritten, fun top stack => (acts top stack).trans (individually top stack).symm⟩

lemma literalDigits_succ (base count number : Nat) :
    literalDigits base (count + 1) number = literalDigits base count (number / base) ++ [number % base] := by
  rw [literalDigits]
  split
  next zero =>
    have zeros : literalDigits base count 0 = replicate count 0 := by cases count <;> simp [literalDigits]
    rw [zero, Nat.zero_div, Nat.zero_mod, zeros, replicate_succ']
  next => rfl

lemma literalDigits_bits {width count : Nat} {bits : List Bool} (length : bits.length = count * width) :
    (literalDigits (2 ^ width) count (bitsValue bits)).flatMap (fun digit : Nat => longBits digit width) = bits := by
  induction count generalizing bits with
  | zero => rw [eq_nil_of_length_eq_zero (length.trans (Nat.zero_mul _)), literalDigits, flatMap_nil]
  | succ count ih =>
    obtain ⟨front, last, rfl, frontLength⟩ : ∃ front last, bits = front ++ last ∧ front.length = count * width :=
      ⟨_, _, (take_append_drop (count * width) bits).symm, by rw [length_take, length, Nat.succ_mul]; omega⟩
    obtain rfl : last.length = width := by rw [length_append, frontLength, Nat.succ_mul] at length; omega
    have small := bitsValue_lt last
    rw [literalDigits_succ, bitsValue_append, Nat.mul_comm, Nat.mul_add_div (Nat.two_pow_pos _), Nat.div_eq_of_lt small,
      Nat.mul_add_mod, Nat.mod_eq_of_lt small, flatMap_append, Nat.add_zero, ih frontLength, flatMap_singleton,
      longBits_bitsValue]

lemma stSliceConst_acts (bits : List Bool) :
    Acts (StackEntry.builder (α := α)) [stSliceConst (bitsValue bits) bits.length] (storeBits bits) := by
  intro cb stack
  unfold stSliceConst
  split
  next whole =>
    have digits := literalDigits_bits (Nat.div_mul_cancel (Nat.dvd_of_mod_eq_zero whole)).symm
    nth_rewrite 3 [← digits]
    exact run_singleton _ _
  next =>
    have digits := literalDigits_bits (Nat.mul_one bits.length).symm
    nth_rewrite 3 [← digits]
    exact run_singleton _ _

lemma storeBits_append (first second : List Bool) (cb : CellBuilder) :
    storeBits (first ++ second) cb = storeBits first cb >>= storeBits second := by
  unfold storeBits CellBuilder.canExtendBy
  simp only [length_append, Bool.and_eq_true, decide_eq_true_eq]
  by_cases room : cb.bits.length + first.length ≤ Cell.maxBits ∧ cb.refs.length + 0 ≤ Cell.maxRefs
  · rw [if_pos room, Lib.ok_bind]
    simp only [length_append, append_assoc, Nat.add_assoc]
  · rw [if_neg room, if_neg (by omega)]
    rfl

lemma storeIntCommon_eq {x : Int} {bits : Nat} {sgnd : Bool} (positive : 1 ≤ bits) (narrow : bits ≤ 256)
    (fits : fitsBits x bits sgnd) (cb : CellBuilder) : storeIntCommon x bits sgnd cb = storeBits (longBits x bits) cb := by
  rw [storeIntCommon, if_pos ⟨positive, narrow⟩, if_pos fits, storeBits, longBits_length]

lemma fitsBits_natCast {number len : Nat} {sgnd : Bool} : fitsBits number len sgnd ↔ number < 2 ^ (len - sgnd.toNat) := by
  have negative : -2 ^ (len - 1) ≤ (number : Int) :=
    Int.le_trans (Int.neg_nonpos_of_nonneg (Int.pow_nonneg (by decide))) (Int.natCast_nonneg _)
  cases sgnd <;> simp [fitsBits, negative] <;> norm_cast

namespace MyStoreInt

structure Valid (op : MyStoreInt) : Prop where
  fits : fitsBits op.number op.len (!op.unsigned)
  positive : 1 ≤ op.len
  narrow : op.len ≤ 256

variable {op : MyStoreInt} {ops : List MyStoreInt}

lemma Emitted.valid (emitted : op.Emitted) : op.Valid := by
  rcases emitted with ⟨x, z, sgnd, made⟩ | ⟨v, made⟩
  · obtain ⟨⟨nonneg, positive, narrow, fits⟩, same⟩ := Option.ite_none_right_eq_some.mp made
    cases same
    exact ⟨by rwa [Int.toNat_of_nonneg nonneg, Bool.not_not], by dsimp only; omega, by dsimp only; omega⟩
  · have constant : op = ⟨true, 0, 1⟩ ∨ op = ⟨true, 1, 1⟩ ∨ op = ⟨true, 0, 4⟩ := by
      grind [compileStoreBool, compileStoreCoins]
    rcases constant with rfl | rfl | rfl <;> exact ⟨by decide, by decide, by decide⟩

lemma length_bits (op : MyStoreInt) : op.bits.length = op.len := longBits_length ..

lemma Valid.bitsValue_bits (valid : op.Valid) : bitsValue op.bits = op.number :=
  bitsValue_longBits _ _ (Nat.lt_of_lt_of_le (fitsBits_natCast.mp valid.fits) (Nat.pow_le_pow_right (by decide) (Nat.sub_le ..)))

/-- A signed number leaves the highest bit clear, also when more bits follow. -/
lemma Valid.fits_append (valid : op.Valid) (more : List Bool) :
    fitsBits (bitsValue (op.bits ++ more)) (op.bits ++ more).length (!op.unsigned) := by
  have fits := fitsBits_natCast.mp valid.fits
  have positive := valid.positive
  have sign := Bool.toNat_le (!op.unsigned)
  rw [fitsBits_natCast, length_append, length_bits, Nat.sub_add_comm (by omega), Nat.pow_add]
  calc bitsValue (op.bits ++ more) < (op.number + 1) * 2 ^ more.length := by
        rw [bitsValue_append, valid.bitsValue_bits, Nat.succ_mul]
        exact Nat.add_lt_add_left (bitsValue_lt more) _
    _ ≤ _ := Nat.mul_le_mul_right _ fits

lemma Valid.store_eq (valid : op.Valid) (cb : CellBuilder) : store cb op = storeBits op.bits cb :=
  storeIntCommon_eq valid.positive valid.narrow valid.fits cb

lemma foldlM_store (valid : ∀ piece ∈ op :: ops, piece.Valid) (cb : CellBuilder) :
    (op :: ops).foldlM store cb = storeBits ((op :: ops).flatMap bits) cb := by
  induction ops generalizing op cb with
  | nil =>
    rw [foldlM_cons, (valid op mem_cons_self).store_eq, flatMap_singleton]
    exact bind_pure _
  | cons next ops ih =>
    rw [foldlM_cons, (valid op mem_cons_self).store_eq, flatMap_cons, storeBits_append]
    exact bind_congr fun cb => ih (fun piece later => valid piece (mem_cons_of_mem _ later)) cb

lemma mergeStores_spec {window : List MyStoreInt} (valid : ∀ op ∈ window, op.Valid) {start : List Bool} (merged : Nat)
    (fits : start.length ≤ 256) : ∃ p all, p ≤ window.length ∧ all = start ++ (window.take p).flatMap bits ∧
      mergeStores window (bitsValue start) start.length merged = (bitsValue all, all.length, merged + p) ∧ all.length ≤ 256 := by
  induction window generalizing start merged with
  | nil => exact ⟨0, start, Nat.le_refl _, (append_nil _).symm, rfl, fits⟩
  | cons op window ih =>
    have isValid := valid op mem_cons_self
    have number := bitsValue_append start op.bits
    rw [isValid.bitsValue_bits, length_bits] at number
    have longer : (start ++ op.bits).length = start.length + op.len := by rw [length_append, length_bits]
    rw [mergeStores]
    split
    · exact ⟨0, start, Nat.zero_le _, (append_nil _).symm, rfl, fits⟩
    next room =>
      obtain ⟨p, all, bound, isAll, result, narrow⟩ := ih (fun other later => valid other (mem_cons_of_mem _ later))
        (merged + 1) (show (start ++ op.bits).length ≤ 256 by omega)
      rw [number, longer, Nat.add_assoc, Nat.add_comm 1] at result
      exact ⟨p + 1, all, Nat.succ_le_succ bound, by rw [isAll, append_assoc]; rfl, result, narrow⟩

lemma detectRewriteMyStoreInt_replaces :
    Replaces (StackEntry.builder (α := α)) store Valid detectRewriteMyStoreInt := by
  intro op ops valid
  have isValid := valid op mem_cons_self
  obtain ⟨p, all, bound, isAll, result, narrow⟩ := mergeStores_spec
    (fun other later => valid other (mem_cons_of_mem _ later)) 1 (op.length_bits ▸ isValid.narrow)
  have merged : mergeStores (op :: ops) 0 0 0 = (bitsValue all, all.length, p + 1) := by
    rw [mergeStores, if_neg (by have := isValid.narrow; omega), Nat.add_comm p, ← result, isValid.bitsValue_bits,
      length_bits, Nat.zero_mul, Nat.zero_add, Nat.zero_add]
  refine ⟨p, _, bound, by rw [detectRewriteMyStoreInt, merged], fun cb stack => ?_⟩
  have every : ∀ piece ∈ op :: ops.take p, piece.Valid := forall_mem_cons.mpr
    ⟨isValid, fun other later => valid other (mem_cons_of_mem _ (mem_of_mem_take later))⟩
  dsimp only
  rw [foldlM_store every, flatMap_cons, ← isAll]
  split
  · exact stSliceConst_acts all cb stack
  have fits := isValid.fits_append ((ops.take p).flatMap bits)
  have positive := isValid.positive
  have longer := congrArg List.length isAll
  rw [length_append, length_bits] at longer
  rw [← isAll] at fits
  have stored := storeIntCommon_eq (show 1 ≤ all.length by omega) narrow fits cb
  rw [longBits_bitsValue] at stored
  rw [← stored]
  exact run_singleton _ (.int (bitsValue all) :: .builder cb :: stack)

end MyStoreInt

lemma skipFirst_add (first second : Nat) (cs : CellSlice) :
    skipFirst (first + second) cs = skipFirst first cs >>= skipFirst second := by
  unfold skipFirst
  by_cases enough : first ≤ cs.bits.length
  · rw [if_pos enough, Lib.ok_bind]
    simp only [length_drop, drop_drop, Nat.le_sub_iff_add_le' enough]
  · rw [if_neg enough, if_neg (by omega)]
    rfl

lemma foldlM_skipFirst (lens : List Nat) (cs : CellSlice) :
    lens.foldlM (fun cs len => skipFirst len cs) cs = skipFirst lens.sum cs := by
  induction lens generalizing cs with
  | nil => rfl
  | cons len lens ih =>
    rw [foldlM_cons, sum_cons, skipFirst_add]
    exact bind_congr fun next => ih next

lemma mergeSkips_spec (window : List Nat) {total : Nat} (merged : Nat) (fits : total ≤ 1023) : ∃ p ≤ window.length,
    mergeSkips window total merged = (total + (window.take p).sum, merged + p) ∧ total + (window.take p).sum ≤ 1023 := by
  induction window generalizing total merged with
  | nil => exact ⟨0, Nat.le_refl _, rfl, fits⟩
  | cons len window ih =>
    rw [mergeSkips]
    split
    · exact ⟨0, Nat.zero_le _, rfl, fits⟩
    next room =>
      obtain ⟨p, bound, result, small⟩ := ih (merged + 1) (show total + len ≤ 1023 by omega)
      rw [Nat.add_assoc, ← sum_cons] at result small
      rw [Nat.add_assoc, Nat.add_comm 1] at result
      exact ⟨p + 1, Nat.succ_le_succ bound, result, small⟩

lemma sdSkipFirst_acts {len : Nat} (small : len ≤ 1023) :
    Acts (StackEntry.slice (α := α)) [.pushInt len, .sdSkipFirst] (skipFirst len) := by
  intro cs stack
  exact (run_singleton _ (.int len :: .slice cs :: stack)).trans (if_pos (by omega))

lemma detectRewriteMySkipBits_replaces :
    Replaces (StackEntry.slice (α := α)) (fun cs len => skipFirst len cs) (· < 1024) detectRewriteMySkipBits := by
  intro len lens small
  have first := small len mem_cons_self
  obtain ⟨p, bound, result, fits⟩ := mergeSkips_spec lens 1 (show len ≤ 1023 by omega)
  have merged : mergeSkips (len :: lens) 0 0 = ((len :: lens.take p).sum, p + 1) := by
    rw [mergeSkips, if_neg (by omega), Nat.zero_add, result, sum_cons, Nat.add_comm 1]
  refine ⟨p, _, bound, by rw [detectRewriteMySkipBits, merged], ?_⟩
  rw [← sum_cons] at fits
  simp only [foldlM_skipFirst]
  generalize (len :: lens.take p).sum = total at fits
  by_cases none : total = 0
  · rw [if_pos none, none]
    exact fun cs stack => rfl
  rw [if_neg none]
  split
  next narrow =>
    intro cs stack
    have loaded : exec (.slice cs :: stack) (.ldu total) = (skipFirst total cs).map
        fun rest => .slice rest :: .int (bitsValue (cs.bits.take total)) :: stack := if_pos ⟨by omega, narrow⟩
    rw [run, foldlM_cons, loaded]
    dsimp only
    cases skipFirst total cs <;> rfl
  · exact sdSkipFirst_acts fits

theorem merged_runs_exact (ops : List MyStoreInt) (emitted : ∀ op ∈ ops, op.Emitted) (lens : List Nat)
    (skips : ∀ len ∈ lens, ∃ constant, compileSkipBitsInSlice constant = some len) :
    (∃ out, rewriteRun detectRewriteMyStoreInt ops = some out ∧ ∀ (cb : CellBuilder) (stack : List (StackEntry α)),
      run out (.builder cb :: stack) = run (ops.flatMap MyStoreInt.individual) (.builder cb :: stack)) ∧
    ∃ out, rewriteRun detectRewriteMySkipBits lens = some out ∧ ∀ (cs : CellSlice) (stack : List (StackEntry α)),
      run out (.slice cs :: stack) =
        run (lens.flatMap fun (len : Nat) => [.pushInt len, .sdSkipFirst]) (.slice cs :: stack) := by
  have small : ∀ len ∈ lens, len < 1024 := by
    intro len member
    obtain ⟨constant, made⟩ := skips len member
    obtain ⟨⟨_, below⟩, same⟩ := Option.ite_none_right_eq_some.mp made
    cases same
    omega
  exact ⟨rewriteRun_exact MyStoreInt.detectRewriteMyStoreInt_replaces
      (fun op _ cb stack => run_singleton _ (.builder cb :: .int op.number :: stack)) fun op member => (emitted op member).valid,
    rewriteRun_exact detectRewriteMySkipBits_replaces (fun len below => sdSkipFirst_acts (Nat.le_of_lt_succ below)) small⟩

theorem merged_runs_exact_mixed : (∃ out, rewriteRun detectRewriteMyStoreInt [⟨false, 5, 8⟩, ⟨true, 1, 1⟩] = some out) ∧
    ∃ out, rewriteRun detectRewriteMySkipBits [300, 800] = some out := by
  obtain ⟨⟨stores, rewritten, _⟩, skipped, skipsRewritten, _⟩ := merged_runs_exact (α := Unit) [⟨false, 5, 8⟩, ⟨true, 1, 1⟩]
    (forall_mem_cons.mpr ⟨.inl ⟨5, 8, true, rfl⟩, forall_mem_singleton.mpr (.inr ⟨-1, .inl rfl⟩)⟩) [300, 800]
    (forall_mem_cons.mpr ⟨⟨300, rfl⟩, forall_mem_singleton.mpr ⟨800, rfl⟩⟩)
  exact ⟨⟨stores, rewritten⟩, skipped, skipsRewritten⟩

end TonNode.Tolk
