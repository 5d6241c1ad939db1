import Mathlib

/-!
# Field paths of smart casts

A sink is a local variable and the path of a field in it. The path is packed into the bytes of one
word, the outermost field in the lowest byte.
-/

namespace TonNode.Tolk

open List

/-- Expressions, as far as a sink is looked for in them; the target of a dot access is an index
or something else. -/
inductive Vertex (Var : Type) where
  | reference (sym : Option Var)
  | dotAccess (obj : Vertex Var) (target : Option Nat)
  | notNullOperator (expr : Vertex Var)
  | assign (lhs rhs : Vertex Var)
  | localVarsDeclaration (varRef : Option Var)
  | other

structure SinkExpression (Var : Type) where
  varRef : Var
  indexPath : Nat
deriving DecidableEq

/-- How often a word can be shifted right by a byte before it is zero. -/
def byteCount (path : Nat) : Nat := (Nat.digits 256 path).length

variable {Var : Type} {x y : Var} {v w : Vertex Var} {s t : SinkExpression Var} {path other : List Nat}

namespace SinkExpression

def isChildOf [DecidableEq Var] (s rhs : SinkExpression Var) : Bool :=
  let mask := (fun mask => ((mask <<< 8) + 0xFF) % 2 ^ 64)^[byteCount rhs.indexPath] 0
  s.varRef = rhs.varRef ∧ s.indexPath ≠ rhs.indexPath ∧ s.indexPath &&& mask = rhs.indexPath

def getChildSExpr (s : SinkExpression Var) (fieldIdx : Nat) : SinkExpression Var :=
  match (range 8).find? fun emptyByte => s.indexPath &&& (0xFF <<< (emptyByte * 8)) = 0 with
  | some emptyByte => { s with indexPath := (s.indexPath + (fieldIdx + 1) <<< (emptyByte * 8)) % 2 ^ 64 }
  | none => s

/-- The sink of `depth` field accesses, packed in `indexPath`, on an expression with the sink `inner`.
A shift by the whole word is undefined; no sink stands for it. -/
def below (indexPath depth : Nat) (inner : Option (SinkExpression Var)) : Option (SinkExpression Var) :=
  if depth = 0 then inner
  else if indexPath ≠ 0 ∧ depth < 8 then
    inner.bind fun inner =>
      if byteCount inner.indexPath < 8 then
        some { inner with indexPath := (indexPath <<< (8 * byteCount inner.indexPath)) % 2 ^ 64 ||| inner.indexPath }
      else none
  else none

end SinkExpression

open SinkExpression

namespace Vertex

/-- The loop over a chain of dot accesses and the recursion on the expression at which it stops. -/
def extractBelow (indexPath depth : Nat) : Vertex Var → Option (SinkExpression Var)
  | .notNullOperator expr => extractBelow indexPath depth expr
  | .dotAccess obj (some indexAt) => extractBelow (((indexPath <<< 8) + indexAt + 1) % 2 ^ 64) (depth + 1) obj
  | .dotAccess obj none => if depth = 0 then none else below indexPath depth (extractBelow 0 0 obj)
  | .reference sym => below indexPath depth (sym.map (⟨·, 0⟩))
  | .assign lhs _ => below indexPath depth (extractBelow 0 0 lhs)
  | .localVarsDeclaration varRef => below indexPath depth (varRef.map (⟨·, 0⟩))
  | .other => none

def extractSinkExpression (v : Vertex Var) : Option (SinkExpression Var) := v.extractBelow 0 0

/-- The variable an expression denotes a part of, and the accesses that lead to it. -/
def fieldPath : Vertex Var → Option (Var × List Nat)
  | .notNullOperator expr => expr.fieldPath
  | .dotAccess obj (some index) => obj.fieldPath.map fun path => (path.1, path.2 ++ [index])
  | .reference sym => sym.map (·, [])
  | .assign lhs _ => lhs.fieldPath
  | .localVarsDeclaration varRef => varRef.map (·, [])
  | _ => none

/-- The accesses of the outermost chain. -/
def chainDepth : Vertex Var → Nat
  | .notNullOperator expr => expr.chainDepth
  | .dotAccess obj (some _) => obj.chainDepth + 1
  | _ => 0

/-- The expression at which the outermost chain stops. -/
def base : Vertex Var → Vertex Var
  | .notNullOperator expr => expr.base
  | .dotAccess obj (some _) => obj.base
  | v => v

end Vertex

def pack (path : List Nat) : Nat := Nat.ofDigits 256 (path.map (· + 1))

lemma pack_append (path more : List Nat) : pack (path ++ more) = pack more <<< (8 * path.length) + pack path := by
  rw [pack, map_append, Nat.ofDigits_append, length_map, Nat.shiftLeft_eq, pow_mul, Nat.add_comm, Nat.mul_comm]
  rfl

/-- A path with one byte for each of its indexes. -/
def Bytewise (path : List Nat) : Prop := ∀ index ∈ path, index < 255

namespace Bytewise

variable (bytewise : Bytewise path)
include bytewise

lemma bytes : ∀ byte ∈ path.map (· + 1), byte < 256 := by
  simpa [Nat.succ_lt_succ_iff, Bytewise] using bytewise

lemma digits : Nat.digits 256 (pack path) = path.map (· + 1) := by
  refine Nat.digits_ofDigits 256 (by decide) _ bytewise.bytes ?_
  intro nonempty
  rw [getLast_map]
  exact Nat.succ_ne_zero _

lemma pack_lt {count : Nat} (fits : path.length ≤ count) : pack path < 2 ^ (8 * count) := by
  have lt := Nat.ofDigits_lt_base_pow_length (by decide) bytewise.bytes
  rw [length_map] at lt
  rw [pow_mul]
  exact lt.trans_le (Nat.pow_le_pow_right (by decide) fits)

lemma byteCount_pack : byteCount (pack path) = path.length := by
  rw [byteCount, bytewise.digits, length_map]

lemma pack_ne_zero (some_ : path ≠ []) : pack path ≠ 0 := by
  intro zero
  have digits := bytewise.digits
  rw [zero, Nat.digits_zero] at digits
  exact some_ (map_eq_nil_iff.mp digits.symm)

lemma sublist (part : other.Sublist path) : Bytewise other := fun index member => bytewise index (part.subset member)

lemma inj (otherBytewise : Bytewise other) (same : pack path = pack other) : path = other := by
  have digits := bytewise.digits
  rw [same, otherBytewise.digits] at digits
  exact (map_injective_iff.mpr (add_left_injective 1) digits).symm

lemma pack_mod (count : Nat) : pack path % 2 ^ (8 * count) = pack (path.take count) := by
  have small := (bytewise.sublist (take_sublist count path)).pack_lt (length_take_le count path)
  rcases Nat.le_total count path.length with inside | outside
  · rw [← take_append_drop count path, pack_append, length_take_of_le inside, Nat.shiftLeft_eq, Nat.mul_add_mod_self_right,
      take_append_drop, Nat.mod_eq_of_lt small]
  · rw [take_of_length_le outside] at small ⊢
    exact Nat.mod_eq_of_lt small

end Bytewise

lemma shiftLeft_mod_or {high low count : Nat} (narrow : count ≤ 64) (small : low < 2 ^ count) :
    (high <<< count) % 2 ^ 64 ||| low = (high <<< count + low) % 2 ^ 64 := by
  obtain ⟨rest, sum⟩ := Nat.exists_eq_add_of_le narrow
  have shifted : (high <<< count) % 2 ^ 64 = (high % 2 ^ rest) <<< count := by
    rw [Nat.shiftLeft_eq, Nat.shiftLeft_eq, sum, pow_add, Nat.mul_comm, Nat.mul_mod_mul_left, Nat.mul_comm]
  rw [shifted, ← Nat.shiftLeft_add_eq_or_of_lt small, ← shifted]
  have parts : (high % 2 ^ rest) <<< count + low < 2 ^ 64 := by
    have below : high % 2 ^ rest + 1 ≤ 2 ^ rest := Nat.mod_lt _ (by positivity)
    calc (high % 2 ^ rest) <<< count + low < (high % 2 ^ rest) * 2 ^ count + 2 ^ count := by
          rw [Nat.shiftLeft_eq]
          omega
      _ = (high % 2 ^ rest + 1) * 2 ^ count := by ring
      _ ≤ 2 ^ rest * 2 ^ count := Nat.mul_le_mul_right _ below
      _ = 2 ^ 64 := by rw [sum, pow_add, Nat.mul_comm]
  rw [← shifted] at parts
  rw [Nat.add_mod, Nat.mod_eq_of_lt (small.trans_le (Nat.pow_le_pow_right (by decide) narrow)),
    Nat.mod_eq_of_lt parts]

/-- Only the first eight accesses are left of a path. -/
lemma below_eq {inner : Option (SinkExpression Var)} (bytewise : Bytewise (path ++ other))
    (isInner : ∀ t, inner = some t → t = ⟨x, pack (path.take 8)⟩)
    (found : below (pack other % 2 ^ 64) other.length inner = some s) : s = ⟨x, pack ((path ++ other).take 8)⟩ := by
  have front := bytewise.sublist (sublist_append_left path other)
  have word := bytewise.pack_mod 8
  unfold below at found
  split at found
  next none =>
    rw [eq_nil_of_length_eq_zero none, append_nil]
    exact isInner s found
  split at found
  next chain =>
    obtain ⟨t, isSome, found⟩ := Option.bind_eq_some_iff.mp found
    cases isInner t isSome
    split at found
    next room =>
      have short : path.length < 8 := by
        rw [(front.sublist (take_sublist 8 path)).byteCount_pack, length_take] at room
        omega
      have few := (bytewise.sublist (sublist_append_right path other)).pack_lt (show other.length ≤ 8 by omega)
      cases found
      rw [← word, pack_append, take_of_length_le short.le, front.byteCount_pack, Nat.mod_eq_of_lt few]
      exact congrArg _ (shiftLeft_mod_or (by omega) (front.pack_lt le_rfl))
    · cases found
  · cases found

lemma pack_cons_mod (index : Nat) (other : List Nat) :
    ((pack other % 2 ^ 64) <<< 8 + index + 1) % 2 ^ 64 = pack (index :: other) % 2 ^ 64 := by
  rw [← singleton_append, pack_append, Nat.shiftLeft_eq, Nat.shiftLeft_eq]
  simp only [pack, map_cons, map_nil, Nat.ofDigits_singleton, length_singleton]
  omega

lemma extractBelow_eq (isPath : v.fieldPath = some (x, path)) (bytewise : Bytewise (path ++ other))
    (found : v.extractBelow (pack other % 2 ^ 64) other.length = some s) : s = ⟨x, pack ((path ++ other).take 8)⟩ := by
  induction v generalizing path other s with
  | notNullOperator expr ih => exact ih isPath bytewise found
  | dotAccess obj target ih =>
    cases target with
    | none => cases isPath
    | some index =>
      obtain ⟨⟨_, front⟩, isFront, same⟩ := Option.map_eq_some_iff.mp isPath
      cases same
      rw [append_assoc, singleton_append] at bytewise ⊢
      rw [Vertex.extractBelow, pack_cons_mod] at found
      exact ih isFront bytewise found
  | reference sym | localVarsDeclaration sym =>
    obtain ⟨_, rfl, same⟩ := Option.map_eq_some_iff.mp isPath
    cases same
    refine below_eq bytewise ?_ found
    rintro _ ⟨⟩
    rfl
  | assign lhs rhs lhsIH =>
    refine below_eq bytewise (fun t isInner => ?_) found
    have front := bytewise.sublist (sublist_append_left path other)
    rw [← append_nil path] at front ⊢
    exact lhsIH isPath front isInner
  | other => cases isPath

lemma extractSinkExpression_eq (isPath : v.fieldPath = some (x, path)) (bytewise : Bytewise path)
    (found : v.extractSinkExpression = some s) : s = ⟨x, pack (path.take 8)⟩ := by
  rw [← append_nil path] at bytewise ⊢
  exact extractBelow_eq isPath bytewise found

/-- The outermost chain and what it is on. -/
lemma extractBelow_base (isPath : v.fieldPath = some (x, path)) :
    ∃ front chain, path = front ++ chain ∧ chain.length = v.chainDepth ∧ v.base.fieldPath = some (x, front) ∧
      ∀ other, v.extractBelow (pack other % 2 ^ 64) other.length =
        below (pack (chain ++ other) % 2 ^ 64) (chain ++ other).length v.base.extractSinkExpression := by
  induction v generalizing path with
  | notNullOperator expr ih => exact ih isPath
  | dotAccess obj target ih =>
    cases target with
    | none => cases isPath
    | some index =>
      obtain ⟨⟨_, inner⟩, isInner, same⟩ := Option.map_eq_some_iff.mp isPath
      cases same
      obtain ⟨front, chain, rfl, depth, isFront, steps⟩ := ih isInner
      refine ⟨front, chain ++ [index], by rw [append_assoc], by simp [Vertex.chainDepth, depth], isFront, fun other => ?_⟩
      rw [Vertex.extractBelow, pack_cons_mod, append_assoc, singleton_append]
      exact steps (index :: other)
  | reference sym | localVarsDeclaration sym | assign lhs rhs =>
    exact ⟨path, [], by simp, rfl, isPath, fun other => rfl⟩
  | other => cases isPath

lemma exists_below_iff {inner : Option (SinkExpression Var)} {indexPath depth : Nat} (some_ : indexPath ≠ 0) (deep : 0 < depth) :
    (∃ s, below indexPath depth inner = some s) ↔ depth < 8 ∧ ∃ t, inner = some t ∧ byteCount t.indexPath < 8 := by
  unfold below
  rw [if_neg (by omega)]
  by_cases shallow : depth < 8
  · rw [if_pos ⟨some_, shallow⟩, and_iff_right shallow]
    cases inner with
    | none => simp
    | some t =>
      by_cases room : byteCount t.indexPath < 8 <;> simp [room]
  · rw [if_neg fun both => shallow both.2]
    exact ⟨nofun, fun both => absurd both.1 shallow⟩

lemma isChildOf_iff [DecidableEq Var] (bytewise : Bytewise path) (otherBytewise : Bytewise other) (short : other.length ≤ 8) :
    isChildOf ⟨x, pack path⟩ ⟨y, pack other⟩ = true ↔ x = y ∧ other <+: path ∧ path ≠ other := by
  have masks : ∀ count < 9, (fun mask => ((mask <<< 8) + 0xFF) % 2 ^ 64)^[count] 0 = 2 ^ (8 * count) - 1 := by decide
  have inj := bytewise.inj otherBytewise
  have injTake := (bytewise.sublist (take_sublist other.length path)).inj otherBytewise
  simp only [isChildOf, otherBytewise.byteCount_pack, masks _ (Nat.lt_succ_of_le short),
    Nat.and_two_pow_sub_one_eq_mod, bytewise.pack_mod, decide_eq_true_eq, prefix_iff_eq_take]
  constructor
  · rintro ⟨rfl, differ, same⟩
    exact ⟨rfl, (injTake same).symm, fun equal => differ (by rw [equal])⟩
  · rintro ⟨rfl, front, differ⟩
    exact ⟨rfl, fun same => differ (inj same), by rw [← front]⟩

/-- Among paths cut off after eight accesses a path is only extended if it has fewer. -/
lemma take_extends_iff : (other.take 8 <+: path.take 8 ∧ path.take 8 ≠ other.take 8) ↔
    (other <+: path ∧ path ≠ other) ∧ other.length < 8 := by
  constructor
  · rintro ⟨front, differ⟩
    have longer : (other.take 8).length < (path.take 8).length := by
      refine lt_of_le_of_ne front.length_le fun same => differ (front.eq_of_length same).symm
    have short : other.length < 8 := by
      simp only [length_take] at longer
      omega
    rw [take_of_length_le short.le] at front differ
    refine ⟨⟨front.trans ( take_prefix 8 path), ?_⟩, short⟩
    rintro rfl
    exact differ (take_of_length_le short.le)
  · rintro ⟨⟨front, differ⟩, short⟩
    rw [take_of_length_le short.le]
    have longer : other.length < path.length := lt_of_le_of_ne front.length_le fun same => differ (front.eq_of_length same).symm
    have inside : other <+: path.take 8 := prefix_take_iff.mpr ⟨front, short.le⟩
    refine ⟨inside, fun same => ?_⟩
    have lengths := congrArg length same
    rw [length_take] at lengths
    omega

lemma and_byte_eq_zero_iff (path byte : Nat) :
    path &&& (0xFF <<< (byte * 8)) = 0 ↔ (Nat.digits 256 path).getD byte 0 = 0 := by
  have shifted : path &&& (0xFF <<< (byte * 8)) = (path >>> (byte * 8) &&& 2 ^ 8 - 1) <<< (byte * 8) := by
    apply Nat.eq_of_testBit_eq
    intro bit
    simp only [Nat.testBit_and, Nat.testBit_shiftLeft, Nat.testBit_shiftRight]
    by_cases above : byte * 8 ≤ bit <;> simp [above]
  rw [shifted, Nat.and_two_pow_sub_one_eq_mod, Nat.shiftRight_eq_div_pow, Nat.getD_digits _ _ (by decide), Nat.mul_comm byte,
    pow_mul, Nat.shiftLeft_eq]
  simp

lemma getChildSExpr_eq {index : Nat} (bytewise : Bytewise (path ++ [index])) (short : path.length < 8) :
    getChildSExpr ⟨x, pack path⟩ index = ⟨x, pack (path ++ [index])⟩ := by
  have front := bytewise.sublist (sublist_append_left path [index])
  have small := bytewise.pack_lt (show (path ++ [index]).length ≤ 8 by simpa using short)
  have free : (range 8).find? (fun emptyByte => decide (pack path &&& (0xFF <<< (emptyByte * 8)) = 0)) = some path.length := by
    simp only [find?_range_eq_some, and_byte_eq_zero_iff, front.digits]
    simp [short]
    intro byte inside
    simp [inside]
  simp only [getChildSExpr, free]
  rw [pack_append] at small ⊢
  rw [Nat.add_comm (pack path), Nat.mul_comm path.length]
  exact congrArg _ (Nat.mod_eq_of_lt small)

lemma getChildSExpr_full {index : Nat} (bytewise : Bytewise path) (full : 8 ≤ path.length) :
    getChildSExpr ⟨x, pack path⟩ index = ⟨x, pack path⟩ := by
  have none : (range 8).find? (fun emptyByte => decide (pack path &&& (0xFF <<< (emptyByte * 8)) = 0)) = none := by
    rw [find?_range_eq_none]
    intro byte inside
    simp only [and_byte_eq_zero_iff, bytewise.digits]
    simp [show byte < path.length by omega]
  simp only [getChildSExpr, none]

lemma child_iff {index : Nat} (isPath : v.fieldPath = some (x, path)) (bytewise : Bytewise (path ++ [index]))
    (found : v.extractSinkExpression = some s) :
    (∃ u, (Vertex.dotAccess v (some index)).extractSinkExpression = some u ∧ s.getChildSExpr index = u ∧ u ≠ s) ↔
      path.length < 8 ∧ v.chainDepth < 7 := by
  have front := bytewise.sublist (sublist_append_left path [index])
  have word := extractSinkExpression_eq isPath front found
  have isChild : (Vertex.dotAccess v (some index)).fieldPath = some (x, path ++ [index]) := by simp [Vertex.fieldPath, isPath]
  obtain ⟨inner, chain, rfl, depth, isInner, steps⟩ := extractBelow_base isPath
  have whole : Bytewise (inner ++ (chain ++ [index])) := by rwa [← append_assoc]
  have chainWise := whole.sublist (sublist_append_right inner (chain ++ [index]))
  have nonzero : pack (chain ++ [index]) % 2 ^ 64 ≠ 0 := by
    rw [show 2 ^ 64 = 2 ^ (8 * 8) by rfl, chainWise.pack_mod 8]
    exact (chainWise.sublist (take_sublist 8 _)).pack_ne_zero (by simp)
  have child : (Vertex.dotAccess v (some index)).extractSinkExpression =
      below (pack (chain ++ [index]) % 2 ^ 64) (chain ++ [index]).length v.base.extractSinkExpression := by
    rw [← steps [index], ← pack_cons_mod index []]
    rfl
  have length : (chain ++ [index]).length = v.chainDepth + 1 := by simp [depth]
  have exists_iff := @exists_below_iff _ v.base.extractSinkExpression _ (chain ++ [index]).length nonzero (by simp)
  constructor
  · rintro ⟨u, isSink, isChild, differ⟩
    have shallow := (exists_iff.mp ⟨u, child ▸ isSink⟩).1
    refine ⟨?_, by omega⟩
    by_contra full
    refine differ (isChild.symm.trans ?_)
    rw [word]
    exact getChildSExpr_full (front.sublist (take_sublist 8 _)) (by rw [length_take]; omega)
  · rintro ⟨short, shallow⟩
    rw [take_of_length_le short.le] at word
    have room : ∃ t, v.base.extractSinkExpression = some t ∧ byteCount t.indexPath < 8 := by
      have whole : below (pack chain % 2 ^ 64) chain.length v.base.extractSinkExpression = some s := by
        rw [← append_nil chain, ← steps []]
        exact found
      rcases eq_or_ne chain [] with rfl | nonempty
      · exact ⟨s, whole, by rw [word, front.byteCount_pack]; exact short⟩
      · have ownWise := chainWise.sublist (sublist_append_left chain [index])
        refine ((exists_below_iff ?_ (length_pos_iff.mpr nonempty)).mp ⟨s, whole⟩).2
        rw [show 2 ^ 64 = 2 ^ (8 * 8) by rfl, ownWise.pack_mod 8]
        exact (ownWise.sublist (take_sublist 8 _)).pack_ne_zero (by simpa using nonempty)
    obtain ⟨u, isSink⟩ := exists_iff.mpr ⟨by omega, room⟩
    have childWord := extractSinkExpression_eq isChild bytewise (child.trans isSink)
    rw [take_of_length_le (by rw [length_append, length_singleton]; exact short)] at childWord
    refine ⟨u, child.trans isSink, ?_, ?_⟩
    · rw [word, childWord]
      exact getChildSExpr_eq bytewise short
    · rw [word, childWord]
      intro same
      have equal := bytewise.inj front (SinkExpression.mk.inj same).2
      simp at equal

/-- Sinks of paths with a byte for each index keep the first eight accesses. So they tell paths
apart that differ there, and know a child of a path with fewer than eight; the sink of a child is
the one that is computed for it, unless the chain of accesses gets too long. -/
theorem sinks_of_bytewise_paths [DecidableEq Var] (isPath : v.fieldPath = some (x, path))
    (isOther : w.fieldPath = some (y, other)) (bytewise : Bytewise path) (otherBytewise : Bytewise other)
    (found : v.extractSinkExpression = some s) (otherFound : w.extractSinkExpression = some t) :
    ((s = t ↔ x = y ∧ path = other) ↔ (x = y → path.take 8 = other.take 8 → path = other)) ∧
    ((s.isChildOf t = true ↔ x = y ∧ other <+: path ∧ path ≠ other) ↔
      (x = y → other <+: path → path ≠ other → other.length < 8)) ∧
    ∀ index < 255,
      ((∃ u, (Vertex.dotAccess v (some index)).extractSinkExpression = some u ∧ s.getChildSExpr index = u ∧ u ≠ s) ↔
        path.length < 8 ∧ v.chainDepth < 7) := by
  have cut := bytewise.sublist (take_sublist 8 path)
  have otherCut := otherBytewise.sublist (take_sublist 8 other)
  refine ⟨?_, ?_, fun index small => child_iff isPath ?_ found⟩
  · cases extractSinkExpression_eq isPath bytewise found
    cases extractSinkExpression_eq isOther otherBytewise otherFound
    have same : pack (path.take 8) = pack (other.take 8) ↔ path.take 8 = other.take 8 := ⟨cut.inj otherCut, congrArg pack⟩
    rw [SinkExpression.mk.injEq, same]
    constructor
    · exact fun exactly sameVar samePath => (exactly.mp ⟨sameVar, samePath⟩).2
    · exact fun distinct => ⟨fun both => ⟨both.1, distinct both.1 both.2⟩, fun both => ⟨both.1, congrArg _ both.2⟩⟩
  · cases extractSinkExpression_eq isPath bytewise found
    cases extractSinkExpression_eq isOther otherBytewise otherFound
    rw [isChildOf_iff cut otherCut (length_take_le 8 other), take_extends_iff]
    tauto
  · exact forall_mem_append.mpr ⟨bytewise, forall_mem_singleton.mpr small⟩

/-- `count` accesses to the first item of `(x.0.0.0.0.0.0.0 = rhs)`. -/
def deepAccess (count : Nat) : Vertex Unit :=
  (Vertex.dotAccess · (some 0))^[count] (.assign ((Vertex.dotAccess · (some 0))^[7] (.reference (some ()))) .other)

theorem sinks_of_bytewise_paths_child : (deepAccess 1).extractSinkExpression = some ⟨(), 0x0101010101010101⟩ ∧
    isChildOf (⟨(), 0x0101010101010101⟩ : SinkExpression Unit) ⟨(), 0x01010101010101⟩ = true ∧
    ∃ u, (Vertex.dotAccess (deepAccess 0) (some 3)).extractSinkExpression = some u ∧
      getChildSExpr ⟨(), 0x01010101010101⟩ 3 = u ∧ u ≠ ⟨(), 0x01010101010101⟩ := by
  have isPath : (deepAccess 1).fieldPath = some ((), replicate 8 0) := rfl
  have isOther : (deepAccess 0).fieldPath = some ((), replicate 7 0) := rfl
  have bytewise : Bytewise (replicate 8 0) := by unfold Bytewise; decide
  have otherBytewise : Bytewise (replicate 7 0) := by unfold Bytewise; decide
  obtain ⟨_, children, _⟩ := sinks_of_bytewise_paths isPath isOther bytewise otherBytewise rfl rfl
  obtain ⟨_, _, computed⟩ := sinks_of_bytewise_paths isOther isOther otherBytewise otherBytewise rfl rfl
  refine ⟨rfl, (children.mpr fun _ _ _ => by decide).mpr ⟨rfl, by decide, by decide⟩, ?_⟩
  exact (computed 3 (by decide)).mpr ⟨by decide, by decide⟩

/-- The ninth byte is shifted out of the word. -/
theorem sinks_collide : (deepAccess 1).extractSinkExpression = (deepAccess 2).extractSinkExpression ∧
    (deepAccess 1).extractSinkExpression.isSome ∧ (deepAccess 1).fieldPath = some ((), replicate 8 0) ∧
    (deepAccess 2).fieldPath = some ((), replicate 9 0) := by decide

end TonNode.Tolk
