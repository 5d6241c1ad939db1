import Mathlib

/-!
# Signs of unnormalized integers

An integer is kept as digits to the base `2 ^ 52` in words of 64 bits, the lowest digit first. Its
sign and its order are found from the highest digit down, before the digits are normalized.
-/

namespace TonNode.Common

open List

/-- A word of the machine. A result out of its range, which only `difference` has, wraps around. -/
def word (value : Int) : Int := value.bmod (2 ^ 64)

def fromTop (v : Int) (next : Int → Int) : Int :=
  if 2 ^ 11 ≤ v then 1 else if v ≤ -2 ^ 11 then -1 else next v

/-- The loop down the last digits; `v` stands for the digits above them. -/
def descend (v : Int) : List Int → Int
  | [] => v.sign
  | w :: rest =>
    let v := word (v * 2 ^ 52)
    if word (-v + 2 ^ 11) ≤ w then 1
    else if w ≤ word (-v - 2 ^ 11) then -1
    else descend (word (v + w)) rest

def sgnUnAny (digits : List Int) : Int :=
  match digits.reverse with
  | [] => 0
  | [v] => v.sign
  | v :: rest => fromTop v (descend · rest)

/-- The difference of two words; an overflow is undefined. -/
def difference (first second : Int) : Option Int :=
  if -2 ^ 63 ≤ first - second ∧ first - second < 2 ^ 63 then some (first - second) else none

def stopAt (v : Int) (next : Int → Option Int) : Option Int :=
  if 2 ^ 11 ≤ v then some 1 else if v ≤ -2 ^ 11 then some (-1) else next v

section Comparison

-- The digits of the first number are multiplied by 1 for `TransformId`, by -1 for `TransformNegate`
-- and by the factor of a `TransformMul`.
variable (factor : Int)

def eval (digit : Int) : Int := word (digit * factor)

def descendBoth (v : Int) : List (Int × Int) → Option Int
  | [] => some v.sign
  | (digit, other) :: rest => do
    let v := word (v * 2 ^ 52)
    let w ← difference (eval factor digit) other
    if word (-v + 2 ^ 11) ≤ w then some 1
    else if w ≤ word (-v - 2 ^ 11) then some (-1)
    else descendBoth (word (v + w)) rest

def descendOwn (both : List (Int × Int)) (v : Int) : List Int → Option Int
  | [] => descendBoth factor v both
  | digit :: rest =>
    let v := word (v * 2 ^ 52)
    let w := eval factor digit
    if word (-v + 2 ^ 11) ≤ w then some 1
    -- the source compares with the same bound again
    else if w ≤ word (-v + 2 ^ 11) then some (-1)
    else descendOwn both (word (v + w)) rest

def descendOther (both : List (Int × Int)) (v : Int) : List Int → Option Int
  | [] => descendBoth factor v both
  | w :: rest =>
    let v := word (v * 2 ^ 52)
    if w ≤ word (v - 2 ^ 11) then some 1
    else if word (v + 2 ^ 11) ≤ w then some (-1)
    else descendOther both (word (v - w)) rest

def cmpUnAny (x y : List Int) : Option Int :=
  let both := (x.zip y).reverse
  match (x.drop y.length).reverse, (y.drop x.length).reverse with
  | v :: rest, _ => stopAt (eval factor v) (descendOwn factor both · rest)
  | [], v :: rest => stopAt (word (-v)) (descendOther factor both · rest)
  | [], [] => descendBoth factor 0 both

end Comparison

def value (digits : List Int) : Int := digits.foldr (fun digit high => high * 2 ^ 52 + digit) 0

def differences (factor : Int) (x y : List Int) : List Int :=
  zipWith (fun digit other => digit * factor - other) x y ++ ((x.drop y.length).map (· * factor) ++ (y.drop x.length).map (-·))

def horner (v : Int) (rest : List Int) : Int := rest.foldl (fun v w => v * 2 ^ 52 + w) v

/-- Down from the highest digit: each fits a word, until the digits so far reach `2 ^ 11` units of
the last of them; those that follow do not outweigh them. -/
def Decides (v : Int) : List Int → Prop
  | [] => True
  | w :: rest =>
    (-2 ^ 63 ≤ w ∧ w < 2 ^ 63) ∧
      if (v * 2 ^ 52 + w).natAbs < 2 ^ 11 then Decides (v * 2 ^ 52 + w) rest
      else -((v * 2 ^ 52 + w).sign * horner 0 rest) < (v * 2 ^ 52 + w).natAbs * (2 ^ 52) ^ rest.length

/-- Of two digits or more, the two highest reach `2 ^ 11` units neither alone nor together. -/
def undecided (digits : List Int) (factor : Int) : Bool :=
  match digits.reverse with
  | v :: w :: _ => (v * factor).natAbs < 2 ^ 11 && (v * factor * 2 ^ 52 + w * factor).natAbs < 2 ^ 11
  | _ => false

/-- What a comparison needs. If two digits more decide nothing, the first number is found smaller. -/
def Comparable (factor : Int) (x y : List Int) : Prop :=
  if undecided (x.drop y.length) factor then value x * factor < value y
  else Decides 0 (differences factor x y).reverse

/-- Such digits, however many, do not add up to `2 ^ 11` units of the digit above them. -/
def Narrow (digits : List Int) : Prop := ∀ digit ∈ digits, digit.natAbs ≤ 2 ^ 63 - 2 ^ 11

variable {v w factor : Int} {rest x y : List Int}

lemma horner_reverse (digits : List Int) : horner 0 digits.reverse = value digits := foldl_reverse

lemma horner_zero_cons : horner 0 (v :: rest) = horner v rest := by
  rw [horner, foldl_cons, zero_mul, zero_add, horner]

lemma word_eq (fits : v.natAbs < 2 ^ 63) : word v = v := by
  apply Int.bmod_eq_of_le <;> omega

lemma Narrow.reverse (narrow : Narrow x) : Narrow x.reverse := fun digit member => narrow digit (mem_reverse.mp member)

lemma horner_far (narrow : Narrow rest) :
    (2 ^ 11 ≤ v → 2 ^ 11 ≤ horner v rest) ∧ (v ≤ -2 ^ 11 → horner v rest ≤ -2 ^ 11) := by
  induction rest generalizing v with
  | nil => exact ⟨id, id⟩
  | cons w rest ih =>
    obtain ⟨small, narrow⟩ := forall_mem_cons.mp narrow
    obtain ⟨above, below⟩ := @ih (v * 2 ^ 52 + w) narrow
    exact ⟨fun far => above (by omega), fun far => below (by omega)⟩

lemma fromTop_eq {next : Int → Int} (narrow : Narrow rest) (near : v.natAbs < 2 ^ 11 → next v = (horner v rest).sign) :
    fromTop v next = (horner v rest).sign := by
  obtain ⟨above, below⟩ := @horner_far v rest narrow
  unfold fromTop
  split
  next far => exact (Int.sign_eq_one_of_pos (by have := above far; omega)).symm
  split
  next far => exact (Int.sign_eq_neg_one_of_neg (by have := below far; omega)).symm
  exact near (by omega)

lemma descend_cons (near : v.natAbs < 2 ^ 11) : descend v (w :: rest) = fromTop (v * 2 ^ 52 + w) (descend · rest) := by
  simp (disch := omega) only [descend, fromTop, word_eq]
  split_ifs <;> first | rfl | omega

lemma descend_eq (near : v.natAbs < 2 ^ 11) (narrow : Narrow rest) : descend v rest = (horner v rest).sign := by
  induction rest generalizing v with
  | nil => rfl
  | cons w rest ih =>
    have narrow := (forall_mem_cons.mp narrow).2
    rw [descend_cons near]
    exact fromTop_eq narrow (ih · narrow)

lemma sgnUnAny_eq (narrow : Narrow x) : sgnUnAny x = (value x).sign := by
  have narrow := narrow.reverse
  rw [← horner_reverse, sgnUnAny]
  split
  next none => rw [none]; rfl
  next v one => rw [one, horner_zero_cons]; rfl
  next v rest _ more =>
    rw [more] at narrow ⊢
    have narrow := (forall_mem_cons.mp narrow).2
    rw [horner_zero_cons]
    exact fromTop_eq narrow (descend_eq · narrow)

lemma value_map (digits : List Int) : value (digits.map (· * factor)) = value digits * factor := by
  induction digits with
  | nil => simp [value]
  | cons digit digits ih =>
    simp only [value, map_cons, foldr_cons] at ih ⊢
    rw [ih]
    ring

lemma value_differences (x y : List Int) : value (differences factor x y) = value x * factor - value y := by
  induction x generalizing y with
  | nil =>
    have negated := @value_map (-1) y
    simpa [differences, value] using negated
  | cons digit x ih =>
    cases y with
    | nil =>
      have scaled := @value_map factor (digit :: x)
      simpa [differences, value] using scaled
    | cons other y =>
      have below := ih y
      simp only [value, differences, zipWith_cons_cons, length_cons, drop_succ_cons, cons_append, foldr_cons] at below ⊢
      rw [below]
      ring

/-- The loops over exact digits, without the slip in the first of them. -/
def run (v : Int) : List Int → Option Int
  | [] => some v.sign
  | w :: rest => if -2 ^ 63 ≤ w ∧ w < 2 ^ 63 then stopAt (v * 2 ^ 52 + w) (run · rest) else none

lemma stopAt_eq (v : Int) (next : Int → Option Int) :
    stopAt v next = if v.natAbs < 2 ^ 11 then next v else some v.sign := by
  unfold stopAt
  split_ifs
  · omega
  · rw [Int.sign_eq_one_of_pos (by omega)]
  · omega
  · rw [Int.sign_eq_neg_one_of_neg (by omega)]
  · rfl
  · omega

lemma horner_eq (v : Int) (rest : List Int) : horner v rest = v * (2 ^ 52) ^ rest.length + horner 0 rest := by
  induction rest generalizing v with
  | nil => simp [horner]
  | cons w rest ih =>
    have shifted := ih (v * 2 ^ 52 + w)
    have start := ih w
    simp only [horner, foldl_cons, zero_mul, zero_add, length_cons, pow_succ] at shifted start ⊢
    rw [shifted, start]
    ring

lemma sign_add_eq_iff {high low scale : Int} (some_ : high ≠ 0) :
    high.sign = (high * scale + low).sign ↔ -(high.sign * low) < high.natAbs * scale := by
  rcases Int.lt_or_gt_of_ne some_ with negative | positiveHigh
  · have size : (high.natAbs : Int) = -high := by omega
    rw [Int.sign_eq_neg_one_of_neg negative, eq_comm, Int.sign_eq_neg_one_iff_neg, size]
    constructor <;> intro <;> linarith
  · have size : (high.natAbs : Int) = high := by omega
    rw [Int.sign_eq_one_of_pos positiveHigh, eq_comm, Int.sign_eq_one_iff_pos, size]
    constructor <;> intro <;> linarith

lemma run_eq_iff (v : Int) (digits : List Int) : run v digits = some (horner v digits).sign ↔ Decides v digits := by
  induction digits generalizing v with
  | nil => simp [run, horner, Decides]
  | cons w rest ih =>
    have same : horner v (w :: rest) = horner (v * 2 ^ 52 + w) rest := rfl
    rw [run, Decides, same, stopAt_eq]
    by_cases fits : -2 ^ 63 ≤ w ∧ w < 2 ^ 63
    · rw [if_pos fits, and_iff_right fits]
      split
      · exact ih _
      · rw [Option.some.injEq, horner_eq (v * 2 ^ 52 + w) rest]
        exact sign_add_eq_iff (by omega)
    · rw [if_neg fits]
      exact ⟨nofun, fun both => absurd both.1 fits⟩

section Loops

variable (near : v.natAbs < 2 ^ 11)
include near

lemma descendBoth_eq {both : List (Int × Int)} (fits : ∀ pair ∈ both, (pair.1 * factor).natAbs < 2 ^ 63) :
    descendBoth factor v both = run v (both.map fun pair => pair.1 * factor - pair.2) := by
  induction both generalizing v with
  | nil => rfl
  | cons pair rest ih =>
    obtain ⟨first, fits⟩ := forall_mem_cons.mp fits
    simp only [descendBoth, eval, word_eq first, difference, map_cons, run]
    split_ifs with small
    · simp (disch := omega) only [Option.bind_eq_bind, Option.bind_some, stopAt, word_eq]
      split_ifs <;> first | rfl | omega | exact ih (by omega) fits
    · rfl

variable {both : List (Int × Int)} (fits : ∀ pair ∈ both, (pair.1 * factor).natAbs < 2 ^ 63)
include fits

lemma descendOther_eq (small : ∀ digit ∈ rest, digit.natAbs < 2 ^ 63) :
    descendOther factor both v rest = run v (rest.map (-·) ++ both.map fun pair => pair.1 * factor - pair.2) := by
  induction rest generalizing v with
  | nil => exact descendBoth_eq near fits
  | cons w rest ih =>
    obtain ⟨first, small⟩ := forall_mem_cons.mp small
    have negated : -2 ^ 63 ≤ -w ∧ -w < 2 ^ 63 := by omega
    rw [map_cons, cons_append, run, if_pos negated]
    simp (disch := omega) only [descendOther, stopAt, word_eq]
    split_ifs <;> first | rfl | omega | exact ih (by omega) small

omit fits in
/-- The first loop always stops in its first turn. -/
lemma descendOwn_cons (small : (w * factor).natAbs < 2 ^ 63) (rest : List Int) (others : List Int) :
    descendOwn factor both v (w :: rest) =
      if (v * 2 ^ 52 + w * factor).natAbs < 2 ^ 11 then some (-1) else run v (w * factor :: others) := by
  simp (disch := omega) only [descendOwn, eval, run, stopAt, word_eq]
  split_ifs <;> first | rfl | omega

end Loops

lemma mul_factor_lt {digit : Int} (small : digit.natAbs < 2 ^ 62) (factors : factor.natAbs ≤ 2) :
    (digit * factor).natAbs < 2 ^ 63 := by
  calc (digit * factor).natAbs = digit.natAbs * factor.natAbs := Int.natAbs_mul ..
    _ ≤ digit.natAbs * 2 := Nat.mul_le_mul_left _ factors
    _ < 2 ^ 63 := by omega

section Bounded

variable (own : ∀ digit ∈ x, digit.natAbs < 2 ^ 62) (other : ∀ digit ∈ y, digit.natAbs < 2 ^ 62) (factors : factor.natAbs ≤ 2)
include own other factors

lemma cmpUnAny_eq : cmpUnAny factor x y =
    if undecided (x.drop y.length) factor then some (-1) else run 0 (differences factor x y).reverse := by
  have fits : ∀ pair ∈ (x.zip y).reverse, (pair.1 * factor).natAbs < 2 ^ 63 := fun pair member =>
    mul_factor_lt (own _ (of_mem_zip (mem_reverse.mp member)).1) factors
  have lows : (zipWith (fun digit other => digit * factor - other) x y).reverse =
      (x.zip y).reverse.map fun pair => pair.1 * factor - pair.2 := by
    rw [map_reverse, ← map_uncurry_zip_eq_zipWith]
    rfl
  unfold cmpUnAny differences undecided
  simp only [reverse_append, ← map_reverse, lows]
  cases longer : (x.drop y.length).reverse with
  | nil =>
    cases others : (y.drop x.length).reverse with
    | nil => exact descendBoth_eq (by decide) fits
    | cons v rest =>
      have small : ∀ digit ∈ v :: rest, digit.natAbs < 2 ^ 62 := fun digit member =>
        other digit (mem_of_mem_drop (mem_reverse.mp (others ▸ member)))
      obtain ⟨first, small⟩ := forall_mem_cons.mp small
      have negated : -2 ^ 63 ≤ -v ∧ -v < 2 ^ 63 := by omega
      simp only [map_nil, append_nil, map_cons, cons_append, Bool.false_eq_true, ↓reduceIte]
      rw [word_eq (by omega), run, if_pos negated, zero_mul, zero_add, stopAt_eq, stopAt_eq]
      refine if_ctx_congr Iff.rfl (fun near => ?_) fun _ => rfl
      exact descendOther_eq near fits fun digit member => (small digit member).trans (by decide)
  | cons v rest =>
    have shorter : y.drop x.length = [] := by
      have length := congrArg length longer
      rw [length_reverse, length_drop, length_cons] at length
      exact drop_of_length_le (by omega)
    have small : ∀ digit ∈ v :: rest, (digit * factor).natAbs < 2 ^ 63 := fun digit member =>
      mul_factor_lt (own digit (mem_of_mem_drop (mem_reverse.mp (longer ▸ member)))) factors
    obtain ⟨first, small⟩ := forall_mem_cons.mp small
    have fitting : -2 ^ 63 ≤ v * factor ∧ v * factor < 2 ^ 63 := by omega
    rw [shorter]
    simp only [reverse_nil, map_nil, nil_append, map_cons, cons_append]
    rw [run, if_pos fitting, zero_mul, zero_add, eval, word_eq first, stopAt_eq, stopAt_eq]
    by_cases near : (v * factor).natAbs < 2 ^ 11
    · rw [if_pos near, if_pos near]
      cases rest with
      | nil => exact descendBoth_eq near fits
      | cons w rest =>
        simp only [decide_eq_true near, Bool.true_and, decide_eq_true_eq]
        exact descendOwn_cons near (small w mem_cons_self) rest _
    · rw [if_neg near, if_neg near]
      cases rest with
      | nil => rfl
      | cons w rest => simp only [decide_eq_false near, Bool.false_and, Bool.false_eq_true, ↓reduceIte]

/-- A comparison is right exactly if the numbers are `Comparable`. -/
lemma cmpUnAny_eq_iff : cmpUnAny factor x y = some (value x * factor - value y).sign ↔ Comparable factor x y := by
  rw [cmpUnAny_eq own other factors, Comparable]
  split
  · rw [Option.some.injEq, eq_comm, Int.sign_eq_neg_one_iff_neg, sub_neg]
  · rw [← value_differences, ← horner_reverse]
    exact run_eq_iff 0 _

end Bounded

lemma Narrow.decides (narrow : Narrow rest) : Decides v rest := by
  induction rest generalizing v with
  | nil => trivial
  | cons w rest ih =>
    obtain ⟨small, narrow⟩ := forall_mem_cons.mp narrow
    refine ⟨by omega, ?_⟩
    split
    · exact ih narrow
    · obtain ⟨above, below⟩ := @horner_far (v * 2 ^ 52 + w) rest narrow
      refine (sign_add_eq_iff (by omega)).mp ?_
      rw [← horner_eq]
      rcases Int.lt_or_gt_of_ne (show v * 2 ^ 52 + w ≠ 0 by omega) with negative | positive
      · have low := below (by omega)
        rw [Int.sign_eq_neg_one_of_neg negative, Int.sign_eq_neg_one_of_neg (by omega)]
      · have high := above (by omega)
        rw [Int.sign_eq_one_of_pos positive, Int.sign_eq_one_of_pos (by omega)]

lemma comparable_of_narrow (narrow : Narrow (differences factor x y)) (decided : undecided (x.drop y.length) factor = false) :
    Comparable factor x y := by
  rw [Comparable, decided]
  exact narrow.reverse.decides

/-- Signs are exact. So is the order of numbers that are `Comparable`, as all are whose differences of
digits do not nearly fill a word, unless two digits more decide nothing. -/
theorem unnormalized_signs (small : ∀ digit ∈ x, digit.natAbs < 2 ^ 62) :
    sgnUnAny x = (value x).sign ∧
    ∀ factor y, factor.natAbs ≤ 2 → (∀ digit ∈ y, digit.natAbs < 2 ^ 62) →
      (cmpUnAny factor x y = some (value x * factor - value y).sign ↔ Comparable factor x y) ∧
      (Narrow (differences factor x y) → undecided (x.drop y.length) factor = false → Comparable factor x y) := by
  refine ⟨sgnUnAny_eq fun digit member => ?_, fun factor y factors other => ?_⟩
  · have := small digit member
    omega
  · exact ⟨cmpUnAny_eq_iff small other factors, comparable_of_narrow⟩

theorem unnormalized_signs_borrowed : sgnUnAny [-2 ^ 60, 2 ^ 8] = 0 ∧
    cmpUnAny (-2) [-2 ^ 60, 2 ^ 8] [2 ^ 61, 0, 1] = some (-1) ∧
    cmpUnAny 1 [2 ^ 62 - 1] [1 - 2 ^ 62] = some 1 ∧
    cmpUnAny 1 [1, -5, 0] [0] = some (-1) := by
  obtain ⟨sign, order⟩ := @unnormalized_signs [-2 ^ 60, 2 ^ 8] (by decide)
  obtain ⟨_, wide⟩ := @unnormalized_signs [2 ^ 62 - 1] (by decide)
  obtain ⟨_, long⟩ := @unnormalized_signs [1, -5, 0] (by decide)
  obtain ⟨exactly, narrow⟩ := order (-2) [2 ^ 61, 0, 1] (by decide) (by decide)
  refine ⟨sign, exactly.mpr (narrow (by unfold Narrow; decide) rfl), ?_, ?_⟩
  · refine (wide 1 [1 - 2 ^ 62] (by decide) (by decide)).1.mpr ?_
    simp [Comparable, undecided, Decides, differences, horner]
  · refine (long 1 [0] (by decide) (by decide)).1.mpr ?_
    simp [Comparable, undecided, value]

/-- A number of three digits is found smaller than zero. -/
theorem cmpUnAny_wrong : cmpUnAny 1 [0, 5 - 2 ^ 52, 1] [0] = some (-1) ∧
    value [0, 5 - 2 ^ 52, 1] - value [0] = 5 * 2 ^ 52 := by
  decide

end TonNode.Common
