import Mathlib

/-!
# Partial maps on bit strings

A map is built from its entry at the empty string and from the two maps left after a first bit.
A label in front of a map moves all its entries below that label.
-/

namespace TonNode.Lib

open List

def commonPrefixLen {α : Type} [DecidableEq α] : List α → List α → Nat
  | first :: left, second :: right => if first = second then commonPrefixLen left right + 1 else 0
  | _, _ => 0

section CommonPrefix

variable {α : Type} [DecidableEq α]

@[simp] lemma commonPrefixLen_nil_left (right : List α) : commonPrefixLen [] right = 0 := by
  cases right <;> rfl

@[simp] lemma commonPrefixLen_nil_right (left : List α) : commonPrefixLen left [] = 0 := by
  cases left <;> rfl

@[simp] lemma commonPrefixLen_append (common left right : List α) : commonPrefixLen (common ++ left) (common ++ right) =
      common.length + commonPrefixLen left right := by
  induction common with
  | nil => simp
  | cons head common ih =>
    simp only [cons_append, commonPrefixLen, ↓reduceIte, ih, length_cons]
    omega

@[simp] lemma commonPrefixLen_self (label : List α) : commonPrefixLen label label = label.length := by
  simpa using commonPrefixLen_append label [] []

lemma commonPrefix_split (left right : List α) : ∃ common leftRest rightRest,
      left = common ++ leftRest ∧ right = common ++ rightRest ∧ commonPrefixLen left right = common.length ∧
      ∀ first second tail other, leftRest = first :: tail → rightRest = second :: other → first ≠ second := by
  induction left generalizing right with
  | nil => exact ⟨[], [], right, rfl, rfl, by simp, by simp⟩
  | cons first left ih =>
    cases right with
    | nil => exact ⟨[], first :: left, [], rfl, rfl, by simp, by simp⟩
    | cons second right =>
      by_cases same : first = second
      · subst same
        obtain ⟨common, leftRest, rightRest, leftSplit, rightSplit, length, apart⟩ := ih right
        exact ⟨first :: common, leftRest, rightRest, by rw [leftSplit]; rfl,
          by rw [rightSplit]; rfl, by simp [commonPrefixLen, length], apart⟩
      · refine ⟨[], first :: left, second :: right, rfl, rfl, by simp [commonPrefixLen, same], ?_⟩
        intro one two tail other leftCons rightCons
        cases leftCons
        cases rightCons
        exact same

/-- A bit string that is at least as long as a label continues the label or leaves it at a bit. -/
lemma commonPrefix_cases (label key : List Bool) (short : label.length ≤ key.length) :
    (∃ rest, key = label ++ rest ∧ commonPrefixLen label key = label.length) ∨ ∃ common bit labelRest keyRest,
        label = common ++ bit :: labelRest ∧ key = common ++ (!bit) :: keyRest ∧ commonPrefixLen label key = common.length := by
  obtain ⟨common, labelRest, keyRest, rfl, rfl, length, apart⟩ := commonPrefix_split label key
  cases labelRest with
  | nil =>
    rw [append_nil] at length ⊢
    exact .inl ⟨keyRest, rfl, length⟩
  | cons bit labelRest =>
    cases keyRest with
    | nil =>
      simp only [length_append, length_cons, length_nil] at short
      omega
    | cons other keyRest =>
      have differ : bit ≠ other := apart bit other labelRest keyRest rfl rfl
      have other_eq : other = !bit := by
        cases bit <;> cases other <;> simp_all
      subst other_eq
      exact .inr ⟨common, bit, labelRest, keyRest, rfl, rfl, length⟩

end CommonPrefix

lemma getD_after (label below : List Bool) (bit : Bool) : (label ++ bit :: below).getD label.length false = bit := by
  simp

lemma drop_after (label below : List Bool) (bit : Bool) : (label ++ bit :: below).drop (label.length + 1) = below := by
  simp

lemma take_after (label below : List Bool) (bit : Bool) : (label ++ bit :: below).take (label.length + 1) = label ++ [bit] := by
  have longer : label.length + 1 = (label ++ [bit]).length := by simp
  rw [longer, append_cons label bit below, take_left]

/-- A partial map on bit strings. -/
abbrev BitMap (V : Type) := List Bool → Option V

namespace BitMap

variable {V : Type} {label key : List Bool} {value : V}

def empty : BitMap V := fun _ => none

def point (value : V) : BitMap V
  | [] => some value
  | _ :: _ => none

/-- The map with `left` below the bit 0 and `right` below the bit 1. -/
def branch (left right : BitMap V) : BitMap V
  | [] => none
  | false :: key => left key
  | true :: key => right key

/-- The map with all entries below one bit. -/
def step (bit : Bool) (map : BitMap V) : BitMap V :=
  if bit then branch empty map else branch map empty

def under : List Bool → BitMap V → BitMap V
  | [], map => map
  | bit :: label, map => step bit (under label map)

@[simp] lemma empty_apply (key : List Bool) : (empty : BitMap V) key = none := rfl

@[simp] lemma point_nil (value : V) : point value [] = some value := rfl

@[simp] lemma point_cons (value : V) (bit : Bool) (key : List Bool) :
    point value (bit :: key) = none := rfl

@[simp] lemma branch_nil (left right : BitMap V) : branch left right [] = none := rfl

@[simp] lemma branch_cons (left right : BitMap V) (bit : Bool) (key : List Bool) :
    branch left right (bit :: key) = if bit then right key else left key := by
  cases bit <;> rfl

@[simp] lemma step_nil (bit : Bool) (map : BitMap V) : step bit map [] = none := by
  cases bit <;> rfl

@[simp] lemma step_cons (bit other : Bool) (map : BitMap V) (key : List Bool) :
    step bit map (other :: key) = if other = bit then map key else none := by
  cases bit <;> cases other <;> rfl

@[simp] lemma under_nil (map : BitMap V) : under [] map = map := rfl

lemma under_cons (bit : Bool) (label : List Bool) (map : BitMap V) :
    under (bit :: label) map = step bit (under label map) := rfl

lemma under_append (first second : List Bool) (map : BitMap V) :
    under (first ++ second) map = under first (under second map) := by
  induction first with
  | nil => rfl
  | cons bit first ih => rw [cons_append, under_cons, under_cons, ih]

@[simp] lemma under_apply_append (label key : List Bool) (map : BitMap V) : under label map (label ++ key) = map key := by
  induction label with
  | nil => rfl
  | cons bit label ih => simp [under_cons, ih]

@[simp] lemma under_apply_self (label : List Bool) (map : BitMap V) : under label map label = map [] := by
  simpa using under_apply_append label [] map

lemma exists_of_under {map : BitMap V} (found : under label map key = some value) :
    ∃ rest, key = label ++ rest ∧ map rest = some value := by
  induction label generalizing key with
  | nil => exact ⟨key, rfl, found⟩
  | cons bit label ih =>
    cases key with
    | nil => simp [under_cons] at found
    | cons other key =>
      simp only [under_cons, step_cons, Option.ite_none_right_eq_some] at found
      obtain ⟨rfl, inner⟩ := found
      obtain ⟨rest, rfl, entry⟩ := ih inner
      exact ⟨rest, rfl, entry⟩

lemma under_apart (common labelRest keyRest : List Bool) (bit : Bool) (map : BitMap V) :
    under (common ++ bit :: labelRest) map (common ++ (!bit) :: keyRest) = none := by
  rw [under_append, under_apply_append, under_cons, step_cons]
  cases bit <;> simp

@[simp] lemma step_empty (bit : Bool) : step bit (empty : BitMap V) = empty := by
  funext key
  cases key with
  | nil => simp
  | cons other key => simp

@[simp] lemma under_empty (label : List Bool) : under label (empty : BitMap V) = empty := by
  induction label with
  | nil => rfl
  | cons bit label ih => rw [under_cons, ih, step_empty]

lemma branch_empty_left (right : BitMap V) : branch empty right = step true right := rfl

lemma branch_empty : branch (empty : BitMap V) empty = empty := by
  rw [branch_empty_left, step_empty]

lemma under_eq_none (apart : ¬label <+: key) (map : BitMap V) : under label map key = none := by
  cases found : under label map key with
  | none => rfl
  | some value =>
    obtain ⟨rest, rfl, _⟩ := exists_of_under found
    exact absurd (prefix_append label rest) apart

/-- The map with `own` below one bit and `other` below the opposite bit. -/
def fork (bit : Bool) (own other : BitMap V) : BitMap V :=
  if bit then branch other own else branch own other

@[simp] lemma fork_nil (bit : Bool) (own other : BitMap V) : fork bit own other [] = none := by
  cases bit <;> rfl

@[simp] lemma fork_own (bit : Bool) (own other : BitMap V) (key : List Bool) : fork bit own other (bit :: key) = own key := by
  cases bit <;> rfl

@[simp] lemma fork_other (bit : Bool) (own other : BitMap V) (key : List Bool) :
    fork bit own other ((!bit) :: key) = other key := by
  cases bit <;> rfl

lemma branch_eq_fork (bit : Bool) (left right : BitMap V) :
    branch left right = fork bit (if bit then right else left) (if bit then left else right) := by
  cases bit <;> rfl

lemma fork_not (bit : Bool) (own other : BitMap V) : fork (!bit) own other = fork bit other own := by
  cases bit <;> rfl

lemma under_eq_fork (shared rest : List Bool) (bit : Bool) (map : BitMap V) :
    under (shared ++ bit :: rest) map = under shared (fork bit (under rest map) empty) := by
  rw [under_append, under_cons, step, fork]

section Everywhere

variable {W U : Type} {related : List Bool → Option V → Option W → Option U → Prop}

def Everywhere (related : List Bool → Option V → Option W → Option U → Prop) (first : BitMap V)
    (second : BitMap W) (third : BitMap U) : Prop :=
  ∀ key, related key (first key) (second key) (third key)

lemma Everywhere.under {first : BitMap V} {second : BitMap W} {third : BitMap U}
    (nothing : ∀ key, related key none none none) (label : List Bool)
    (below : Everywhere (fun key => related (label ++ key)) first second third) :
    Everywhere related (under label first) (under label second) (under label third) := by
  intro key
  by_cases continues : label <+: key
  · obtain ⟨rest, rfl⟩ := continues
    rw [under_apply_append, under_apply_append, under_apply_append]
    exact below rest
  · rw [under_eq_none continues, under_eq_none continues, under_eq_none continues]
    exact nothing key

lemma Everywhere.fork (bit : Bool) {first firstOther : BitMap V} {second secondOther : BitMap W}
    {third thirdOther : BitMap U} (nothing : related [] none none none)
    (own : Everywhere (fun key => related (bit :: key)) first second third)
    (other : Everywhere (fun key => related ((!bit) :: key)) firstOther secondOther thirdOther) :
    Everywhere related (fork bit first firstOther) (fork bit second secondOther) (fork bit third thirdOther) := by
  intro key
  cases key with
  | nil => simpa using nothing
  | cons side key =>
    by_cases same : side = bit
    · subst same
      simpa using own key
    · obtain rfl : side = !bit := by cases side <;> cases bit <;> simp_all
      simpa using other key

end Everywhere

/-- The keys at which two maps differ, in their order, with both entries. All keys stand below
`above`. -/
structure Differences (above : List Bool) (first second : BitMap V)
    (items : List (List Bool × Option V × Option V)) : Prop where
  ordered : items.Pairwise fun item other => item.1 < other.1
  mem_iff : ∀ item, item ∈ items ↔ ∃ key, item = (above ++ key, first key, second key) ∧ first key ≠ second key

namespace Differences

variable {above : List Bool} {first second : BitMap V}
variable {items more : List (List Bool × Option V × Option V)}

lemma same (above : List Bool) (map : BitMap V) : Differences above map map [] :=
  ⟨.nil, fun item => by simp⟩

lemma single (differ : first [] ≠ second []) (agree : ∀ bit key, first (bit :: key) = second (bit :: key)) :
    Differences above first second [(above, first [], second [])] := by
  refine ⟨pairwise_singleton _ _, fun item => mem_singleton.trans ⟨?_, ?_⟩⟩
  · rintro rfl
    exact ⟨[], by simp, differ⟩
  · rintro ⟨key, rfl, differs⟩
    cases key with
    | nil => simp
    | cons bit key => exact absurd (agree bit key) differs

lemma under_iff (label : List Bool) : Differences above (.under label first) (.under label second) items ↔
      Differences (above ++ label) first second items := by
  have moved : ∀ item, (∃ key, item = (above ++ key, under label first key, under label second key) ∧
      under label first key ≠ under label second key) ↔
      ∃ key, item = (above ++ label ++ key, first key, second key) ∧ first key ≠ second key := by
    intro item
    constructor
    · rintro ⟨key, isItem, differ⟩
      by_cases continues : label <+: key
      · obtain ⟨rest, rfl⟩ := continues
        exact ⟨rest, by simpa using isItem, by simpa using differ⟩
      · exact absurd ((under_eq_none continues _).trans (under_eq_none continues _).symm) differ
    · rintro ⟨key, isItem, differ⟩
      exact ⟨label ++ key, by simpa using isItem, by simpa using differ⟩
  exact ⟨fun below => ⟨below.ordered, fun item => (below.mem_iff item).trans (moved item)⟩,
    fun below => ⟨below.ordered, fun item => (below.mem_iff item).trans (moved item).symm⟩⟩

lemma branch {left1 left2 right1 right2 : BitMap V} (left : Differences (above ++ [false]) left1 left2 items)
    (right : Differences (above ++ [true]) right1 right2 more) :
    Differences above (.branch left1 right1) (.branch left2 right2) (items ++ more) := by
  refine ⟨pairwise_append.mpr ⟨left.ordered, right.ordered, ?_⟩, fun item => ?_⟩
  · intro lower inLeft upper inRight
    obtain ⟨lowerKey, rfl, _⟩ := (left.mem_iff lower).mp inLeft
    obtain ⟨upperKey, rfl, _⟩ := (right.mem_iff upper).mp inRight
    rw [append_assoc, append_assoc]
    exact append_left_lt (List.Lex.rel (by decide))
  · rw [mem_append, left.mem_iff, right.mem_iff]
    constructor
    · rintro (⟨key, isItem, differ⟩ | ⟨key, isItem, differ⟩)
      · exact ⟨false :: key, by simpa using isItem, differ⟩
      · exact ⟨true :: key, by simpa using isItem, differ⟩
    · rintro ⟨key, isItem, differ⟩
      cases key with
      | nil => exact absurd rfl differ
      | cons bit key =>
        cases bit with
        | false => exact .inl ⟨key, by simpa using isItem, differ⟩
        | true => exact .inr ⟨key, by simpa using isItem, differ⟩

end Differences

lemma update_step (bit : Bool) (map : BitMap V) (key : List Bool) (entry : Option V) :
    Function.update (step bit map) (bit :: key) entry = step bit (Function.update map key entry) := by
  funext other
  cases other with
  | nil => simp [Function.update]
  | cons head other =>
    by_cases same : head = bit
    · subst same
      by_cases found : other = key
      · subst found
        simp
      · simp [Function.update, found]
    · simp [Function.update, same]

lemma update_under (label key : List Bool) (map : BitMap V) (entry : Option V) :
    Function.update (under label map) (label ++ key) entry = under label (Function.update map key entry) := by
  induction label with
  | nil => rfl
  | cons bit label ih => rw [cons_append, under_cons, update_step, ih, under_cons]

lemma update_branch (left right : BitMap V) (bit : Bool) (key : List Bool) (entry : Option V) :
    Function.update (branch left right) (bit :: key) entry = if bit then branch left (Function.update right key entry)
      else branch (Function.update left key entry) right := by
  funext other
  cases other with
  | nil => cases bit <;> simp [Function.update]
  | cons head other =>
    by_cases found : other = key
    · subst found
      cases bit <;> cases head <;> simp [Function.update]
    · cases bit <;> cases head <;> simp [Function.update, found]

lemma update_point (old value : V) : Function.update (point old) [] (some value) = point value := by
  funext key
  cases key <;> simp [Function.update]

lemma update_point_none (old : V) : Function.update (point old) [] none = empty := by
  funext key
  cases key <;> simp [Function.update]

lemma update_empty (key : List Bool) (value : V) : Function.update empty key (some value) = under key (point value) := by
  have shifted := update_under key [] (empty : BitMap V) (some value)
  rw [append_nil, under_empty] at shifted
  rw [shifted]
  congr 1
  funext other
  cases other <;> simp [Function.update]

lemma update_apart (common labelRest keyRest : List Bool) (bit : Bool) (map : BitMap V) (value : V) :
    Function.update (under (common ++ bit :: labelRest) map) (common ++ (!bit) :: keyRest) (some value) = under common
        (if bit then branch (under keyRest (point value)) (under labelRest map)
         else branch (under labelRest map) (under keyRest (point value))) := by
  rw [under_append, update_under, under_cons, ← update_empty]
  cases bit with
  | false =>
    have inner := update_branch (under labelRest map) empty true keyRest (some value)
    simpa [step] using congrArg (under common) inner
  | true =>
    have inner := update_branch empty (under labelRest map) false keyRest (some value)
    simpa [step] using congrArg (under common) inner

variable {first second leftKey rightKey : List Bool} {one two : V} {left right : BitMap V} {other another : BitMap V}

lemma point_under_injective (same : under first (point one) = under second (point two)) : first = second ∧ one = two := by
  have found : under second (point two) first = some one := by
    rw [← same, under_apply_self, point_nil]
  obtain ⟨rest, rfl, entry⟩ := exists_of_under found
  cases rest with
  | nil => exact ⟨by simp, (Option.some.inj entry).symm⟩
  | cons bit rest => simp at entry

lemma point_under_ne_branch (inLeft : left leftKey = some one) (inRight : right rightKey = some two) :
    under first (point value) ≠ under second (branch left right) := by
  intro same
  have below : ∀ bit key entry, branch left right (bit :: key) = some entry →
      first = second ++ bit :: key := by
    intro bit key entry present
    have found : under first (point value) (second ++ bit :: key) = some entry := by
      rw [same, under_apply_append, present]
    obtain ⟨rest, joined, inPoint⟩ := exists_of_under found
    cases rest with
    | nil => simpa using joined.symm
    | cons other rest => simp at inPoint
  have atLeft := below false leftKey one (by simpa using inLeft)
  have atRight := below true rightKey two (by simpa using inRight)
  simp [atLeft] at atRight

private lemma branch_label_le (same : under first (branch left right) = under second (branch other another))
    (inLeft : left leftKey = some one) (inRight : right rightKey = some two) : second <+: first := by
  have below : ∀ bit key entry, branch left right (bit :: key) = some entry →
      ∃ rest, first ++ bit :: key = second ++ rest := by
    intro bit key entry present
    have found : under second (branch other another) (first ++ bit :: key) = some entry := by
      rw [← same, under_apply_append, present]
    obtain ⟨rest, joined, _⟩ := exists_of_under found
    exact ⟨rest, joined⟩
  obtain ⟨leftRest, atLeft⟩ := below false leftKey one (by simpa using inLeft)
  obtain ⟨rightRest, atRight⟩ := below true rightKey two (by simpa using inRight)
  rcases append_eq_append_iff.mp atLeft with ⟨middle, split, tail⟩ | ⟨middle, split, _⟩
  · cases middle with
    | nil => exact ⟨[], by simpa using split⟩
    | cons bit middle =>
      -- the label of the second map would contain both bits after the first label
      have fromLeft : bit = false := by simp at tail; exact tail.1
      rw [split, append_assoc] at atRight
      have fromRight := append_cancel_left atRight
      simp [fromLeft] at fromRight
  · exact ⟨middle, split.symm⟩

lemma branch_under_injective {three four : V} {otherKey anotherKey : List Bool}
    (same : under first (branch left right) = under second (branch other another))
    (inLeft : left leftKey = some one) (inRight : right rightKey = some two)
    (inOther : other otherKey = some three) (inAnother : another anotherKey = some four) :
    first = second ∧ left = other ∧ right = another := by
  have oneWay : second <+: first := branch_label_le same inLeft inRight
  have otherWay : first <+: second := branch_label_le same.symm inOther inAnother
  have labels : first = second := otherWay.eq_of_length_le oneWay.length_le
  subst labels
  refine ⟨rfl, ?_, ?_⟩
  · funext key
    have applied := congrFun same (first ++ false :: key)
    simpa using applied
  · funext key
    have applied := congrFun same (first ++ true :: key)
    simpa using applied

end BitMap

end TonNode.Lib
