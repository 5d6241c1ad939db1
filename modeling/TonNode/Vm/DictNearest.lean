import TonNode.Vm.DictGuarantees

/-!
# The nearest key

The search for the key next to a start key, in either direction. Where the start key leaves a label,
all keys below the label lie on the same side of it.
-/

namespace TonNode.Vm

open Lib List BitMap

variable {labels : Labelling}

/-- The key lies on the side of `start` that is searched. -/
def Beyond (first later allowEq : Bool) (start key : List Bool) : Prop :=
  Precedes first later key start ∨ allowEq = true ∧ key = start

lemma beyond_append (first later allowEq : Bool) (label start key : List Bool) :
    Beyond first later allowEq (label ++ start) (label ++ key) ↔
      Beyond (if label = [] then first else later) later allowEq start key := by
  rw [Beyond, precedes_append, append_cancel_left_eq, Beyond]

lemma beyond_cons (first later allowEq bit other : Bool) (start key : List Bool) :
    Beyond first later allowEq (other :: start) (bit :: key) ↔
      if bit = other then Beyond later later allowEq start key else bit = first := by
  rw [Beyond, precedes_cons, cons_eq_cons]
  split
  next same =>
    simp [Beyond, same]
  next differ =>
    simp [differ]

/-- The nearest key with its value is left in the buffer, or nothing if no key lies on the side
that is searched. -/
def Nearest (first later allowEq : Bool) (map : BitMap CellSlice) (start : List Bool) :
    List Bool × Option CellSlice → Prop
  | (key, some value) => map key = some value ∧ Beyond first later allowEq start key ∧
      ∀ other found, map other = some found → Beyond first later allowEq start other →
        other = key ∨ Precedes (!first) (!later) key other
  | (_, none) => ∀ other found, map other = some found → ¬Beyond first later allowEq start other

variable {first later allowEq : Bool} {n : Nat} {cell : Cell} {map : BitMap CellSlice} {start key : List Bool} {value : CellSlice}

private lemma nearest_apart {common labelRest startRest : List Bool} {bit : Bool}
    {inner : BitMap CellSlice} {other : List Bool} {found : CellSlice}
    (present : under (common ++ bit :: labelRest) inner other = some found) :
    Beyond first later allowEq (common ++ (!bit) :: startRest) other ↔ bit = if common = [] then first else later := by
  obtain ⟨tail, rfl, _⟩ := exists_of_under present
  rw [append_assoc, beyond_append, cons_append, beyond_cons, if_neg (by cases bit <;> decide)]

private lemma exists_side {label other : List Bool} {left right : BitMap CellSlice}
    (present : under label (.branch left right) other = some value) :
    ∃ side key, other = label ++ side :: key ∧ branch left right (side :: key) = some value := by
  obtain ⟨rest, rfl, inBranch⟩ := exists_of_under present
  cases rest with
  | nil => cases inBranch
  | cons side key => exact ⟨side, key, rfl, inBranch⟩

section Fork

variable {label below tail : List Bool} {bit side : Bool}
variable {left right childMap siblingMap : BitMap CellSlice} {found : Option CellSlice}

private lemma nearest_of_child (isChild : ∀ key, branch left right (bit :: key) = childMap key)
    (nearest : Nearest later later allowEq childMap below (tail, found))
    (isSide : (if label = [] then first else later) = side) (isOver : found.isSome ∨ bit = side) :
    Nearest first later allowEq (.under label (.branch left right)) (label ++ bit :: below) (label ++ bit :: tail, found) := by
  cases found with
  | none =>
    obtain rfl : bit = side := by simpa using isOver
    intro other value present
    obtain ⟨otherSide, key, rfl, inBranch⟩ := exists_side present
    rw [beyond_append, isSide, beyond_cons]
    split
    next same =>
      subst same
      exact nearest key value ((isChild key).symm.trans inBranch)
    next differ =>
      exact differ
  | some value =>
    obtain ⟨present, beyond, closest⟩ := nearest
    refine ⟨by rw [under_apply_append, isChild, present], ?_, ?_⟩
    · rw [beyond_append, beyond_cons, if_pos rfl]
      exact beyond
    intro other otherValue isPresent
    obtain ⟨otherSide, key, rfl, inBranch⟩ := exists_side isPresent
    have otherOrder : (if label = [] then !first else !later) = !side := by
      rw [← isSide]
      split <;> rfl
    rw [beyond_append, isSide, beyond_cons, precedes_append, otherOrder, precedes_cons]
    by_cases same : otherSide = bit
    · subst same
      rw [if_pos rfl, if_pos rfl]
      intro isBeyond
      exact (closest key otherValue ((isChild key).symm.trans inBranch) isBeyond).imp (fun same => by rw [same]) id
    · rw [if_neg same, if_neg (Ne.symm same)]
      rintro rfl
      exact .inr (by cases bit <;> cases otherSide <;> simp_all)

/-- Nothing was found in the child where the start key goes on, and all keys of its sibling lie on
the side that is searched. -/
private lemma nearest_of_sibling {key : List Bool} (isChild : ∀ key, branch left right (bit :: key) = childMap key)
    (isSibling : ∀ key, branch left right (side :: key) = siblingMap key)
    (nearest : Nearest later later allowEq childMap below (tail, none)) (present : siblingMap key = some value)
    (extreme : ∀ other found, siblingMap other = some found → other = key ∨ Precedes (!later) (!later) key other)
    (isSide : (if label = [] then first else later) = side) (differ : bit ≠ side) :
    Nearest first later allowEq (.under label (.branch left right)) (label ++ bit :: below)
      (label ++ side :: key, some value) := by
  refine ⟨by rw [under_apply_append, isSibling, present], ?_, ?_⟩
  · rw [beyond_append, isSide, beyond_cons, if_neg (Ne.symm differ)]
  intro other otherValue isPresent isBeyond
  obtain ⟨otherSide, otherKey, rfl, inBranch⟩ := exists_side isPresent
  rw [beyond_append, isSide, beyond_cons] at isBeyond
  by_cases same : otherSide = bit
  · subst same
    rw [if_pos rfl] at isBeyond
    exact absurd isBeyond (nearest otherKey otherValue ((isChild otherKey).symm.trans inBranch))
  · rw [if_neg same] at isBeyond
    subst isBeyond
    rw [precedes_append, precedes_cons, if_pos rfl]
    exact (extreme otherKey otherValue ((isSibling otherKey).symm.trans inBranch)).imp (fun same => by rw [same]) id

end Fork

private lemma nearest_leaf (label : List Bool) (value : CellSlice) :
    Nearest first later allowEq (.under label (.point value)) label (label, if allowEq then some value else none) := by
  have only : ∀ other found, under label (.point value) other = some found → other = label := by
    intro other found isPresent
    obtain ⟨tail, rfl, inPoint⟩ := exists_of_under isPresent
    cases tail with
    | nil => exact append_nil label
    | cons bit tail => cases inPoint
  cases allowEq with
  | true => exact ⟨by simp, .inr ⟨rfl, rfl⟩, fun other found isPresent _ => .inl (only other found isPresent)⟩
  | false =>
    intro other found isPresent isBeyond
    obtain rfl := only other found isPresent
    have atEnd := (beyond_append first later false other [] []).mp (by simpa using isBeyond)
    rcases atEnd with ⟨common, diff, tail, _, isNil, _⟩ | ⟨notAllowed, _⟩
    · simp at isNil
    · cases notAllowed

lemma dictLookupNearest_spec {mode : BitVec 32} (node : Node labels n cell map)
    (bits : ModeBits mode first later) {start : List Bool} (length : start.length = n) :
    ∃ result, dictLookupNearest (some cell) start n allowEq mode = .ok result ∧ Nearest first later allowEq map start result := by
  induction n using Nat.strongRecOn generalizing cell map mode first start with
  | _ n ih =>
    obtain ⟨key, value, minmax, present, extreme⟩ := dictLookupMinmax_precedes node bits.not
    obtain ⟨parser, label, rest, inner, m, parsed, reads, payload, split, rfl⟩ := node.parse
    rw [dictLookupNearest.eq_def]
    simp only [parsed, ok_bind, reads.length, reads.commonPrefixLen_eq, take_of_length_le (Nat.le_of_eq length)]
    rcases commonPrefix_cases label start (by omega) with
      ⟨below, rfl, onLabel⟩ | ⟨common, bit, labelRest, startRest, rfl, rfl, leaves⟩
    · rw [onLabel, ensure_eq (by omega), ok_bind, if_neg (by omega)]
      rw [length_append] at length
      have next := bits.after label
      cases payload with
      | leaf leafValue =>
        obtain rfl : below = [] := eq_nil_of_length_eq_zero (by omega)
        rw [dif_neg (by omega), reads.payload_eq, append_nil]
        exact ⟨_, rfl, nearest_leaf label rest⟩
      | @fork m c1 c2 left right leftNode rightNode =>
        cases below with
        | nil => simp at length; omega
        | cons bit below =>
          have descend : n - label.length - 1 = m := by omega
          have belowLength : below.length = m := by
            rw [length_cons] at length
            omega
          obtain ⟨child, childMap, isChild, childNode, inChild⟩ := exists_child leftNode rightNode bit
          obtain ⟨⟨tail, found⟩, searched, nearest⟩ := ih m (by omega) childNode next.shift belowLength
          rw [dif_pos (by omega)]
          simp only [descend, getD_after, drop_after, reads.prefetchRef_eq, isChild, searched, ok_bind, take_left, next.first]
          generalize isSide : (if label = [] then first else later) = side
          by_cases isOver : found.isSome ∨ bit = side
          · rw [if_pos isOver]
            exact ⟨_, rfl, nearest_of_child inChild nearest isSide isOver⟩
          rw [if_neg isOver]
          rw [not_or] at isOver
          obtain rfl : found = none := by simpa using isOver.1
          obtain ⟨sibling, siblingMap, isSibling, siblingNode, inSibling⟩ := exists_child leftNode rightNode side
          obtain ⟨siblingKey, siblingValue, searchedSibling, inMap, isExtreme⟩ :=
            dictLookupMinmax_precedes siblingNode next.not.shift
          rw [isSibling, searchedSibling]
          refine ⟨_, rfl, ?_⟩
          rw [minmaxBuffer, append_assoc, singleton_append]
          exact nearest_of_sibling inChild inSibling nearest inMap isExtreme isSide isOver.2
    · have shorter : common.length < (common ++ bit :: labelRest).length := by simp
      rw [leaves, ensure_eq (by omega), ok_bind, if_pos shorter, (bits.after common).first, getD_after]
      generalize isSide : (if common = [] then first else later) = side
      by_cases isOther : (!bit) = side
      · rw [if_pos isOther]
        refine ⟨_, rfl, ?_⟩
        intro other found isPresent
        rw [nearest_apart isPresent, isSide, ← isOther]
        cases bit <;> decide
      · rw [if_neg isOther, minmax]
        refine ⟨_, rfl, present, ?_, fun other found isPresent _ => extreme other found isPresent⟩
        show Beyond _ _ _ _ key
        rw [nearest_apart present, isSide]
        cases bit <;> cases side <;> simp_all

lemma precedes_total (first later : Bool) {key other : List Bool} (length : key.length = other.length) :
    key = other ∨ Precedes first later key other ∨ Precedes (!first) (!later) key other := by
  induction key generalizing first other with
  | nil => exact .inl (eq_nil_of_length_eq_zero length.symm).symm
  | cons bit key ih =>
    cases other with
    | nil => cases length
    | cons otherBit other =>
      rw [precedes_cons, precedes_cons]
      by_cases same : bit = otherBit
      · subst same
        rw [if_pos rfl, if_pos rfl]
        exact (ih later (by simpa using length)).imp (fun same => by rw [same]) id
      · rw [if_neg same, if_neg same]
        cases bit <;> cases first <;> simp

/-- The key is greater than `start`, smaller if the search goes back, or equal if allowed. -/
def OnSide (fetchNext allowEq signed : Bool) (start key : List Bool) : Prop :=
  (if fetchNext then keyValue signed start < keyValue signed key
    else keyValue signed key < keyValue signed start) ∨ allowEq = true ∧ key = start

private lemma not_xor (fetchNext signed : Bool) : (!(fetchNext ^^ signed)) = ((!fetchNext) ^^ signed) := by
  cases fetchNext <;> cases signed <;> rfl

lemma beyond_iff_onSide {fetchNext signed : Bool} (length : key.length = start.length) :
    Beyond (fetchNext ^^ signed) fetchNext allowEq start key ↔ OnSide fetchNext allowEq signed start key := by
  refine or_congr ⟨fun precedes => precedes.keyValue_lt length, ?_⟩ Iff.rfl
  intro less
  rcases precedes_total (fetchNext ^^ signed) fetchNext length with rfl | precedes | opposite
  · simp at less
  · exact precedes
  · rw [not_xor] at opposite
    have greater := opposite.keyValue_lt length
    cases fetchNext with
    | false | true => exact absurd less (Int.lt_asymm (by simpa using greater))

namespace Dictionary

variable {dict : Dictionary}

/-- The nearest key is found if there is any, with its value; so is the extreme key. -/
theorem ordered_lookups_exact (denotes : dict.Denotes .any n map) (bound : n ≤ 1023) :
    (∀ (start : List Bool) (fetchNext allowEq signed : Bool), start.length = n →
      ∃ buffer found,
        dict.lookupNearestKey start fetchNext allowEq signed = .ok (buffer, found) ∧
        (found = none ↔ ∀ key value, map key = some value → ¬OnSide fetchNext allowEq signed start key) ∧
        ∀ value, found = some value →
          map buffer = some value ∧
          OnSide fetchNext allowEq signed start buffer ∧
          ∀ other otherValue, map other = some otherValue → OnSide fetchNext allowEq signed start other →
            if fetchNext then keyValue signed buffer ≤ keyValue signed other
            else keyValue signed other ≤ keyValue signed buffer) ∧
    ∀ fetchMax signed : Bool, ∃ found,
      dict.getMinmaxKey n fetchMax signed = .ok found ∧
      (found = none ↔ map = .empty) ∧
      ∀ key value, found = some (key, value) → map key = some value ∧ IsExtreme fetchMax signed map key := by
  obtain ⟨rfl, root⟩ := denotes
  have valid : dict.forceValidate = .ok () := ensure_eq bound _
  constructor
  · intro start fetchNext allowEq signed length
    rw [lookupNearestKey, valid, ok_bind, if_neg (not_not.mpr length), length]
    cases isRoot : dict.rootCell with
    | none =>
      rw [isRoot] at root
      obtain rfl : map = .empty := root
      refine ⟨start, none, by rw [dictLookupNearest.eq_def], ?_, fun _ isSome => nomatch isSome⟩
      exact ⟨fun _ _ _ present => (nomatch present), fun _ => rfl⟩
    | some cell =>
      rw [isRoot] at root
      have node : Node .any dict.keyBits cell map := root
      obtain ⟨⟨buffer, found⟩, searched, nearest⟩ :=
        @dictLookupNearest_spec _ _ _ allowEq _ _ _ _ node (minmaxMode_bits fetchNext signed) _
          length
      have sides : ∀ {key : List Bool} {value : CellSlice}, map key = some value →
          (Beyond (fetchNext ^^ signed) fetchNext allowEq start key ↔ OnSide fetchNext allowEq signed start key) :=
        fun present => beyond_iff_onSide ((node.key_length present).trans length.symm)
      refine ⟨buffer, found, searched, ?_, ?_⟩
      · cases found with
        | none =>
          refine ⟨fun _ key value present isOn => ?_, fun _ => rfl⟩
          exact nearest key value present ((sides present).mpr isOn)
        | some value =>
          refine ⟨fun isNone => (nomatch isNone), fun nothing => ?_⟩
          exact absurd ((sides nearest.1).mp nearest.2.1) (nothing buffer value nearest.1)
      · rintro value rfl
        obtain ⟨present, beyond, closest⟩ := nearest
        refine ⟨present, (sides present).mp beyond, ?_⟩
        intro other otherValue otherPresent isOn
        rcases closest other otherValue otherPresent ((sides otherPresent).mpr isOn) with
          rfl | precedes
        · simp
        · rw [not_xor] at precedes
          have less := precedes.keyValue_lt ((node.key_length present).trans (node.key_length otherPresent).symm)
          cases fetchNext with
          | false | true => exact Int.le_of_lt (by simpa using less)
  · intro fetchMax signed
    rw [getMinmaxKey, valid, ok_bind, if_neg (not_not.mpr rfl)]
    cases isRoot : dict.rootCell with
    | none =>
      rw [isRoot] at root
      obtain rfl : map = .empty := root
      exact ⟨none, rfl, ⟨fun _ => rfl, fun _ => rfl⟩, fun _ _ isSome => nomatch isSome⟩
    | some cell =>
      rw [isRoot] at root
      obtain ⟨key, value, found, present, extreme⟩ := dictLookupMinmax_eq root fetchMax signed
      refine ⟨_, found, ⟨fun isNone => (nomatch isNone), fun isEmpty => ?_⟩, ?_⟩
      · rw [isEmpty] at present
        cases present
      · rintro otherKey otherValue same
        obtain ⟨rfl, rfl⟩ := Prod.mk.inj (Option.some.inj same)
        exact ⟨present, extreme⟩

/-- Three keys, two of them below one fork. -/
def nearestKeys : Except Thrown Dictionary := do
  let first ← (new 2).set [false, true] ⟨[false], []⟩ .set
  let second ← first.2.set [true, true] ⟨[true, true], []⟩ .set
  let third ← second.2.set [true, false] ⟨[true], []⟩ .set
  return third.2

def nearestMap : BitMap CellSlice :=
  assign (assign (assign .empty [false, true] ⟨[false], []⟩ .set) [true, true] ⟨[true, true], []⟩ .set)
    [true, false] ⟨[true], []⟩ .set

lemma nearestKeys_denotes : ∃ dict, nearestKeys = .ok dict ∧ dict.Denotes .any 2 nearestMap := by
  have succeeded : nearestKeys.isOk = true := by decide +kernel
  cases stored : nearestKeys with
  | error thrown =>
    rw [stored] at succeeded
    cases succeeded
  | ok dict =>
    refine ⟨dict, rfl, ?_⟩
    obtain ⟨first, setFirst, rest⟩ := bind_eq_ok.mp stored
    obtain ⟨second, setSecond, rest⟩ := bind_eq_ok.mp rest
    obtain ⟨third, setThird, same⟩ := bind_eq_ok.mp rest
    cases same
    have empty : (new 2).Denotes .any 2 .empty := Denotes.new 2
    have firstDenotes := ((setGen_yields empty (by decide) rfl (.ofSlice ⟨[false], []⟩) .set).of_ok setFirst).2.1
    have secondDenotes := ((setGen_yields firstDenotes (by decide) rfl (.ofSlice ⟨[true, true], []⟩) .set).of_ok setSecond).2.1
    exact ((setGen_yields secondDenotes (by decide) rfl (.ofSlice ⟨[true], []⟩) .set).of_ok setThird).2.1

lemma nearestMap_keys {key : List Bool} {value : CellSlice} (present : nearestMap key = some value) :
    key = [false, true] ∨ key = [true, true] ∨ key = [true, false] := by
  by_contra others
  push Not at others
  obtain ⟨notFirst, notSecond, notThird⟩ := others
  have always : ∀ (map : BitMap CellSlice) key value, assign map key value .set = Function.update map key (some value) :=
    fun _ _ _ => rfl
  rw [nearestMap, always, always, always] at present
  rw [Function.update_of_ne notThird, Function.update_of_ne notSecond, Function.update_of_ne notFirst] at present
  cases present

/-- The key after 01 is 10, over the fork, and 10 is also the lowest of the signed keys. -/
theorem ordered_lookups_exact_threeKeys : ∃ dict, nearestKeys = .ok dict ∧
    (∃ value, dict.lookupNearestKey [false, true] true false false = .ok ([true, false], some value)) ∧
    (∃ value, dict.getMinmaxKey 2 false true = .ok (some ([true, false], value))) ∧
    ∃ buffer, dict.lookupNearestKey [true, true] true false false = .ok (buffer, none) := by
  obtain ⟨dict, stored, denotes⟩ := nearestKeys_denotes
  obtain ⟨nearest, extreme⟩ := ordered_lookups_exact denotes (by decide)
  refine ⟨dict, stored, ?_, ?_, ?_⟩
  · obtain ⟨buffer, found, searched, none_iff, least⟩ := nearest [false, true] true false false rfl
    cases found with
    | none =>
      have nothing := none_iff.mp rfl [true, false] ⟨[true], []⟩ rfl
      exact absurd (.inl (by decide)) nothing
    | some value =>
      obtain ⟨present, isNext, below⟩ := least value rfl
      have atMost := below [true, false] ⟨[true], []⟩ rfl (.inl (by decide))
      have key : buffer = [true, false] := by
        rcases nearestMap_keys present with rfl | rfl | rfl
        · exact absurd isNext (by simp [OnSide])
        · exact absurd atMost (by decide)
        · rfl
      exact ⟨value, key ▸ searched⟩
  · obtain ⟨found, searched, none_iff, isExtreme⟩ := extreme false true
    cases found with
    | none =>
      have empty := congrFun (none_iff.mp rfl) [true, false]
      cases empty
    | some entry =>
      obtain ⟨present, least⟩ := isExtreme entry.1 entry.2 rfl
      have atMost := least [true, false] ⟨[true], []⟩ rfl
      have key : entry.1 = [true, false] := by
        rcases nearestMap_keys present with same | same | same
        · rw [same] at atMost
          exact absurd atMost (by decide)
        · rw [same] at atMost
          exact absurd atMost (by decide)
        · exact same
      exact ⟨entry.2, key ▸ searched⟩
  · obtain ⟨buffer, found, searched, none_iff, _⟩ := nearest [true, true] true false false rfl
    have nothing : found = none := by
      refine none_iff.mpr fun key value present => ?_
      rcases nearestMap_keys present with rfl | rfl | rfl <;> simp [OnSide, keyValue, bitsValue]
    exact ⟨buffer, nothing ▸ searched⟩

end Dictionary

end TonNode.Vm
