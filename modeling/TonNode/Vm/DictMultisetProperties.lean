import TonNode.Vm.DictBulkProperties

/-!
# Storing several keys at once

The keys are sorted, so those below one side of a fork stand next to each other.
-/

namespace TonNode.Vm

open Lib List BitMap CellBuilder

variable {labels : Labelling} {first : NewValue} {rest : List NewValue}

private lemma append_lt_append_iff (common left right : List Bool) : common ++ left < common ++ right ↔ left < right := by
  induction common with
  | nil => rfl
  | cons bit common ih => simp [cons_append, ih]

private lemma exists_append_of_between {common low high between : List Bool}
    (above : ¬ between < common ++ low) (below : ¬ common ++ high < between) : ∃ rest, between = common ++ rest := by
  induction common generalizing between with
  | nil => exact ⟨between, rfl⟩
  | cons bit common ih =>
    cases between with
    | nil => exact absurd (nil_lt_cons _ _) above
    | cons other between =>
      rw [cons_append, cons_lt_cons_iff, not_or] at above below
      have same : other = bit := le_antisymm (not_lt.mp below.1) (not_lt.mp above.1)
      subst same
      obtain ⟨rest, rfl⟩ := ih (fun less => above.2 ⟨rfl, less⟩) (fun less => below.2 ⟨rfl, less⟩)
      exact ⟨rest, rfl⟩

/-- New values for different keys of `total` bits that start with `above`, in order. -/
structure Sorted (total : Nat) (above : List Bool) (values : List NewValue) : Prop where
  keys : ∀ value ∈ values, ∃ below, value.1 = above ++ below
  lengths : ∀ value ∈ values, value.1.length = total
  ordered : values.Pairwise fun first second => first.1 < second.1

namespace Sorted

variable {total : Nat} {above : List Bool} {values : List NewValue} {pos : Nat}

lemma sublist {fewer : List NewValue} (sorted : Sorted total above values)
    (part : fewer.Sublist values) : Sorted total above fewer where
  keys value member := sorted.keys value (part.subset member)
  lengths value member := sorted.lengths value (part.subset member)
  ordered := sorted.ordered.sublist part

lemma shorter {more : List Bool} (sorted : Sorted total (above ++ more) values) : Sorted total above values where
  keys value member := by
    obtain ⟨below, same⟩ := sorted.keys value member
    exact ⟨more ++ below, by rw [same, append_assoc]⟩
  lengths := sorted.lengths
  ordered := sorted.ordered

lemma toBit {shared more : List Bool} {bit : Bool} (sorted : Sorted total (above ++ (shared ++ bit :: more)) values) :
    Sorted total (above ++ shared ++ [bit]) values := by
  have longer : above ++ (shared ++ bit :: more) = above ++ shared ++ [bit] ++ more := by simp
  rw [longer] at sorted
  exact sorted.shorter

/-- Several values part at the end of the common prefix of the first and the last key. -/
lemma exists_common (sorted : Sorted total above (first :: rest)) (several : rest ≠ []) :
    ∃ common low high, valuesPrefixLen first rest above.length = common.length ∧ first.1 = above ++ (common ++ false :: low) ∧
      (∃ last ∈ first :: rest, last.1 = above ++ (common ++ true :: high)) ∧ Sorted total (above ++ common) (first :: rest) := by
  obtain rfl | ⟨init, last, rfl⟩ := rest.eq_nil_or_concat'
  · exact absurd rfl several
  have inAll : last ∈ first :: (init ++ [last]) := by simp
  have getLast : (first :: (init ++ [last])).getLastD first = last := by
    rw [getLastD_cons, getLastD_concat]
  obtain ⟨firstBelow, isFirst⟩ := sorted.keys first mem_cons_self
  obtain ⟨lastBelow, lastIs⟩ := sorted.keys last inAll
  have ordered : ((first :: init) ++ [last]).Pairwise fun first second => first.1 < second.1 := sorted.ordered
  have beforeLast : ∀ value ∈ first :: init, value.1 < last.1 :=
    fun value member => (pairwise_append.mp ordered).2.2 value member last (by simp)
  have less := beforeLast first mem_cons_self
  have lengths : first.1.length = last.1.length := by
    rw [sorted.lengths first mem_cons_self, sorted.lengths last inAll]
  rw [isFirst, lastIs, append_lt_append_iff] at less
  rw [isFirst, lastIs, length_append, length_append] at lengths
  obtain ⟨common, low, high, rfl, rfl, length, apart⟩ := commonPrefix_split firstBelow lastBelow
  rw [append_lt_append_iff] at less
  rw [length_append, length_append] at lengths
  have parts : ∃ lowRest highRest, low = false :: lowRest ∧ high = true :: highRest := by
    cases low with
    | nil =>
      cases high with
      | nil => exact absurd less (List.lt_irrefl _)
      | cons bit high => simp at lengths
    | cons lowBit low =>
      cases high with
      | nil => simp at lengths
      | cons highBit high =>
        have differ := apart lowBit highBit low high rfl rfl
        rw [cons_lt_cons_iff] at less
        rcases less with bits | ⟨same, _⟩
        · obtain ⟨rfl, rfl⟩ := Bool.lt_iff.mp bits
          exact ⟨low, high, rfl, rfl⟩
        · exact absurd same differ
  obtain ⟨lowRest, highRest, rfl, rfl⟩ := parts
  refine ⟨common, lowRest, highRest, ?_, isFirst, ⟨last, inAll, lastIs⟩, ?_⟩
  · rw [valuesPrefixLen, getLast, isFirst, lastIs, drop_left, drop_left, length]
  refine ⟨fun value member => ?_, sorted.lengths, sorted.ordered⟩
  -- every key lies between the first and the last one
  have fromFirst : ¬ value.1 < first.1 := by
    rcases mem_cons.mp member with rfl | later
    · exact List.lt_irrefl _
    · exact List.lt_asymm ((List.pairwise_cons.mp sorted.ordered).1 value later)
  have toLast : ¬ last.1 < value.1 := by
    rcases mem_append.mp (show value ∈ (first :: init) ++ [last] from member) with
      earlier | isLast
    · exact List.lt_asymm (beforeLast value earlier)
    · rw [mem_singleton.mp isLast]
      exact List.lt_irrefl _
  rw [isFirst, ← append_assoc] at fromFirst
  rw [lastIs, ← append_assoc] at toLast
  exact exists_append_of_between fromFirst toLast

section

variable (sorted : Sorted total above values) (short : above.length < total)
include sorted short

private lemma exists_key_bit {value : NewValue} (member : value ∈ values) :
    ∃ bit below, value.1 = above ++ bit :: below ∧ value.1.getD above.length false = bit := by
  obtain ⟨below, same⟩ := sorted.keys value member
  have length := sorted.lengths value member
  cases below with
  | nil =>
    rw [same, append_nil] at length
    omega
  | cons bit below => exact ⟨bit, below, same, by rw [same]; simp⟩

lemma left : Sorted total (above ++ [false]) (valuesLeft values above.length) := by
  have part : (valuesLeft values above.length).Sublist values := takeWhile_sublist _
  have kept := sorted.sublist part
  refine ⟨fun value member => ?_, kept.lengths, kept.ordered⟩
  obtain ⟨bit, below, same, isBit⟩ := sorted.exists_key_bit short (part.subset member)
  have zero := mem_takeWhile_imp (p := fun value : NewValue =>
    !value.1.getD above.length false) member
  obtain rfl : bit = false := by rw [isBit] at zero; simpa using zero
  exact ⟨below, by rw [same]; simp⟩

lemma right : Sorted total (above ++ [true]) (valuesRight values above.length) := by
  have part : (valuesRight values above.length).Sublist values := dropWhile_sublist _
  have kept := sorted.sublist part
  refine ⟨fun value member => ?_, kept.lengths, kept.ordered⟩
  obtain ⟨bit, below, same, isBit⟩ := sorted.exists_key_bit short (part.subset member)
  suffices isTrue : bit = true by
    subst isTrue
    exact ⟨below, by rw [same]; simp⟩
  cases isRight : valuesRight values above.length with
  | nil =>
    rw [isRight] at member
    cases member
  | cons head tail =>
    have one : (!head.1.getD above.length false) = false := by
      have nonempty : valuesRight values above.length ≠ [] := by simp [isRight]
      have stopped := head_dropWhile_not (fun value : NewValue => !value.1.getD above.length false) nonempty
      simp only [valuesRight] at isRight
      simpa only [isRight, head_cons] using stopped
    have headMember : head ∈ values := part.subset (by rw [isRight]; simp)
    obtain ⟨headBit, headBelow, headSame, isHeadBit⟩ := sorted.exists_key_bit short headMember
    obtain rfl : headBit = true := by rw [isHeadBit] at one; simpa using one
    rw [isRight] at member
    rcases mem_cons.mp member with rfl | later
    · rw [← isBit, isHeadBit]
    have less : head.1 < value.1 := by
      have ordered := kept.ordered
      rw [isRight] at ordered
      exact (pairwise_cons.mp ordered).1 value later
    rw [headSame, same, append_lt_append_iff, cons_lt_cons_iff] at less
    rcases less with bits | ⟨bits, _⟩
    · exact (Bool.lt_iff.mp bits).2
    · exact bits.symm

end

lemma left_ne_nil (zero : first.1.getD pos false = false) : valuesLeft (first :: rest) pos ≠ [] := by
  simp only [valuesLeft, takeWhile_cons, zero, Bool.not_false, ↓reduceIte]
  exact cons_ne_nil _ _

lemma right_ne_nil {last : NewValue} (member : last ∈ values)
    (one : last.1.getD pos false = true) : valuesRight values pos ≠ [] := by
  intro isNil
  have all := dropWhile_eq_nil_iff.mp isNil last member
  simp only [one, Bool.not_true, Bool.false_eq_true] at all

lemma sides_ne_nil (bit : Bool) (leftSome : valuesLeft values pos ≠ []) (rightSome : valuesRight values pos ≠ []) :
    (if bit then valuesRight values pos else valuesLeft values pos) ≠ [] ∧
      (if bit then valuesLeft values pos else valuesRight values pos) ≠ [] := by
  cases bit with
  | false => exact ⟨leftSome, rightSome⟩
  | true => exact ⟨rightSome, leftSome⟩

end Sorted

/-- The new values of the keys below `above`; a key that is removed has the value `none`. -/
def changesBelow (values : List NewValue) (above : List Bool) : BitMap (Option CellSlice) :=
  fun key => (values.find? fun value => value.1 = above ++ key).map fun value =>
    value.2.map asSlice

namespace Sorted

variable {total : Nat} {above : List Bool} {values : List NewValue}

private lemma find_none (sorted : Sorted total above values) {key : List Bool}
    (apart : ¬above <+: key) : values.find? (fun value => value.1 = key) = none := by
  rw [find?_eq_none]
  intro value member same
  obtain ⟨below, isKey⟩ := sorted.keys value member
  exact apart ⟨below, by rw [← isKey]; simpa using same⟩

lemma changesBelow_under {common : List Bool} (sorted : Sorted total (above ++ common) values) :
    changesBelow values above = .under common (changesBelow values (above ++ common)) := by
  funext key
  by_cases continues : common <+: key
  · obtain ⟨rest, rfl⟩ := continues
    rw [under_apply_append, changesBelow, changesBelow, append_assoc]
  · rw [under_eq_none continues, changesBelow, sorted.find_none (by rwa [prefix_append_right_inj])]
    rfl

lemma changesBelow_oneSide {shared : List Bool} {bit : Bool} (sorted : Sorted total (above ++ shared ++ [bit]) values) :
    changesBelow values above = .under shared (.fork bit (changesBelow values (above ++ shared ++ [bit])) .empty) := by
  rw [append_assoc] at sorted ⊢
  rw [sorted.changesBelow_under, under_eq_fork, under_nil]

section

variable (sorted : Sorted total above values)
include sorted

section

variable (short : above.length < total)
include short

lemma changesBelow_branch : changesBelow values above =
      .branch (changesBelow (valuesLeft values above.length) (above ++ [false]))
        (changesBelow (valuesRight values above.length) (above ++ [true])) := by
  have parts : values = valuesLeft values above.length ++ valuesRight values above.length := (takeWhile_append_dropWhile).symm
  have apart : ∀ (bit : Bool) (key : List Bool), ¬(above ++ [bit]) <+: above ++ (!bit) :: key := by
    intro bit key
    rw [prefix_append_right_inj]
    cases bit <;> simp
  funext key
  cases key with
  | nil =>
    have none : values.find? (fun value => value.1 = above ++ []) = Option.none := by
      rw [find?_eq_none]
      intro value member same
      have length := sorted.lengths value member
      rw [of_decide_eq_true same, append_nil] at length
      omega
    rw [changesBelow, none]
    rfl
  | cons bit key =>
    rw [changesBelow, parts, find?_append, branch_cons, ← parts]
    cases bit with
    | false =>
      have missing := (sorted.right short).find_none (apart true key)
      rw [Bool.not_true] at missing
      simp [changesBelow, missing]
    | true =>
      have missing := (sorted.left short).find_none (apart false key)
      rw [Bool.not_false] at missing
      simp [changesBelow, missing]

lemma side (bit : Bool) : Sorted total (above ++ [bit])
      (if bit then valuesRight values above.length else valuesLeft values above.length) := by
  cases bit with
  | false => exact sorted.left short
  | true => exact sorted.right short

lemma otherSide (bit : Bool) : Sorted total (above ++ [!bit])
      (if bit then valuesLeft values above.length else valuesRight values above.length) := by
  cases bit with
  | false => exact sorted.right short
  | true => exact sorted.left short

lemma changesBelow_fork (bit : Bool) : changesBelow values above = .fork bit (changesBelow
        (if bit then valuesRight values above.length else valuesLeft values above.length) (above ++ [bit])) (changesBelow
        (if bit then valuesLeft values above.length else valuesRight values above.length) (above ++ [!bit])) := by
  rw [sorted.changesBelow_branch short, branch_eq_fork bit]
  cases bit with
  | false => rfl
  | true => rfl

end

lemma exists_change (nonempty : values ≠ []) : ∃ key change, changesBelow values above key = some change := by
  cases values with
  | nil => exact absurd rfl nonempty
  | cons first rest =>
    obtain ⟨below, isKey⟩ := sorted.keys first mem_cons_self
    exact ⟨below, first.2.map asSlice, by simp [changesBelow, isKey]⟩

end

end Sorted

lemma changesBelow_single (value : NewValue) : changesBelow [value] value.1 = .point (value.2.map asSlice) := by
  funext key
  cases key with
  | nil => simp [changesBelow]
  | cons bit key => simp [changesBelow]

variable {n m total : Nat} {label above : List Bool} {map : BitMap CellSlice} {ownMap otherMap : BitMap CellSlice} {cell : Cell}
variable {keyBuffer : List Bool} {dict : Option Cell} {parser : LabelParser} {inner : BitMap CellSlice}

lemma joinSides_yields {one two : Option Cell} {own other : BitMap CellSlice} (bit : Bool)
    (tail : List Bool) (ownRoot : Root labels m one own) (otherRoot : Root labels m two other)
    (length : n = label.length + (m + 1)) (bound : n ≤ 1023) :
    Yields (joinChildren finishCreateFork (label ++ tail) label.length n (if bit then two else one) (if bit then one else two))
      (fun root => Root labels n root (.under label (.fork bit own other))) := by
  have forkYields : ∀ {left right : BitMap CellSlice} (c1 c2 : Cell), Node labels m c1 left → Node labels m c2 right →
      Yields (finishCreateFork (label ++ tail) label.length n (some c1) (some c2))
        (fun cell => Node labels n cell (.under label (.branch left right))) :=
    fun _ _ left right => finishCreateFork_yields tail left right length bound
  cases bit with
  | false => exact joinChildren_yields forkYields ownRoot otherRoot length bound
  | true => exact joinChildren_yields forkYields otherRoot ownRoot length bound

/-- An entry of the new dictionary is the new one or, if there is none, the old one; a key that is
removed was there. -/
def updated (_ : List Bool) (old : Option CellSlice) (change : Option (Option CellSlice)) (new : Option CellSlice) : Prop :=
  new = change.getD old ∧ (change = some none → old ≠ none)

/-- The dictionary with the changes, or `CombineError` if a key to be removed is missing. -/
def Updates (labels : Labelling) (n : Nat) (map : BitMap CellSlice)
    (changes : BitMap (Option CellSlice)) (result : Except Thrown (Option Cell)) : Prop :=
  Ensures (fun thrown => thrown.IsCellOverflow ∨ thrown = .combineError ∧ ∃ key, changes key = some none ∧ map key = none)
    result (fun root => ∃ new, Root labels n root new ∧ BitMap.Everywhere updated map changes new)

namespace Updates

variable {changes : BitMap (Option CellSlice)}
lemma unchanged {root : Option Cell} (denotes : Root labels n root map) : Updates labels n map .empty (.ok root) :=
  ⟨map, denotes, fun _ => ⟨rfl, fun removed => nomatch removed⟩⟩

lemma of_yields {α : Type} {first : Except Thrown α} {holds : α → Prop}
    {next : α → Except Thrown (Option Cell)} (yields : Yields first holds)
    (nextUpdates : ∀ value, holds value → Updates labels n map changes (next value)) :
    Updates labels n map changes (first >>= next) :=
  (Ensures.weaken yields fun _ overflow => .inl overflow).bind nextUpdates

lemma sides (bit : Bool)
    {ownChanges otherChanges : BitMap (Option CellSlice)}
    {first second : Except Thrown (Option Cell)}
    {join : Option Cell → Option Cell → Except Thrown (Option Cell)}
    (own : Updates labels m ownMap ownChanges first)
    (other : Updates labels m otherMap otherChanges second)
    (joins : ∀ {one two : Option Cell} {ownNew otherNew : BitMap CellSlice},
      Root labels m one ownNew → BitMap.Everywhere updated ownMap ownChanges ownNew →
      Root labels m two otherNew → BitMap.Everywhere updated otherMap otherChanges otherNew → Yields (join one two)
        (fun root => Root labels n root (.under label (.fork bit ownNew otherNew)))) :
    Updates labels n (.under label (.fork bit ownMap otherMap))
      (.under label (.fork bit ownChanges otherChanges)) (do
        let one ← first
        let two ← second
        join one two) := by
  have nothing : ∀ key, updated key none none none := fun _ =>
    ⟨rfl, fun removed => nomatch removed⟩
  refine (Ensures.weaken own ?_).bind ?_
  · rintro thrown (overflow | ⟨isCombine, key, removed, missing⟩)
    · exact .inl overflow
    · exact .inr ⟨isCombine, label ++ bit :: key, by simpa using removed, by simpa using missing⟩
  rintro one ⟨ownNew, ownRoot, ownEntries⟩
  refine (Ensures.weaken other ?_).bind ?_
  · rintro thrown (overflow | ⟨isCombine, key, removed, missing⟩)
    · exact .inl overflow
    · exact .inr ⟨isCombine, label ++ (!bit) :: key, by simpa using removed, by simpa using missing⟩
  · rintro two ⟨otherNew, otherRoot, otherEntries⟩
    have entries : BitMap.Everywhere updated (.under label (.fork bit ownMap otherMap))
        (.under label (.fork bit ownChanges otherChanges)) (.under label (.fork bit ownNew otherNew)) :=
      .under nothing label (.fork bit (nothing _) ownEntries otherEntries)
    exact Ensures.weaken ((joins ownRoot ownEntries otherRoot otherEntries).imp
        fun root denotes => ⟨_, denotes, entries⟩) fun _ overflow => .inl overflow

lemma oneSide (bit : Bool) {ownChanges : BitMap (Option CellSlice)} {first : Except Thrown (Option Cell)}
    {two : Option Cell} {join : Option Cell → Except Thrown (Option Cell)}
    (own : Updates labels m ownMap ownChanges first) (otherRoot : Root labels m two otherMap)
    (joins : ∀ {one : Option Cell} {ownNew : BitMap CellSlice},
      Root labels m one ownNew → BitMap.Everywhere updated ownMap ownChanges ownNew → Yields (join one)
        (fun root => Root labels n root (.under label (.fork bit ownNew otherMap)))) :
    Updates labels n (.under label (.fork bit ownMap otherMap))
      (.under label (.fork bit ownChanges .empty)) (first >>= join) := by
  have kept : Updates labels m otherMap .empty (.ok two) := .unchanged otherRoot
  change Updates labels n _ _ (first >>= fun one => Except.ok two >>= fun _ => join one)
  refine sides bit own kept ?_
  intro one two ownNew otherNew ownRoot ownEntries otherRoot otherEntries
  obtain rfl : otherNew = otherMap := funext fun key => (otherEntries key).1
  exact joins ownRoot ownEntries

end Updates

lemma isSome_of_built {root : Option Cell} {new : BitMap CellSlice}
    {changes : BitMap (Option CellSlice)} (denotes : Root labels n root new)
    (entries : BitMap.Everywhere updated .empty changes new) (some : ∃ key change, changes key = some change) : root.isSome := by
  obtain ⟨key, change, isChange⟩ := some
  obtain ⟨isNew, wasThere⟩ := entries key
  rw [isChange] at isNew wasThere
  cases change with
  | none => exact absurd rfl (wasThere rfl)
  | some value =>
    obtain ⟨cell, rfl, _⟩ := denotes.exists_node isNew
    rfl

lemma dictBuild_updates (labels : Labelling) {values : List NewValue}
    (sorted : Sorted total above values) (bound : total ≤ 1023) :
    Updates labels (total - above.length) .empty (changesBelow values above) (dictBuild values total above.length) := by
  induction distance : total - above.length using Nat.strongRecOn generalizing above values with
  | _ remaining ih =>
    subst distance
    rw [dictBuild.eq_def]
    match values, sorted with
    | [], _ => exact .unchanged rfl
    | [(key, none)], sorted =>
      obtain ⟨below, change, isChange⟩ := sorted.exists_change (by simp)
      refine .inr ⟨rfl, below, ?_, rfl⟩
      rw [isChange]
      simp only [changesBelow, find?_singleton, Option.map_eq_some_iff] at isChange
      obtain ⟨value, found, rfl⟩ := isChange
      rw [Option.ite_none_right_eq_some, Option.some.injEq] at found
      rw [← found.2]
      rfl
    | [(key, some value)], sorted =>
      have length : key.length = total := sorted.lengths (key, some value) (by simp)
      obtain ⟨below, isKey⟩ := sorted.keys (key, some value) (by simp)
      have isKey : key = above ++ below := isKey
      subst isKey
      have alone : Sorted total (above ++ below) [(above ++ below, some value)] :=
        ⟨fun other member => ⟨[], by simp_all⟩, sorted.lengths, sorted.ordered⟩
      rw [length_append] at length
      rw [alone.changesBelow_under, changesBelow_single]
      simp only [drop_left]
      refine .of_yields (createLeaf_yields labels (.ofSlice value.asSlice) (by omega) (by omega)) ?_
      intro cell node
      refine ⟨_, node, ?_⟩
      intro other
      by_cases same : other = below
      · subst same
        simp [updated, StoreValue.ofSlice]
      have outside : ∀ {V : Type} (entry : V),
          under below (.point entry) other = none := by
        intro V entry
        cases found : under below (.point entry) other with
        | none => rfl
        | some value =>
          obtain ⟨rest, rfl, inPoint⟩ := exists_of_under found
          cases rest with
          | nil => exact absurd (append_nil below) same
          | cons bit rest => cases inPoint
      rw [outside, outside]
      exact ⟨rfl, fun removed => nomatch removed⟩
    | first :: second :: rest, sorted =>
      obtain ⟨common, low, high, length, isFirst, ⟨last, inAll, isLast⟩, below⟩ := sorted.exists_common (by simp)
      have firstLength := sorted.lengths first mem_cons_self
      rw [isFirst] at firstLength
      simp only [length_append, length_cons] at firstLength
      have pos : above.length + common.length = (above ++ common).length := by simp
      have short : (above ++ common).length < total := by rw [← pos]; omega
      have next : ∀ bit : Bool, (above ++ common).length + 1 = (above ++ common ++ [bit]).length := by
        intro bit
        simp [Nat.add_assoc]
      have label : first.1.drop above.length = common ++ false :: low := by
        rw [isFirst, drop_left]
      have smaller : total - ((above ++ common).length + 1) < total - above.length := by omega
      have leftBuilt := ih _ smaller (below.left short) (by rw [← next])
      have rightBuilt := ih _ smaller (below.right short) (by rw [← next])
      rw [← next] at leftBuilt rightBuilt
      have leftSome := (below.left short).exists_change (Sorted.left_ne_nil (by rw [isFirst]; simp))
      have rightSome := (below.right short).exists_change (Sorted.right_ne_nil inAll (by rw [isLast]; simp))
      simp only [length]
      rw [dif_pos (by omega), pos, label, below.changesBelow_under,
        below.changesBelow_branch short, branch_eq_fork false,
        show (empty : BitMap CellSlice) = .under common (.fork false .empty .empty) by
          rw [fork, if_neg (by decide), branch_empty, under_empty]]
      refine Updates.sides false leftBuilt rightBuilt ?_
      intro left right leftNew rightNew leftRoot leftEntries rightRoot rightEntries
      obtain ⟨leftCell, rfl⟩ := Option.isSome_iff_exists.mp (isSome_of_built leftRoot leftEntries leftSome)
      obtain ⟨rightCell, rfl⟩ := Option.isSome_iff_exists.mp (isSome_of_built rightRoot rightEntries rightSome)
      exact joinSides_yields false (false :: low) leftRoot rightRoot (by omega) (by omega)

/-- A node whose label starts with `above`; the map is that of the keys of `n` bits after it. -/
def Below (labels : Labelling) (above : List Bool) (n : Nat) (cell : Cell) (map : BitMap CellSlice) : Prop :=
  ∃ parser label rest inner m, Node labels (n + above.length) cell (.under above map) ∧
    LabelParser.ofCell (some cell) (n + above.length) = .ok parser ∧
    parser.Reads (above ++ label) rest ∧ Payload labels m rest inner ∧ n = label.length + m ∧ map = .under label inner

/-- A dictionary of the recursion, whose keys all start with the last `skip` bits of the buffer. -/
def Skipped (labels : Labelling) (keyBuffer : List Bool) (n skip : Nat) :
    Option Cell → BitMap CellSlice → Prop
  | none, map => map = .empty
  | some cell, map => ∃ front above, keyBuffer = front ++ above ∧ above.length = skip ∧
      Below labels above n cell map

lemma Skipped.root (skipped : Skipped labels keyBuffer n 0 dict map) : Root labels n dict map := by
  cases dict with
  | none => exact skipped
  | some cell =>
    obtain ⟨front, above, _, isEmpty, _, _, _, _, _, node, _⟩ := skipped
    obtain rfl : above = [] := eq_nil_of_length_eq_zero isEmpty
    exact node

lemma Root.skipped (denotes : Root labels n dict map) (keyBuffer : List Bool) : Skipped labels keyBuffer n 0 dict map := by
  cases dict with
  | none => exact denotes
  | some cell =>
    obtain ⟨parser, label, rest, inner, m, parse⟩ := Node.parse denotes
    exact ⟨keyBuffer, [], by simp, rfl, parser, label, rest, inner, m, denotes, parse⟩

lemma sideRoot {c1 c2 : Cell} {left right : BitMap CellSlice} (leftNode : Node labels m c1 left)
    (rightNode : Node labels m c2 right) (bit : Bool) :
    Root labels m (if bit then some c2 else some c1) (if bit then right else left) := by
  cases bit with
  | false => exact leftNode
  | true => exact rightNode

lemma sideRoot_isSome (bit : Bool) (c1 c2 : Cell) : (if bit then some c1 else some c2).isSome = true := by
  cases bit <;> rfl

lemma joinChild_yields {c1 c2 : Cell} {own : Option Cell} {left right : BitMap CellSlice} (bit : Bool) (tail : List Bool)
    (ownRoot : Root labels m own ownMap) (leftNode : Node labels m c1 left) (rightNode : Node labels m c2 right)
    (length : n = label.length + (m + 1)) (bound : n ≤ 1023) :
    Yields (joinChildren finishCreateFork (label ++ tail) label.length n
        (if bit then some c1 else own) (if bit then own else some c2))
      (fun root => Root labels n root (.under label (.fork bit ownMap (if bit then left else right)))) := by
  have joined := joinSides_yields bit tail ownRoot (sideRoot rightNode leftNode bit) length bound
  cases bit with
  | false => exact joined
  | true => exact joined

lemma forkBySide_yields (tail : List Bool) {own other : Cell}
    (bit : Bool) (ownNode : Node labels m own ownMap) (otherNode : Node labels m other otherMap)
    (length : n = label.length + (m + 1)) (bound : n ≤ 1023) :
    Yields (do
        let cell ← forkBySide bit (label ++ tail) label.length n (some other) (some own)
        return some cell)
      (fun root => Root labels n root (.under label (.fork bit ownMap otherMap))) := by
  have ownRoot : Root labels m (some own) ownMap := ownNode
  have otherRoot : Root labels m (some other) otherMap := otherNode
  have joined := joinSides_yields bit tail ownRoot otherRoot length bound
  cases bit with
  | false => exact joined
  | true => exact joined

private lemma Sorted.exists_first (sorted : Sorted total above (first :: rest)) :
    ∃ common tail, valuesPrefixLen first rest above.length = common.length ∧
      first.1 = above ++ (common ++ tail) ∧ Sorted total (above ++ common) (first :: rest) ∧ (rest = [] ∧ tail = [] ∨
        (∃ low, tail = false :: low) ∧ ∃ last ∈ first :: rest, ∃ high, last.1 = above ++ (common ++ true :: high)) := by
  by_cases several : rest = []
  · subst several
    obtain ⟨below, isFirst⟩ := sorted.keys first mem_cons_self
    refine ⟨below, [], ?_, by simpa using isFirst, ⟨?_, sorted.lengths, sorted.ordered⟩, .inl ⟨rfl, rfl⟩⟩
    · rw [valuesPrefixLen, getLastD_cons, getLastD_nil, commonPrefixLen_self, isFirst, drop_left]
    · intro value member
      obtain rfl : value = first := by simpa using member
      exact ⟨[], by rw [isFirst]; simp⟩
  · obtain ⟨common, low, high, length, isFirst, ⟨last, inAll, isLast⟩, below⟩ := sorted.exists_common several
    exact ⟨common, false :: low, length, isFirst, below, .inr ⟨⟨low, rfl⟩, last, inAll, high, isLast⟩⟩

lemma pruneLabel_yields {labelRest : List Bool} {rest : CellSlice} (message : String) (reads : parser.Reads label rest)
    (payload : Payload labels m rest inner) (length : n = labelRest.length + m) (bound : n ≤ 1023) :
    Yields (pruneLabel parser labelRest n message) (fun cell => Node labels n cell (.under labelRest inner)) := by
  have stored := appendDictLabel_yields .new [] (show labelRest.length ≤ n by omega) bound
  rw [append_nil] at stored
  refine stored.bind_eq ?_
  refine (orThrow_addSlice_yields _ parser.payload (by trivial)).bind_eq ?_
  refine (finalize_yields _).imp ?_
  intro cell created
  subst created
  rw [reads.payload_eq]
  simpa [append, new] using payload.node (labels.chosen (by omega)) length

private lemma replaceLeaf_updates (labels : Labelling) (value : Option CellBuilder)
    (old : CellSlice) (label : List Bool) (length : n = label.length) (bound : n ≤ 1023) :
    Updates labels n (.under label (.point old)) (.under label (.point (value.map asSlice)))
      (replaceLeaf value label label.length n) := by
  have nothing : ∀ key, updated key none none none := fun _ =>
    ⟨rfl, fun removed => by cases removed⟩
  have stored := appendDictLabel_yields .new [] (show label.length ≤ n by omega) bound
  rw [append_nil] at stored
  refine Updates.of_yields stored ?_
  rintro cb rfl
  cases value with
  | none =>
    refine ⟨.under label .empty, by rw [under_empty]; rfl, .under nothing label ?_⟩
    intro key
    cases key with
    | nil => exact ⟨rfl, fun _ => by simp⟩
    | cons bit key => exact nothing _
  | some value =>
    refine Updates.of_yields (orThrow_addSlice_yields _ value.asSlice (by trivial)) ?_
    rintro cb rfl
    refine Updates.of_yields (finalize_yields _) ?_
    rintro cell rfl
    have node := (Payload.leaf value.asSlice).node (labels.chosen (by omega)) length
    refine ⟨_, by simpa [append, new, Root] using node, .under nothing label ?_⟩
    intro key
    cases key with
    | nil => exact ⟨rfl, fun removed => by cases removed⟩
    | cons bit key => exact nothing _

lemma atDeeper {shared labelRest : List Bool} {bit : Bool} {rest : CellSlice} (front : List Bool)
    (node : Node labels (n + above.length) cell (.under above (.under (shared ++ bit :: labelRest) inner)))
    (parsed : LabelParser.ofCell (some cell) (n + above.length) = .ok parser)
    (reads : parser.Reads (above ++ (shared ++ bit :: labelRest)) rest) (payload : Payload labels m rest inner)
    (length : n = shared.length + (labelRest.length + 1) + m) :
    Skipped labels (front ++ above ++ shared ++ [bit]) (labelRest.length + m)
      (above.length + shared.length + 1) (some cell) (.under labelRest inner) := by
  have total : labelRest.length + m + (above ++ shared ++ [bit]).length = n + above.length := by
    simp only [length_append, length_singleton]
    omega
  refine ⟨front, above ++ shared ++ [bit], by simp, by simp [Nat.add_assoc], parser,
    labelRest, rest, inner, m, ?_, ?_, by simpa using reads, payload, rfl, rfl⟩
  · rw [total, ← under_append]
    rw [← under_append] at node
    simpa using node
  · rwa [total]

/-- What the parser says of a label of which the part `above` has been passed. -/
lemma LabelParser.Reads.below {rest : CellSlice} (reads : parser.Reads (above ++ label) rest) :
    parser.lBits - above.length = label.length ∧ parser.commonPrefixLen above above.length = above.length ∧
      parser.bits.drop above.length = label := by
  refine ⟨?_, ?_, ?_⟩
  · rw [reads.length, length_append]
    omega
  · rw [reads.commonPrefixLen_eq, take_length]
    simpa using commonPrefixLen_append above label []
  · rw [reads.bits_eq, drop_left]

/-- With disjoint keys the old node, its label shortened, and the new values become the children of a fork. -/
private lemma disjoint_updates {shared labelRest : List Bool} {bit : Bool} {payloadSlice : CellSlice}
    (reads : parser.Reads label payloadSlice) (payload : Payload labels m payloadSlice inner)
    (sorted : Sorted total (keyBuffer ++ shared ++ [bit]) (first :: rest))
    (split : n = shared.length + (labelRest.length + m + 1)) (length : keyBuffer.length + n = total) (bound : total ≤ 1023) :
    Updates labels n (.under shared (.fork bit .empty (.under labelRest inner))) (changesBelow (first :: rest) keyBuffer) (do
      let pruned ← pruneLabel parser labelRest (labelRest.length + m) pruneMessage
      let built ← dictBuild (first :: rest) total ((keyBuffer ++ shared).length + 1)
      let cell ← forkBySide bit (shared ++ (!bit) :: labelRest) shared.length n (some pruned) built
      return some cell) := by
  have sameLength : total - (keyBuffer ++ shared ++ [bit]).length = labelRest.length + m := by
    simp only [length_append, length_singleton]
    omega
  have next : (keyBuffer ++ shared ++ [bit]).length = (keyBuffer ++ shared).length + 1 := length_append
  have built := dictBuild_updates labels sorted bound
  rw [sameLength, next] at built
  rw [sorted.changesBelow_oneSide]
  refine Updates.of_yields (pruneLabel_yields pruneMessage reads payload rfl (by omega)) ?_
  intro pruned prunedNode
  have prunedRoot : Root labels _ (some pruned) _ := prunedNode
  refine Updates.oneSide bit built prunedRoot ?_
  intro one ownNew ownRoot entries
  have isBuilt := isSome_of_built ownRoot entries (sorted.exists_change (by simp))
  cases one with
  | none => exact absurd isBuilt (by simp)
  | some one => exact forkBySide_yields ((!bit) :: labelRest) bit ownRoot prunedNode split (by omega)

/-- Where the old label and the new values end at the same fork, both sides are changed. -/
private lemma bothSides_updates {shared : List Bool} {left right : BitMap CellSlice} {values : List NewValue}
    {child1 child2 : Except Thrown (Option Cell)} (sorted : Sorted total (keyBuffer ++ shared) values)
    (short : (keyBuffer ++ shared).length < total) (split : n = shared.length + (m + 1)) (bound : n ≤ 1023)
    (updates1 : Updates labels m left
      (changesBelow (valuesLeft values (keyBuffer ++ shared).length) (keyBuffer ++ shared ++ [false])) child1)
    (updates2 : Updates labels m right
      (changesBelow (valuesRight values (keyBuffer ++ shared).length) (keyBuffer ++ shared ++ [true])) child2) :
    Updates labels n (.under shared (.branch left right)) (changesBelow values keyBuffer) (do
      let _ ← appendDictLabel .new shared shared.length n
      let c1 ← child1
      let c2 ← child2
      joinChildren finishCreateFork shared shared.length n c1 c2) := by
  rw [sorted.changesBelow_under, sorted.changesBelow_branch short]
  have stored := appendDictLabel_yields .new [] (show shared.length ≤ n by omega) bound
  rw [append_nil] at stored
  refine Updates.of_yields stored fun _ _ => ?_
  refine Updates.sides false updates1 updates2 ?_
  intro one two ownNew otherNew ownRoot _ otherRoot _
  have joined := joinSides_yields false [] ownRoot otherRoot split bound
  rwa [append_nil] at joined

/-- Values that lie below one child of an old fork change that child. -/
private lemma oneChild_updates {shared : List Bool} {c1 c2 : Cell} {left right : BitMap CellSlice} {values : List NewValue}
    {child : Except Thrown (Option Cell)} (bit : Bool) (commonRest : List Bool)
    (sorted : Sorted total (keyBuffer ++ shared ++ [bit]) values) (leftNode : Node labels m c1 left)
    (rightNode : Node labels m c2 right) (split : n = shared.length + (m + 1)) (bound : n ≤ 1023)
    (updates : Updates labels m (if bit then right else left) (changesBelow values (keyBuffer ++ shared ++ [bit])) child) :
    Updates labels n (.under shared (.branch left right)) (changesBelow values keyBuffer) (do
      let child ← child
      joinChildren finishCreateFork (shared ++ bit :: commonRest) shared.length n
        (if bit then some c1 else child) (if bit then child else some c2)) := by
  rw [sorted.changesBelow_oneSide, branch_eq_fork bit]
  refine Updates.oneSide bit updates (sideRoot rightNode leftNode bit) ?_
  intro one ownNew ownRoot _
  exact joinChild_yields bit (bit :: commonRest) ownRoot leftNode rightNode split bound

/-- Values on both sides of a fork inside the old label: the old node stays on one side, the other
side is built anew. -/
private lemma splitLabel_updates {shared labelRest : List Bool} {values : List NewValue} {child : Except Thrown (Option Cell)}
    (bit : Bool) (sorted : Sorted total (keyBuffer ++ shared) values) (short : (keyBuffer ++ shared).length < total)
    (split : n = shared.length + (labelRest.length + m + 1)) (length : keyBuffer.length + n = total) (bound : total ≤ 1023)
    (otherSome : (if bit then valuesLeft values (keyBuffer ++ shared).length
      else valuesRight values (keyBuffer ++ shared).length) ≠ [])
    (updates : Updates labels (labelRest.length + m) (.under labelRest inner)
      (changesBelow (if bit then valuesRight values (keyBuffer ++ shared).length
        else valuesLeft values (keyBuffer ++ shared).length) (keyBuffer ++ shared ++ [bit])) child) :
    Updates labels n (.under shared (.fork bit (.under labelRest inner) .empty)) (changesBelow values keyBuffer) (do
      let child ← child
      let built ← dictBuild (if bit then valuesLeft values (keyBuffer ++ shared).length
        else valuesRight values (keyBuffer ++ shared).length) total ((keyBuffer ++ shared).length + 1)
      ensure built.isSome .assertion
      joinChildren finishCreateFork (shared ++ bit :: labelRest) shared.length n
        (if bit then built else child) (if bit then child else built)) := by
  have built := dictBuild_updates labels (sorted.otherSide short bit) bound
  have sameLength : total - (keyBuffer ++ shared ++ [!bit]).length = labelRest.length + m := by
    simp only [length_append, length_singleton]
    omega
  have next : (keyBuffer ++ shared ++ [!bit]).length = (keyBuffer ++ shared).length + 1 := length_append
  rw [sameLength, next] at built
  rw [sorted.changesBelow_under, sorted.changesBelow_fork short bit]
  refine Updates.sides bit updates built ?_
  intro one two ownNew otherNew ownRoot _ otherRoot otherEntries
  have isBuilt := isSome_of_built otherRoot otherEntries ((sorted.otherSide short bit).exists_change otherSome)
  rw [ensure_eq isBuilt, ok_bind]
  exact joinSides_yields bit (bit :: labelRest) ownRoot otherRoot split (by omega)

lemma dictMultiset_updates {skip1 : Nat} {dict1 : Option Cell}
    {values2 : List NewValue} (below : Skipped labels keyBuffer n skip1 dict1 map)
    (skips : values2 = [] → skip1 = 0) (sorted : Sorted total keyBuffer values2)
    (length : keyBuffer.length + n = total) (bound : total ≤ 1023) : Updates labels n map (changesBelow values2 keyBuffer)
      (dictMultiset dict1 values2 keyBuffer n total skip1) := by
  induction n using Nat.strongRecOn generalizing keyBuffer dict1 values2 skip1 map with
  | _ n ih =>
    have pfxLen : total - n = keyBuffer.length := by omega
    rw [dictMultiset.eq_def]
    simp only [pfxLen]
    rw [ensure_eq, ok_bind]
    · rcases dict1 with _ | cell
      · obtain rfl : map = .empty := below
        have built := dictBuild_updates labels sorted bound
        rwa [← pfxLen, Nat.sub_sub_self (by omega), pfxLen] at built
      rcases values2 with _ | ⟨first, rest⟩
      · obtain rfl := skips rfl
        simp only
        rw [ensure_eq trivial, ok_bind]
        exact .unchanged below.root
      obtain ⟨front, above, rfl, rfl, parser, label1, payloadSlice, inner, m, node, parsed, reads, payload, split, rfl⟩ := below
      obtain ⟨common, tail, l2, isFirst, sortedBelow, parts⟩ := sorted.exists_first
      have frontLength : (front ++ above).length - above.length = front.length := by simp
      have firstLength := sorted.lengths first mem_cons_self
      rw [isFirst] at firstLength
      simp only [length_append] at firstLength length
      obtain ⟨l1, onPath, key1⟩ := reads.below
      have c : parser.commonPrefixLen (first.1.drop front.length)
          (above.length + common.length) - above.length =
            Lib.commonPrefixLen label1 common := by
        rw [reads.commonPrefixLen_eq, isFirst, append_assoc, drop_left,
          ← append_assoc above, ← length_append, take_left, commonPrefixLen_append, Nat.add_sub_cancel_left]
      simp only [l2, parsed, ok_bind, frontLength, drop_left, l1, onPath, c, key1]
      have several : (front ++ above).length + common.length < total ∨ rest = [] := by
        rcases parts with ⟨alone, _⟩ | ⟨⟨low, rfl⟩, _⟩
        · exact .inr alone
        · left
          simp only [length_append, length_cons] at firstLength ⊢
          omega
      rw [ensure_eq several, ok_bind, ensure_eq (by rw [reads.length]; simp), ok_bind, ensure_eq (.inr trivial), ok_bind]
      obtain ⟨shared, labelRest, commonRest, rfl, rfl, cIs, apart⟩ := commonPrefix_split label1 common
      simp only [cIs]
      rw [ensure_eq (by simp), ok_bind]
      have position : (front ++ above).length + shared.length = (front ++ above ++ shared).length := by rw [← length_append]
      have next : ∀ bit : Bool, (front ++ above ++ shared).length + 1 =
          (front ++ above ++ shared ++ [bit]).length := by
        intro bit
        simp only [length_append, length_singleton]
      have lengthsAt : ∀ (bit : Bool) {m : Nat}, n = shared.length + 1 + m →
          (front ++ above ++ shared ++ [bit]).length + m = total := by
        intro bit m isLength
        simp only [length_append, length_singleton]
        omega
      cases labelRest with
      | nil =>
        cases commonRest with
        | nil =>
          simp only [append_nil] at sortedBelow split isFirst parts firstLength ⊢
          rw [if_neg (by omega)]
          cases payload with
          | leaf value =>
            rcases parts with ⟨rfl, rfl⟩ | ⟨⟨low, rfl⟩, _⟩
            · have isKey : front ++ above ++ shared = first.1 := by rw [isFirst]; simp
              rw [dif_neg (by omega), sortedBelow.changesBelow_under, isKey, changesBelow_single]
              exact replaceLeaf_updates labels first.2 _ shared (by omega) (by omega)
            · simp only [length_cons] at firstLength
              omega
          | @fork m c1 c2 left right leftNode rightNode =>
            rw [dif_pos (by omega), if_pos (by simp)]
            have descend : n - shared.length - 1 = m := by omega
            have short : (front ++ above ++ shared).length < total := by
              simp only [length_append]
              omega
            simp only [descend, CellSlice.prefetchRef, reads.refs, take_length, position]
            have leftRoot : Root labels m (some c1) left := leftNode
            have rightRoot : Root labels m (some c2) right := rightNode
            exact bothSides_updates sortedBelow short split (by omega)
              (ih m (by omega) (leftRoot.skipped _) (fun _ => rfl) (sortedBelow.left short) (lengthsAt false (by omega)))
              (ih m (by omega) (rightRoot.skipped _) (fun _ => rfl) (sortedBelow.right short) (lengthsAt true (by omega)))
        | cons commonBit commonRest =>
          simp only [append_nil, length_append, length_cons] at split firstLength
          have key2 : (first.1.drop (front ++ above).length).take
              (shared ++ commonBit :: commonRest).length =
                shared ++ commonBit :: commonRest := by
            rw [isFirst, drop_left, take_left]
          cases payload with
          | leaf value => omega
          | @fork m c1 c2 left right leftNode rightNode =>
            have descend : n - shared.length - 1 = m := by omega
            have sortedChild := sortedBelow.toBit
            rw [if_neg (by simp), dif_pos (by omega), if_neg (by simp), if_pos (by simp), append_nil]
            simp only [key2, getD_after, take_after, descend, CellSlice.prefetchRef, reads.refs, ← append_assoc]
            simp only [getElem?_cons_zero, getElem?_cons_succ, ensure_eq (sideRoot_isSome commonBit c1 c2), ok_bind]
            have child := sideRoot leftNode rightNode commonBit
            exact oneChild_updates commonBit commonRest sortedChild leftNode rightNode split (by omega)
              (ih m (by omega) (child.skipped _) (fun _ => rfl) sortedChild (lengthsAt commonBit (by omega)))
      | cons labelBit labelRest =>
        have descend : n - shared.length - 1 = labelRest.length + m := by
          simp only [length_append, length_cons] at split
          omega
        rw [under_eq_fork]
        cases commonRest with
        | nil =>
          simp only [append_nil, length_append, length_cons] at split firstLength
          simp only [append_nil] at sortedBelow isFirst parts
          rw [if_neg (by simp), dif_pos (by omega), if_neg (by simp), if_neg (by simp)]
          simp only [getD_after, take_after, append_nil, ← append_assoc, position, descend]
          have short : (front ++ above ++ shared).length < total := by
            simp only [length_append]
            omega
          have deeper := atDeeper front node parsed reads payload (by omega)
          obtain ⟨leftSome, rightSome⟩ :
              valuesLeft (first :: rest) (front ++ above ++ shared).length ≠ [] ∧
              valuesRight (first :: rest) (front ++ above ++ shared).length ≠ [] := by
            rcases parts with ⟨_, rfl⟩ | ⟨⟨low, rfl⟩, last, inAll, high, isLast⟩
            · simp only [length_nil] at firstLength
              omega
            · rw [← append_assoc] at isFirst isLast
              exact ⟨Sorted.left_ne_nil (by rw [isFirst, getD_after]), Sorted.right_ne_nil inAll (by rw [isLast, getD_after])⟩
          obtain ⟨ownSome, otherSome⟩ := Sorted.sides_ne_nil labelBit leftSome rightSome
          exact splitLabel_updates labelBit sortedBelow short (by omega) (by rw [length_append]; omega) bound otherSome
            (ih _ (by omega) deeper (fun isNil => absurd isNil ownSome) (sortedBelow.side short labelBit)
              (lengthsAt labelBit (by omega)))
        | cons commonBit commonRest =>
          simp only [length_append, length_cons] at split firstLength
          have sw : first.1.getD (front ++ above ++ shared).length false = commonBit := by
            have asBit : first.1 = (front ++ above ++ shared) ++ commonBit ::
                (commonRest ++ tail) := by
              rw [isFirst]
              simp
            rw [asBit, getD_after]
          obtain rfl : labelBit = !commonBit := Bool.eq_not_of_ne (apart labelBit commonBit labelRest commonRest rfl rfl)
          rw [if_pos (by simp), descend, drop_after, position, sw, fork_not]
          exact disjoint_updates reads payload sortedBelow.toBit (by omega) (by rw [length_append]; omega) bound
    · intro value member
      obtain ⟨tail, same⟩ := sorted.keys value member
      rw [same, take_left]

end TonNode.Vm
