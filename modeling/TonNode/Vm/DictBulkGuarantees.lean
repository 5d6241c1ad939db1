import TonNode.Vm.DictCanonical

/-!
# Several keys at once

`multiset` stores and deletes several keys. Unless a cell overflows, it gives the dictionary of the
same changes made one after another. `combine_with` gives the map of all keys of both dictionaries
and leaves the common ones to a function of its caller.
-/

namespace TonNode.Vm

open Lib List

/-- The change of one key: a value is stored, null deletes the key. -/
def NewValue.operation : NewValue → Operation
  | (key, some value) => .set key value.asSlice .set
  | (key, none) => .lookupDelete key

def changed (map : BitMap CellSlice) (changes : BitMap (Option CellSlice)) : BitMap CellSlice :=
  fun key => (changes key).getD (map key)

private lemma changesBelow_cons (first : NewValue) (rest : List NewValue) (key : List Bool) :
    changesBelow (first :: rest) [] key = if first.1 = key then some (first.2.map CellBuilder.asSlice)
      else changesBelow rest [] key := by
  by_cases same : first.1 = key
  · simp [changesBelow, same]
  · simp [changesBelow, same]

private lemma changesBelow_eq_some {values : List NewValue} (distinct : (values.map Prod.fst).Nodup)
    {key : List Bool} {change : Option CellSlice} : changesBelow values [] key = some change ↔
      ∃ new, (key, new) ∈ values ∧ change = new.map CellBuilder.asSlice := by
  induction values with
  | nil => simp [changesBelow]
  | cons first rest ih =>
    rw [map_cons, nodup_cons] at distinct
    obtain ⟨fresh, distinct⟩ := distinct
    rw [changesBelow_cons]
    by_cases same : first.1 = key
    · subst same
      rw [if_pos rfl]
      constructor
      · intro isChange
        exact ⟨first.2, mem_cons_self, (Option.some.inj isChange).symm⟩
      · rintro ⟨new, member, rfl⟩
        cases mem_cons.mp member with
        | inl isFirst => rw [← isFirst]
        | inr inRest => exact absurd (mem_map_of_mem inRest) fresh
    · rw [if_neg same, ih distinct]
      constructor
      · rintro ⟨new, member, isChange⟩
        exact ⟨new, mem_cons_of_mem _ member, isChange⟩
      · rintro ⟨new, member, isChange⟩
        cases mem_cons.mp member with
        | inl isFirst => exact absurd (congrArg Prod.fst isFirst).symm same
        | inr inRest => exact ⟨new, inRest, isChange⟩

private lemma changesBelow_perm {values order : List NewValue} (perm : order.Perm values)
    (distinct : (values.map Prod.fst).Nodup) : changesBelow order [] = changesBelow values [] := by
  have distinctOrder : (order.map Prod.fst).Nodup := (perm.map Prod.fst).nodup_iff.mpr distinct
  funext key
  refine Option.ext fun change => ?_
  rw [changesBelow_eq_some distinctOrder, changesBelow_eq_some distinct]
  simp only [perm.mem_iff]

private lemma MapRun.eq_changed {order : List NewValue} {map final : BitMap CellSlice}
    {answers : List Answer} (run : MapRun map (order.map NewValue.operation) answers final)
    (distinct : (order.map Prod.fst).Nodup) : final = changed map (changesBelow order []) := by
  induction order generalizing map answers with
  | nil =>
    cases run
    rfl
  | cons first rest ih =>
    rw [map_cons, nodup_cons] at distinct
    obtain ⟨fresh, distinct⟩ := distinct
    have untouched : changesBelow rest [] first.1 = none := by
      cases found : changesBelow rest [] first.1 with
      | none => rfl
      | some change =>
        obtain ⟨new, member, _⟩ := (changesBelow_eq_some distinct).mp found
        exact absurd (mem_map_of_mem member) fresh
    obtain ⟨key, new⟩ := first
    have afterFirst : ∀ {next : BitMap CellSlice},
        next = Function.update map key (new.map CellBuilder.asSlice) →
        changed next (changesBelow rest []) = changed map (changesBelow ((key, new) :: rest) []) := by
      rintro _ rfl
      funext other
      unfold changed
      rw [changesBelow_cons]
      by_cases same : key = other
      · subst same
        rw [if_pos rfl, untouched, Option.getD_none, Option.getD_some, Function.update_self]
      · rw [if_neg same, Function.update_of_ne (Ne.symm same)]
    cases new with
    | none =>
      cases run with
      | cons step run =>
        cases step with
        | lookupDelete =>
          rw [ih run distinct]
          exact afterFirst rfl
    | some value =>
      cases run with
      | cons step run =>
        cases step with
        | set =>
          rw [ih run distinct]
          exact afterFirst rfl

namespace Dictionary

variable {labels : Labelling} {n : Nat} {dict : Dictionary} {map : BitMap CellSlice}

lemma Denotes.eq_of_map {first second : Dictionary} (one : first.Denotes .canonical n map)
    (two : second.Denotes .canonical n map) : first = second := by
  obtain ⟨root, _⟩ := first
  obtain ⟨otherRoot, _⟩ := second
  obtain rfl : root = otherRoot := one.root.eq_of_map two.root
  exact congrArg (Dictionary.mk root) (one.keyBits.trans two.keyBits.symm)

/-- Every pair that removes a key names a key of the map, and no key is named twice. -/
def Applicable (map : BitMap CellSlice) (newValues : List NewValue) : Prop :=
  (newValues.map Prod.fst).Nodup ∧ ∀ key, (key, none) ∈ newValues → map key ≠ none

lemma multiset_yields (denotes : dict.Denotes labels n map) (bound : n ≤ 1023)
    {newValues : List NewValue} (lengths : ∀ value ∈ newValues, value.1.length = n) :
    Yields (dict.multiset newValues) (fun result =>
      (result.1 = true ↔ Applicable map newValues) ∧ (result.1 = false → result.2 = dict) ∧
      (result.1 = true → result.2.Denotes labels n (changed map (changesBelow newValues [])))) := by
  have perm := perm_insertionSort keyLe newValues
  rw [multiset, denotes.valid bound, ok_bind]
  by_cases distinctSorted : ((newValues.insertionSort keyLe).map Prod.fst).Nodup
  · have distinct := (perm.map Prod.fst).nodup_iff.mp distinctSorted
    have updates := dictMultiset_updates (denotes.root.skipped []) (fun _ => rfl)
      (insertionSort_sorted lengths distinctSorted) (by simp) bound
    rw [if_pos distinctSorted, denotes.keyBits]
    rw [changesBelow_perm perm distinct] at updates
    cases result : dictMultiset dict.rootCell (newValues.insertionSort keyLe) [] n n 0 with
    | ok root =>
      obtain ⟨new, denotesNew, entries⟩ := updates.of_ok result
      obtain rfl : new = changed map (changesBelow newValues []) := funext fun key => (entries key).1
      refine ⟨⟨fun _ => ⟨distinct, fun key member => ?_⟩, fun _ => rfl⟩,
        fun failed => (by cases failed), fun _ => ⟨denotes.keyBits, denotesNew⟩⟩
      exact (entries key).2 ((changesBelow_eq_some distinct).mpr ⟨none, member, rfl⟩)
    | error thrown =>
      rcases updates.of_error result with overflow | ⟨rfl, key, removed, missing⟩
      · cases thrown with
        | combineError | assertion => exact overflow.elim
        | vmError | cellCreateError | cellWriteError => exact overflow
      · refine ⟨⟨fun succeeded => (by cases succeeded), fun applicable => ?_⟩, fun _ => rfl, fun succeeded => (by cases succeeded)⟩
        obtain ⟨new, member, isRemoved⟩ := (changesBelow_eq_some distinct).mp removed
        cases new with
        | none => exact absurd missing (applicable.2 key member)
        | some value => cases isRemoved
  · rw [if_neg distinctSorted]
    refine ⟨⟨fun succeeded => (by cases succeeded), fun applicable => ?_⟩, fun _ => rfl, fun succeeded => (by cases succeeded)⟩
    exact absurd ((perm.map Prod.fst).nodup_iff.mpr applicable.1) distinctSorted

/-- Unless a cell overflows, `multiset` succeeds exactly if no key is named twice and every key
it is to remove is there. The same changes made one by one give the same entries, and the same
root if the labels are those the code chooses. -/
theorem multiset_eq_one_by_one (denotes : dict.Denotes .any n map) (bound : n ≤ 1023)
    (newValues : List NewValue) (lengths : ∀ value ∈ newValues, value.1.length = n) :
    (∀ thrown, dict.multiset newValues = .error thrown → thrown.IsCellOverflow) ∧
    ∀ success next, dict.multiset newValues = .ok (success, next) →
      (success = true ↔ Applicable map newValues) ∧ (success = false → next = dict) ∧
      (success = true → ∀ order : List NewValue, order.Perm newValues →
        (∀ thrown, dict.run (order.map NewValue.operation) = .error thrown → thrown.IsCellOverflow) ∧
        ∀ answers final, dict.run (order.map NewValue.operation) = .ok (answers, final) →
          (∀ key, key.length = n → next.lookup key = final.lookup key) ∧ (dict.Canonical → next = final)) := by
  have yields := multiset_yields denotes bound lengths
  refine ⟨fun thrown failed => yields.of_error failed, ?_⟩
  intro success next returned
  obtain ⟨applies, unchanged, denotesNext⟩ := yields.of_ok returned
  refine ⟨applies, unchanged, ?_⟩
  intro succeeded order perm
  have distinct := (applies.mp succeeded).1
  have keyBits : ∀ operation ∈ order.map NewValue.operation, operation.HasKeyBits n := by
    intro operation member
    obtain ⟨⟨key, new⟩, inOrder, rfl⟩ := mem_map.mp member
    have length := lengths _ (perm.mem_iff.mp inOrder)
    cases new with
    | none => exact length
    | some value => exact length
  -- the map after the run, whichever labels the dictionary has
  have afterRun : ∀ {labels : Labelling} {map : BitMap CellSlice} {answers : List Answer}
      {final : Dictionary}, dict.Denotes labels n map →
      dict.run (order.map NewValue.operation) = .ok (answers, final) →
      final.Denotes labels n (changed map (changesBelow newValues [])) := by
    intro labels map answers final denotes ran
    obtain ⟨finalMap, run, after⟩ := (run_yields denotes bound keyBits).of_ok ran
    obtain rfl := run.eq_changed ((perm.map Prod.fst).nodup_iff.mpr distinct)
    rwa [changesBelow_perm perm distinct] at after
  refine ⟨fun thrown failed => (run_yields denotes bound keyBits).of_error failed, ?_⟩
  intro answers final ran
  have denotesFinal := afterRun denotes ran
  refine ⟨?_, ?_⟩
  · intro key length
    rw [lookup_eq (denotesNext succeeded) bound length, lookup_eq denotesFinal bound length]
  · intro canonical
    obtain ⟨canonicalMap, chosen⟩ := canonical.denotes
    rw [denotes.keyBits] at chosen
    obtain ⟨_, _, chosenNext⟩ := (multiset_yields chosen bound lengths).of_ok returned
    exact (chosenNext succeeded).eq_of_map (afterRun chosen ran)

def pairDict (encoded : List Bool) : Dictionary :=
  ⟨some (.mk .ordinary (dictLabel 2 []) [.mk .ordinary (dictLabel 1 [false] ++ [true]) [],
    .mk .ordinary (encoded ++ [true]) []]), 2⟩

def pairMap : BitMap CellSlice :=
  .under [] (.branch (.under [false] (.point ⟨[true], []⟩)) (.under [true] (.point ⟨[true], []⟩)))

private lemma pairDict_denotes {encoded : List Bool} (allowed : labels.Allowed 1 [true] encoded) :
    (pairDict encoded).Denotes labels 2 pairMap := by
  have left : Node labels 1 (.mk .ordinary (dictLabel 1 [false] ++ [true]) []) (.under [false] (.point ⟨[true], []⟩)) :=
    @Node.leaf labels 1 [false] _ ⟨[true], []⟩ (labels.chosen (by decide)) rfl
  have right : Node labels 1 (.mk .ordinary (encoded ++ [true]) []) (.under [true] (.point ⟨[true], []⟩)) :=
    @Node.leaf labels 1 [true] _ ⟨[true], []⟩ allowed rfl
  exact ⟨rfl, .fork (labels.chosen (by decide)) rfl left right⟩

def replacement : List NewValue := [([false, false], none), ([false, true], some ⟨[true], []⟩)]

private def childBits (dict : Dictionary) : List (List Bool) :=
  (dict.rootCell.map fun cell => cell.refs.map Cell.bits).getD []

theorem multiset_eq_one_by_one_replacement :
    ∃ next answers final, (pairDict (dictLabel 1 [true])).multiset replacement = .ok (true, next) ∧
      (pairDict (dictLabel 1 [true])).run (replacement.map NewValue.operation) = .ok (answers, final) ∧ next = final := by
  have canonical : (pairDict (dictLabel 1 [true])).Canonical := by
    have denotes := pairDict_denotes (Labelling.canonical.chosen (by decide))
    exact ⟨by decide, pairMap, denotes.root⟩
  have stored : ((pairDict (dictLabel 1 [true])).multiset replacement).toOption.map Prod.fst = some true := by decide +kernel
  have ran : ((pairDict (dictLabel 1 [true])).run
      (replacement.map NewValue.operation)).toOption.map (·.2.keyBits) = some 2 := by decide +kernel
  obtain ⟨⟨_, next⟩, isNext, rfl⟩ := exists_ok_of_toOption stored
  obtain ⟨⟨answers, final⟩, isFinal, _⟩ := exists_ok_of_toOption ran
  have same := multiset_eq_one_by_one (pairDict_denotes (Labelling.any.chosen (by decide)))
    (by decide) replacement (by simp [replacement])
  exact ⟨next, answers, final, isNext, isFinal,
    (((same.2 true next isNext).2.2 rfl replacement (.refl _)).2 answers final isFinal).2 canonical⟩

/-- Both keys of one bit with values of 1021 bits, which fit into nodes with empty labels only. -/
def wideValues : List NewValue :=
  [([false], some ⟨List.replicate 1021 true, []⟩), ([true], some ⟨List.replicate 1021 true, []⟩)]

/-- `multiset` stores two values that cannot be stored one after the other, and it keeps a label
that the changes made one after the other encode anew. -/
theorem multiset_not_one_by_one : (∃ next, (new 1).multiset wideValues = .ok (true, next) ∧
      ∀ order : List NewValue, order.Perm wideValues → ∃ thrown, (new 1).run (order.map NewValue.operation) = .error thrown) ∧
    ∃ map next answers final, (pairDict (longLabel 1 [true])).Denotes .any 2 map ∧
      (pairDict (longLabel 1 [true])).multiset replacement = .ok (true, next) ∧
      (pairDict (longLabel 1 [true])).run (replacement.map NewValue.operation) =
        .ok (answers, final) ∧ next.rootCell ≠ final.rootCell := by
  refine ⟨?_, ?_⟩
  · have stored : ((new 1).multiset wideValues).toOption.map Prod.fst = some true := by
      decide +kernel
    have fails : ((new 1).run (wideValues.map NewValue.operation)).isOk = false := by
      decide +kernel
    have failsReversed : ((new 1).run (wideValues.reverse.map NewValue.operation)).isOk = false := by
      decide +kernel
    obtain ⟨⟨_, next⟩, isNext, rfl⟩ := exists_ok_of_toOption stored
    refine ⟨next, isNext, fun order perm => ?_⟩
    have failed : ((new 1).run (order.map NewValue.operation)).isOk = false := by
      rcases perm_pair.mp perm with rfl | rfl
      · exact fails
      · exact failsReversed
    cases ran : (new 1).run (order.map NewValue.operation) with
    | error thrown => exact ⟨thrown, rfl⟩
    | ok result =>
      rw [ran] at failed
      cases failed
  · have stored : ((pairDict (longLabel 1 [true])).multiset replacement).toOption.map
        (fun result => (result.1, childBits result.2)) =
          some (true, [dictLabel 1 [true] ++ [true], longLabel 1 [true] ++ [true]]) := by
      decide +kernel
    have ran : ((pairDict (longLabel 1 [true])).run
        (replacement.map NewValue.operation)).toOption.map (fun result => childBits result.2) =
          some [dictLabel 1 [true] ++ [true], dictLabel 1 [true] ++ [true]] := by
      decide +kernel
    obtain ⟨⟨success, next⟩, isNext, seen⟩ := exists_ok_of_toOption stored
    obtain ⟨⟨answers, final⟩, isFinal, seenFinal⟩ := exists_ok_of_toOption ran
    obtain ⟨rfl, kept⟩ := Prod.mk.inj seen
    refine ⟨pairMap, next, answers, final, pairDict_denotes (.long (by decide)), isNext, isFinal, ?_⟩
    intro same
    have encodings : childBits next = childBits final := by rw [childBits, childBits, same]
    rw [kept, seenFinal] at encodings
    exact absurd encodings (by decide +kernel)

end Dictionary

/-- The last call of the function throws. -/
def ThrownBy (combineFunc : CombineFunc) (calls : List CombineCall) (thrown : Thrown) : Prop :=
  ∃ before args, calls = before ++ [args] ∧ combineFunc.Answers (before, args) (.error thrown)

namespace Dictionary

variable {n : Nat} {dict dict2 : Dictionary} {map1 map2 : BitMap CellSlice}

/-- The function is called with the common keys and their values, in order. If `combine_with`
returns true, no key is forbidden and the dictionary denotes the merged map; if false, it is as
it was, and a key is forbidden or the function threw `CombineError`. Other exceptions are cell
overflows or come from the function. -/
theorem combineWith_exact (denotes : dict.Denotes .any n map1) (denotes2 : dict2.Denotes .any n map2)
    (bound : n ≤ 1023) (combineFunc : CombineFunc) (mode : Nat) :
    ∃ result calls,
      (dict.combineWith dict2 combineFunc mode).run.run [] = (result, calls) ∧
      CommonCalls [] map1 map2 calls ∧
      (∀ next, result = .ok (true, next) →
        ¬ Violates mode map1 map2 ∧
        (∀ key value1 value2, map1 key = some value1 → map2 key = some value2 → (value1, value2, key) ∈ calls) ∧
        ∃ new, next.Denotes .any n new ∧ BitMap.Everywhere (Merges combineFunc mode [] calls) map1 map2 new) ∧
      (∀ next, result = .ok (false, next) → next = dict ∧ (Violates mode map1 map2 ∨ ThrownBy combineFunc calls .combineError)) ∧
      ∀ thrown, result = .error thrown → thrown.IsCellOverflow ∨ ThrownBy combineFunc calls thrown := by
  obtain ⟨result, calls, ran, common, ensures⟩ := combineWith_run denotes denotes2 bound combineFunc mode
  refine ⟨_, calls, ran, common, ?_⟩
  cases result with
  | ok root =>
    obtain ⟨new, denotesNew, merges⟩ := ensures
    refine ⟨?_, fun next failed => (nomatch failed), fun thrown failed => (nomatch failed)⟩
    intro next isNext
    cases isNext
    refine ⟨?_, ?_, new, ⟨denotes.keyBits, denotesNew⟩, merges⟩
    · rintro ⟨key, violates⟩
      have entry := merges key
      cases in1 : map1 key with
      | none =>
        cases in2 : map2 key with
        | none => simp [in1, in2] at violates
        | some value2 =>
          rw [in1, in2] at entry
          simp [in1, in2, entry.1] at violates
      | some value1 =>
        cases in2 : map2 key with
        | none =>
          rw [in1, in2] at entry
          simp [in1, in2, entry.1] at violates
        | some value2 => simp [in1, in2] at violates
    · intro key value1 value2 found1 found2
      have entry := merges key
      rw [found1, found2] at entry
      obtain ⟨before, after, rfl, _⟩ := entry
      exact mem_append_right _ mem_cons_self
  | error thrown =>
    have caught : thrown = .combineError ∧ catchCombineError (.error thrown) dict = .ok (false, dict) ∨
        thrown ≠ .combineError ∧ catchCombineError (.error thrown) dict = .error thrown := by
      cases thrown <;> simp [catchCombineError]
    rcases caught with ⟨rfl, caught⟩ | ⟨other, caught⟩
    · rw [caught]
      refine ⟨fun next failed => (nomatch failed), ?_, fun thrown failed => (nomatch failed)⟩
      intro next isNext
      cases isNext
      rcases ensures with overflow | ⟨_, violates⟩ | thrownBy
      · exact overflow.elim
      · exact ⟨rfl, .inl violates⟩
      · exact ⟨rfl, .inr thrownBy⟩
    · rw [caught]
      refine ⟨fun next failed => (nomatch failed), fun next failed => (nomatch failed), ?_⟩
      intro failure isFailure
      cases isFailure
      rcases ensures with overflow | ⟨isCombine, _⟩ | thrownBy
      · exact .inl overflow
      · exact absurd isCombine other
      · exact .inr thrownBy

/-- The function of `combine_with` without one: a common key is a conflict. -/
def conflictFunc : CombineFunc where
  run _ _ := .error .combineError
  appends _ _ _ stored := nomatch stored
  asserts _ _ failed := nomatch failed

def keepFirst : CombineFunc where
  run args cb := .ok (some (cb.append args.2.1))
  appends args _ _ stored := ⟨args.2.1, by cases stored; rfl⟩
  asserts _ _ failed := nomatch failed

def oneDict : Dictionary := ⟨some (.mk .ordinary (dictLabel 1 [true] ++ [true]) []), 1⟩

def bothDict : Dictionary :=
  ⟨some (.mk .ordinary (dictLabel 1 []) [.mk .ordinary (dictLabel 0 [] ++ [true]) [],
    .mk .ordinary (dictLabel 0 [] ++ [true]) []]), 1⟩

def oneMap : BitMap CellSlice := .under [true] (.point ⟨[true], []⟩)

def bothMap : BitMap CellSlice :=
  .under [] (.branch (.under [] (.point ⟨[true], []⟩)) (.under [] (.point ⟨[true], []⟩)))

private lemma oneDict_denotes : oneDict.Denotes .any 1 oneMap :=
  ⟨rfl, @Node.leaf .any 1 [true] _ ⟨[true], []⟩ (Labelling.any.chosen (by decide)) rfl⟩

private lemma bothDict_denotes : bothDict.Denotes .any 1 bothMap := by
  have leaf : Node .any 0 (.mk .ordinary (dictLabel 0 [] ++ [true]) []) (.under [] (.point ⟨[true], []⟩)) :=
    @Node.leaf .any 0 [] _ ⟨[true], []⟩ (Labelling.any.chosen (by decide)) rfl
  exact ⟨rfl, .fork (Labelling.any.chosen (by decide)) rfl leaf leaf⟩

/-- One of the two keys is common. -/
theorem combineWith_exact_bothDict : ∃ next calls new,
    (bothDict.combineWith oneDict keepFirst 0).run.run [] = (.ok (true, next), calls) ∧
    calls.length = 1 ∧
    next.Denotes .any 1 new ∧
    new [false] = some ⟨[true], []⟩ ∧
    new [true] = some ⟨[true], []⟩ := by
  have succeeds : ((bothDict.combineWith oneDict keepFirst 0).run.run []).1.toOption.map Prod.fst = some true := by
    decide +kernel
  have calledOnce : ((bothDict.combineWith oneDict keepFirst 0).run.run []).2.length = 1 := by
    decide +kernel
  obtain ⟨result, calls, ran, _, merged, _⟩ := combineWith_exact bothDict_denotes oneDict_denotes (by decide) keepFirst 0
  rw [ran] at succeeds calledOnce
  obtain ⟨⟨_, next⟩, rfl, rfl⟩ := exists_ok_of_toOption succeeds
  obtain ⟨_, _, new, denotesNew, entries⟩ := merged next rfl
  refine ⟨next, calls, new, ran, calledOnce, denotesNew, (entries [false]).2, ?_⟩
  obtain ⟨before, after, _, answers⟩ := entries [true]
  cases isNew : new [true] with
  | none =>
    rw [isNew] at answers
    obtain ⟨cb, returned⟩ := answers
    cases returned
  | some value =>
    rw [isNew] at answers
    obtain ⟨cb, returned⟩ := answers
    have same := Option.some.inj (Except.ok.inj returned)
    have bits : [true] = value.bits := append_cancel_left (congrArg CellBuilder.bits same)
    have refs : [] = value.refs := append_cancel_left (congrArg CellBuilder.refs same)
    rw [bits, refs]

/-- A forbidden key ends the merge before the function is called with the common key 1, and a
conflict ends it where no key is missing. -/
theorem combineWith_calls_missing : (oneDict.Denotes .any 1 oneMap ∧ bothDict.Denotes .any 1 bothMap ∧
      oneMap [true] = some ⟨[true], []⟩ ∧ bothMap [true] = some ⟨[true], []⟩ ∧
      ∃ next, (oneDict.combineWith bothDict keepFirst 1).run.run [] = (.ok (false, next), [])) ∧ ¬ Violates 3 oneMap oneMap ∧
    ∃ next calls, (oneDict.combineWith oneDict conflictFunc 3).run.run [] = (.ok (false, next), calls) := by
  refine ⟨⟨oneDict_denotes, bothDict_denotes, rfl, rfl, ?_⟩, ?_, ?_⟩
  · have fails : ((oneDict.combineWith bothDict keepFirst 1).run.run []).1.toOption.map Prod.fst = some false := by decide +kernel
    have silent : ((oneDict.combineWith bothDict keepFirst 1).run.run []).2.isEmpty = true := by
      decide +kernel
    obtain ⟨⟨_, next⟩, returned, rfl⟩ := exists_ok_of_toOption fails
    exact ⟨next, Prod.ext returned (isEmpty_iff.mp silent)⟩
  · rintro ⟨key, violates⟩
    cases found : oneMap key <;> simp [found] at violates
  · have fails : ((oneDict.combineWith oneDict conflictFunc 3).run.run []).1.toOption.map Prod.fst =
        some false := by decide +kernel
    obtain ⟨⟨_, next⟩, returned, rfl⟩ := exists_ok_of_toOption fails
    exact ⟨next, _, Prod.ext returned rfl⟩

end Dictionary

end TonNode.Vm
