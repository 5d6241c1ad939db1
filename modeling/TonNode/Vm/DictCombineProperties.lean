import TonNode.Vm.DictMultisetProperties

/-!
# Combining two dictionaries

The combination of two dictionaries denotes the merged map. The caller's function is called for the
common keys in their order, and it decides their values.
-/

namespace TonNode.Vm

open Lib List

variable {labels : Labelling} {left1 left2 right1 right2 : BitMap CellSlice}

lemma LabelPair.parse_eq {label : Option Cell → Nat → Except Thrown LabelParser} {n : Nat}
    {keyBuffer front1 front2 above1 above2 label1 label2 : List Bool} {cell1 cell2 : Cell}
    {parser1 parser2 : LabelParser} {rest1 rest2 : CellSlice}
    (buffer1 : keyBuffer = front1 ++ above1) (buffer2 : keyBuffer = front2 ++ above2)
    (parsed1 : label (some cell1) (n + above1.length) = .ok parser1)
    (parsed2 : label (some cell2) (n + above2.length) = .ok parser2) (reads1 : parser1.Reads (above1 ++ label1) rest1)
    (reads2 : parser2.Reads (above2 ++ label2) rest2) :
    LabelPair.parse label cell1 cell2 keyBuffer n above1.length above2.length =
      .ok ⟨parser1, parser2, label1.length, label2.length, Lib.commonPrefixLen label2 label1, label1, label2⟩ := by
  have skipped1 : keyBuffer.drop (keyBuffer.length - above1.length) = above1 := by
    rw [buffer1]
    simp
  have skipped2 : keyBuffer.drop (keyBuffer.length - above2.length) = above2 := by
    rw [buffer2]
    simp
  obtain ⟨l1, onPath1, key1⟩ := reads1.below
  obtain ⟨l2, onPath2, key2⟩ := reads2.below
  have c : parser2.commonPrefixLen (above2 ++ label1) (above2.length + label1.length) -
      above2.length = Lib.commonPrefixLen label2 label1 := by
    rw [reads2.commonPrefixLen_eq, ← length_append, take_length, commonPrefixLen_append, Nat.add_sub_cancel_left]
  obtain ⟨shared, rest2, rest1, rfl, rfl, isShared, _⟩ := commonPrefix_split label2 label1
  unfold LabelPair.parse
  simp only [parsed1, parsed2, ok_bind, skipped1, skipped2, l1, l2, onPath1, onPath2, key1, key2, c]
  rw [ensure_eq (by rw [reads1.length, reads2.length]; simp), ok_bind,
    ensure_eq (.inr trivial), ok_bind, ensure_eq (.inr trivial), ok_bind, isShared, ensure_eq (by simp), ok_bind]
  rfl

/-- What the caller's function answers: the value it appends, or `none` if it returns false. -/
def LeafFunc.Answers {Args : Type} (func : LeafFunc Args) (args : Args) :
    Except Thrown (Option CellSlice) → Prop
  | .error thrown => ∃ cb, func.run args cb = .error thrown
  | .ok none => ∃ cb, func.run args cb = .ok none
  | .ok (some value) => ∃ cb, func.run args cb = .ok (some (cb.append value))

/-- The calls for common keys below `keyBuffer`, in the order of the keys. -/
structure CommonCalls (keyBuffer : List Bool) (map1 map2 : BitMap CellSlice)
    (calls : List CombineCall) : Prop where
  ordered : calls.Pairwise fun first second => first.2.2 < second.2.2
  common : ∀ args ∈ calls, ∃ key, args.2.2 = keyBuffer ++ key ∧ map1 key = some args.1 ∧ map2 key = some args.2.1

namespace CommonCalls

variable {keyBuffer label : List Bool} {calls more : List CombineCall}
variable {own1 own2 other1 other2 : BitMap CellSlice}

lemma nil (keyBuffer : List Bool) (map1 map2 : BitMap CellSlice) : CommonCalls keyBuffer map1 map2 [] :=
  ⟨.nil, fun _ member => nomatch member⟩

lemma side (bit : Bool) (own : CommonCalls (keyBuffer ++ label ++ [bit]) own1 own2 calls) :
    CommonCalls keyBuffer (.under label (.fork bit own1 other1)) (.under label (.fork bit own2 other2)) calls := by
  refine ⟨own.ordered, ?_⟩
  intro args member
  obtain ⟨key, isKey, in1, in2⟩ := own.common args member
  exact ⟨label ++ bit :: key, by simpa using isKey, by simpa using in1, by simpa using in2⟩

lemma both (left : CommonCalls (keyBuffer ++ label ++ [false]) left1 left2 calls)
    (right : CommonCalls (keyBuffer ++ label ++ [true]) right1 right2 more) :
    CommonCalls keyBuffer (.under label (.branch left1 right1)) (.under label (.branch left2 right2)) (calls ++ more) := by
  rw [BitMap.branch_eq_fork false left1, BitMap.branch_eq_fork false left2]
  have onLeft : CommonCalls keyBuffer (.under label (.fork false left1 right1))
      (.under label (.fork false left2 right2)) calls := left.side false
  have onRight : CommonCalls keyBuffer (.under label (.fork true right1 left1))
      (.under label (.fork true right2 left2)) more := right.side true
  refine ⟨pairwise_append.mpr ⟨left.ordered, right.ordered, ?_⟩, ?_⟩
  · intro first inLeft second inRight
    obtain ⟨lower, isLower, _⟩ := left.common first inLeft
    obtain ⟨upper, isUpper, _⟩ := right.common second inRight
    rw [isLower, isUpper, append_assoc, append_assoc (keyBuffer ++ label)]
    exact append_left_lt (List.Lex.rel Bool.false_lt_true)
  · intro args member
    cases mem_append.mp member with
    | inl inLeft => exact onLeft.common args inLeft
    | inr inRight => exact onRight.common args inRight

end CommonCalls

section Combine

variable (combineFunc : CombineFunc) (mode : Nat)

/-- The entry of a key in the merged dictionary, where `calls` follow those in `log`. -/
def Merges (log calls : List CombineCall) (key : List Bool) :
    Option CellSlice → Option CellSlice → Option CellSlice → Prop
  | none, none, new => new = none
  | some value1, none, new => forbids mode 2 = false ∧ new = some value1
  | none, some value2, new => forbids mode 1 = false ∧ new = some value2
  | some value1, some value2, new => ∃ before after,
      calls = before ++ (value1, value2, key) :: after ∧
      combineFunc.Answers (log ++ before, value1, value2, key) (.ok new)

def Violates (map1 map2 : BitMap CellSlice) : Prop :=
  ∃ key, forbids mode 1 = true ∧ map1 key = none ∧ map2 key ≠ none ∨ forbids mode 2 = true ∧ map1 key ≠ none ∧ map2 key = none

/-- Why two dictionaries are not merged. -/
def Fault (log : List CombineCall) (map1 map2 : BitMap CellSlice) (calls : List CombineCall) (thrown : Thrown) : Prop :=
  thrown.IsCellOverflow ∨ thrown = .combineError ∧ Violates mode map1 map2 ∨ ∃ before args, calls = before ++ [args] ∧
      combineFunc.Answers (log ++ before, args) (.error thrown)

def Combines (labels : Labelling) (keyBuffer : List Bool) (n : Nat) (map1 map2 : BitMap CellSlice)
    (log : List CombineCall) (result : Except Thrown (Option Cell)) (calls : List CombineCall) : Prop :=
  CommonCalls keyBuffer map1 map2 calls ∧
  Ensures (Fault combineFunc mode log map1 map2 calls) result (fun root =>
    ∃ new, Root labels n root new ∧ BitMap.Everywhere
      (fun key => Merges combineFunc mode log calls (keyBuffer ++ key)) map1 map2 new)

variable {combineFunc mode} {log calls more : List CombineCall} {keyBuffer label : List Bool}
variable {n m : Nat} {own1 own2 other1 other2 : BitMap CellSlice} {thrown : Thrown} {map1 map2 : BitMap CellSlice}

lemma Merges.within {key : List Bool} {old1 old2 new : Option CellSlice} (earlier more : List CombineCall)
    (merges : Merges combineFunc mode (log ++ earlier) calls key old1 old2 new) :
    Merges combineFunc mode log (earlier ++ calls ++ more) key old1 old2 new := by
  cases old1 with
  | none =>
    cases old2 with
    | none => exact merges
    | some value2 => exact merges
  | some value1 =>
    cases old2 with
    | none => exact merges
    | some value2 =>
      obtain ⟨before, after, rfl, answers⟩ := merges
      exact ⟨earlier ++ before, after ++ more, by simp, by simpa using answers⟩

lemma Fault.side (bit : Bool) (fault : Fault combineFunc mode log own1 own2 calls thrown) :
    Fault combineFunc mode log (.under label (.fork bit own1 other1)) (.under label (.fork bit own2 other2)) calls thrown := by
  rcases fault with overflow | ⟨isCombine, key, violates⟩ | thrownBy
  · exact .inl overflow
  · exact .inr (.inl ⟨isCombine, label ++ bit :: key, by simpa using violates⟩)
  · exact .inr (.inr thrownBy)

lemma Fault.after (fault : Fault combineFunc mode (log ++ calls) own1 own2 more thrown) :
    Fault combineFunc mode log own1 own2 (calls ++ more) thrown := by
  rcases fault with overflow | violates | ⟨before, args, rfl, answers⟩
  · exact .inl overflow
  · exact .inr (.inl violates)
  · exact .inr (.inr ⟨calls ++ before, args, by simp, by simpa using answers⟩)

lemma Logs.combines (result : Except Thrown (Option Cell)) (ensures : Ensures (fun thrown => thrown.IsCellOverflow ∨
        thrown = .combineError ∧ Violates mode map1 map2) result (fun root => ∃ new, Root labels n root new ∧ BitMap.Everywhere
        (fun key => Merges combineFunc mode log [] (keyBuffer ++ key)) map1 map2 new)) :
    Logs (liftM result : CombineM (Option Cell)) log (Combines combineFunc mode labels keyBuffer n map1 map2 log) := by
  refine .lift ⟨.nil _ _ _, Ensures.weaken ensures ?_⟩
  rintro thrown (overflow | violates)
  · exact .inl overflow
  · exact .inr (.inl violates)

lemma Logs.combineSide (bit : Bool) {otherNew : BitMap CellSlice}
    {first : CombineM (Option Cell)} {join : Option Cell → Except Thrown (Option Cell)}
    (own : Logs first log (Combines combineFunc mode labels (keyBuffer ++ label ++ [bit]) m own1 own2 log))
    (other : BitMap.Everywhere (fun key => Merges combineFunc mode log [] (keyBuffer ++ label ++ [!bit] ++ key)) other1 other2
        otherNew)
    (joins : ∀ {one : Option Cell} {ownNew : BitMap CellSlice}, Root labels m one ownNew → Yields (join one)
        (fun root => Root labels n root (.under label (.fork bit ownNew otherNew)))) :
    Logs (do
        let one ← first
        join one) log
      (Combines combineFunc mode labels keyBuffer n (.under label (.fork bit own1 other1))
        (.under label (.fork bit own2 other2)) log) := by
  refine Logs.bind own ?_ ?_
  · rintro thrown calls ⟨common, fault⟩
    exact ⟨common.side bit, Fault.side bit fault⟩
  rintro one calls ⟨common, ownNew, ownRoot, ownEntries⟩
  refine .lift ?_
  rw [append_nil]
  refine ⟨common.side bit, (Ensures.weaken (joins ownRoot) fun _ overflow => .inl overflow).imp ?_⟩
  intro root denotes
  refine ⟨_, denotes, .under (fun _ => rfl) label (.fork _ rfl ?_ ?_)⟩
  · intro key
    have merges := ownEntries key
    simpa using merges
  · intro key
    have merges := Merges.within [] calls (by simpa using other key)
    simpa using merges

lemma Logs.combineBoth
    {first second : CombineM (Option Cell)}
    {join : Option Cell → Option Cell → Except Thrown (Option Cell)}
    (left : Logs first log (Combines combineFunc mode labels (keyBuffer ++ label ++ [false]) m left1 left2 log))
    (right : ∀ calls, Logs second (log ++ calls) (Combines combineFunc mode labels (keyBuffer ++ label ++ [true]) m right1 right2
        (log ++ calls)))
    (joins : ∀ {one two : Option Cell} {newLeft newRight : BitMap CellSlice},
      Root labels m one newLeft → Root labels m two newRight → Yields (join one two)
        (fun root => Root labels n root (.under label (.branch newLeft newRight)))) :
    Logs (do
        let one ← first
        let two ← second
        join one two) log
      (Combines combineFunc mode labels keyBuffer n (.under label (.branch left1 right1))
        (.under label (.branch left2 right2)) log) := by
  refine Logs.bind left ?_ ?_
  · rintro thrown calls ⟨common, fault⟩
    exact ⟨common.side false, Fault.side false fault⟩
  rintro one calls ⟨common, newLeft, leftRoot, leftEntries⟩
  refine Logs.bind (right calls) ?_ ?_
  · rintro thrown more ⟨commonMore, fault⟩
    exact ⟨common.both commonMore, (Fault.side true fault).after⟩
  rintro two more ⟨commonMore, newRight, rightRoot, rightEntries⟩
  refine .lift ?_
  rw [append_nil]
  refine ⟨common.both commonMore, (Ensures.weaken (joins leftRoot rightRoot) fun _ overflow => .inl overflow).imp ?_⟩
  intro root denotes
  refine ⟨_, denotes, .under (fun _ => rfl) label (BitMap.Everywhere.fork false rfl ?_ ?_)⟩
  · intro key
    have merges := Merges.within [] more (by simpa using leftEntries key)
    simpa using merges
  · intro key
    have merges := Merges.within calls [] (rightEntries key)
    simpa using merges

variable {map : BitMap CellSlice} {place : List Bool → List Bool}

private lemma Payload.exists_key {rest : CellSlice} (payload : Payload labels m rest map) :
    ∃ key value, map key = some value := by
  have node := payload.node (labels.chosen (show [].length ≤ m by simp)) (by simp)
  simpa using node.nonempty

private lemma Root.exists_key {root : Option Cell} (denotes : Root labels m root map) (isSome : root.isSome) :
    ∃ key value, map key = some value := by
  cases root with
  | none => cases isSome
  | some cell => exact Node.nonempty denotes

private lemma atChild {child : Cell} (keyBuffer : List Bool) (node : Node labels m child map) :
    Skipped labels keyBuffer m 0 (some child) map := by
  have root : Root labels m (some child) map := node
  exact root.skipped keyBuffer

private lemma combineLeaf_combines (labels : Labelling) (combineFunc : CombineFunc) (mode : Nat)
    (log : List CombineCall) (keyBuffer label : List Bool) (value1 value2 : CellSlice)
    (length : n = label.length) (bound : n ≤ 1023) :
    Logs (combineLeaf combineFunc (value1, value2, keyBuffer ++ label) label label.length n) log
      (Combines combineFunc mode labels keyBuffer n (.under label (.point value1)) (.under label (.point value2)) log) := by
  have stored := appendDictLabel_yields .new [] (Nat.le_of_eq length.symm) bound
  rw [append_nil] at stored
  have called : CommonCalls keyBuffer (.under label (.point value1)) (.under label (.point value2))
      [(value1, value2, keyBuffer ++ label)] := by
    refine ⟨pairwise_singleton _ _, fun args member => ?_⟩
    obtain rfl := mem_singleton.mp member
    exact ⟨label, rfl, by simp, by simp⟩
  have entries : ∀ new, combineFunc.Answers (log ++ [], value1, value2, keyBuffer ++ label) (.ok new) →
      BitMap.Everywhere (fun key => Merges combineFunc mode log
        [(value1, value2, keyBuffer ++ label)] (keyBuffer ++ key))
        (.under label (.point value1)) (.under label (.point value2))
        (.under label (new.elim .empty .point)) := by
    intro new answers
    refine .under (fun _ => rfl) label fun key => ?_
    have isNew : (new.elim .empty .point : BitMap CellSlice) [] = new := by cases new <;> rfl
    cases key with
    | nil =>
      rw [isNew]
      exact ⟨[], [], by simp, by simpa using answers⟩
    | cons bit key => cases new <;> rfl
  unfold combineLeaf
  refine Logs.lift_bind stored (fun thrown overflow => ⟨.nil _ _ _, .inl overflow⟩) ?_
  rintro cb rfl
  have asked : Logs (call (fun calls args => combineFunc.run (calls, args) _)
      (value1, value2, keyBuffer ++ label)) log fun result calls =>
      result = combineFunc.run (log, value1, value2, keyBuffer ++ label)
        { CellBuilder.new with bits := CellBuilder.new.bits ++ dictLabel n label } ∧
      calls = [(value1, value2, keyBuffer ++ label)] := ⟨_, _, call_run _ _ _, rfl, rfl⟩
  refine asked.bind ?_ ?_
  · rintro thrown calls ⟨failed, rfl⟩
    exact ⟨called, .inr (.inr ⟨[], _, rfl, _, by simpa using failed.symm⟩)⟩
  rintro answer calls ⟨returned, rfl⟩
  cases answer with
  | none =>
    refine .lift ⟨called, _, ?_, entries none ⟨_, by simpa using returned.symm⟩⟩
    exact BitMap.under_empty label
  | some cb =>
    obtain ⟨value, rfl⟩ := combineFunc.appends _ _ _ returned.symm
    have node := (Payload.leaf value).node (labels.chosen (Nat.le_of_eq length.symm)) length
    refine Logs.lift_bind (CellBuilder.finalize_yields _) (fun thrown overflow => ⟨called, .inl overflow⟩) ?_
    rintro cell rfl
    refine .lift ⟨called, _, ?_, entries (some value) ⟨_, by simpa using returned.symm⟩⟩
    simpa [CellBuilder.append, CellBuilder.new, Root] using node

private lemma forbids_three : forbids mode 3 = (forbids mode 1 || forbids mode 2) := by
  have both : mode &&& 3 = (mode &&& 1) ||| (mode &&& 2) := Nat.and_or_distrib_left mode 1 2
  unfold forbids
  rw [both, ← Bool.decide_or, decide_eq_decide, ne_eq, Nat.or_eq_zero_iff, not_and_or]

private lemma merges_first (allowed : forbids mode 2 = false) (map : BitMap CellSlice) :
    BitMap.Everywhere (fun key => Merges combineFunc mode log [] (place key)) map .empty map := by
  intro key
  cases found : map key with
  | none => rfl
  | some value => exact ⟨allowed, rfl⟩

private lemma merges_second (allowed : forbids mode 1 = false) (map : BitMap CellSlice) :
    BitMap.Everywhere (fun key => Merges combineFunc mode log [] (place key)) .empty map map := by
  intro key
  cases found : map key with
  | none => rfl
  | some value => exact ⟨allowed, rfl⟩

private lemma combine_emptyFirst {dict2 : Option Cell} (root2 : Root labels n dict2 map2) (skip1 : Nat) :
    Logs (dictCombineWith none dict2 keyBuffer n combineFunc mode skip1 0) log
      (Combines combineFunc mode labels keyBuffer n .empty map2 log) := by
  rw [dictCombineWith.eq_def]
  simp only [ensure_eq trivial, lift_ok_bind]
  cases dict2 with
  | none =>
    obtain rfl : map2 = .empty := root2
    rw [Option.isSome_none, Bool.and_false, if_neg (by decide)]
    exact Logs.combines (.ok none) ⟨.empty, rfl, fun key => rfl⟩
  | some cell2 =>
    rw [Option.isSome_some, Bool.and_true]
    cases allowed : forbids mode 1 with
    | true =>
      obtain ⟨key, value, found⟩ := Node.nonempty root2
      rw [if_pos rfl]
      exact Logs.combines (.error .combineError) (.inr ⟨rfl, key, .inl ⟨allowed, rfl, by simp [found]⟩⟩)
    | false =>
      rw [if_neg (by decide)]
      exact Logs.combines (.ok (some cell2)) ⟨map2, root2, merges_second allowed map2⟩

private lemma combine_emptySecond {cell1 : Cell} (root1 : Root labels n (some cell1) map1) (skip2 : Nat) :
    Logs (dictCombineWith (some cell1) none keyBuffer n combineFunc mode 0 skip2) log
      (Combines combineFunc mode labels keyBuffer n map1 .empty log) := by
  rw [dictCombineWith.eq_def]
  simp only [ensure_eq trivial, lift_ok_bind]
  cases allowed : forbids mode 2 with
  | true =>
    obtain ⟨key, value, found⟩ := Node.nonempty root1
    rw [if_pos rfl]
    exact Logs.combines (.error .combineError) (.inr ⟨rfl, key, .inr ⟨allowed, by simp [found], rfl⟩⟩)
  | false =>
    rw [if_neg (by decide)]
    exact Logs.combines (.ok (some cell1)) ⟨map1, root1, merges_first allowed map1⟩

private lemma violates_apart {shared rest1 rest2 : List Bool} (bit : Bool) (forbidden : forbids mode 3 = true)
    (some1 : ∃ key value, map1 key = some value) (some2 : ∃ key value, map2 key = some value) :
    Violates mode (.under shared (.fork bit .empty (.under rest1 map1)))
      (.under shared (.fork bit (.under rest2 map2) .empty)) := by
  obtain ⟨key1, value1, found1⟩ := some1
  obtain ⟨key2, value2, found2⟩ := some2
  rw [forbids_three, Bool.or_eq_true] at forbidden
  cases forbidden with
  | inl first => exact ⟨shared ++ bit :: (rest2 ++ key2), .inl ⟨first, by simp, by simp [found2]⟩⟩
  | inr second => exact ⟨shared ++ (!bit) :: (rest1 ++ key1), .inr ⟨second, by simp [found1], by simp⟩⟩

/-- Two forks at the same place are merged side by side. -/
private lemma combine_bothForks {left1 left2 right1 right2 : BitMap CellSlice} {child1 child2 : CombineM (Option Cell)}
    (left : Logs child1 log (Combines combineFunc mode labels (keyBuffer ++ label ++ [false]) m left1 left2 log))
    (right : ∀ calls, Logs child2 (log ++ calls)
      (Combines combineFunc mode labels (keyBuffer ++ label ++ [true]) m right1 right2 (log ++ calls)))
    (split : n = label.length + (m + 1)) (bound : n ≤ 1023) :
    Logs (do
        let _ ← appendDictLabel .new label label.length n
        let c1 ← child1
        let c2 ← child2
        joinChildren finishCreateFork label label.length n c1 c2 : CombineM (Option Cell)) log
      (Combines combineFunc mode labels keyBuffer n (.under label (.branch left1 right1)) (.under label (.branch left2 right2)) log) := by
  have stored := appendDictLabel_yields .new [] (show label.length ≤ n by omega) bound
  rw [append_nil] at stored
  refine Logs.lift_bind stored (fun thrown overflow => ⟨.nil _ _ _, .inl overflow⟩) ?_
  intro _ _
  refine Logs.combineBoth left right ?_
  intro one two newLeft newRight leftRoot rightRoot
  have joined := joinSides_yields false [] leftRoot rightRoot split bound
  rwa [append_nil] at joined

/-- One dictionary has a fork and the other goes to one of its children. What the fork has on the
other side is kept, if the mode allows it. -/
private lemma combine_oneFork {bits : Nat} {c1 c2 : Cell} {left right : BitMap CellSlice} {child : CombineM (Option Cell)}
    (bit : Bool) (tail : List Bool) (leftNode : Node labels m c1 left) (rightNode : Node labels m c2 right)
    (violates : forbids mode bits = true → Violates mode (.under label (.fork bit own1 other1)) (.under label (.fork bit own2 other2)))
    (kept : forbids mode bits = false → BitMap.Everywhere
      (fun key => Merges combineFunc mode log [] (keyBuffer ++ label ++ [!bit] ++ key)) other1 other2 (if bit then left else right))
    (own : Logs child log (Combines combineFunc mode labels (keyBuffer ++ label ++ [bit]) m own1 own2 log))
    (split : n = label.length + (m + 1)) (bound : n ≤ 1023) :
    Logs (if forbids mode bits = true then throw .combineError
        else do
          let child ← child
          joinChildren finishCreateFork (label ++ bit :: tail) label.length n
            (if bit then some c1 else child) (if bit then child else some c2) : CombineM (Option Cell)) log
      (Combines combineFunc mode labels keyBuffer n (.under label (.fork bit own1 other1)) (.under label (.fork bit own2 other2)) log) := by
  cases allowed : forbids mode bits with
  | true =>
    rw [if_pos rfl]
    exact Logs.combines (.error .combineError) (.inr ⟨rfl, violates allowed⟩)
  | false =>
    rw [if_neg (by decide)]
    refine Logs.combineSide bit own (kept allowed) ?_
    intro one ownNew ownRoot
    exact joinChild_yields bit (bit :: tail) ownRoot leftNode rightNode split bound

/-- Dictionaries whose keys leave each other become the children of a new fork. -/
private lemma combine_apart {label1 label2 rest1 rest2 : List Bool} {parser1 parser2 : LabelParser} {slice1 slice2 : CellSlice}
    {inner1 inner2 : BitMap CellSlice} {m1 m2 : Nat} (bit : Bool)
    (reads1 : parser1.Reads label1 slice1) (reads2 : parser2.Reads label2 slice2)
    (payload1 : Payload labels m1 slice1 inner1) (payload2 : Payload labels m2 slice2 inner2)
    (sameLength : rest1.length + m1 = rest2.length + m2) (split : n = label.length + (rest1.length + m1 + 1)) (bound : n ≤ 1023) :
    Logs (if forbids mode 3 = true then throw .combineError
        else do
          let pruned1 ← pruneLabel parser1 rest1 (rest1.length + m1) pruneMessage
          let pruned2 ← pruneLabel parser2 rest2 (rest1.length + m1)
            "cannot change label of an old dictionary cell while merging edges"
          let cell ← forkBySide bit (label ++ bit :: rest2) label.length n (some pruned1) (some pruned2)
          return some cell : CombineM (Option Cell)) log
      (Combines combineFunc mode labels keyBuffer n (.under label (.fork bit .empty (.under rest1 inner1)))
        (.under label (.fork bit (.under rest2 inner2) .empty)) log) := by
  cases allowed : forbids mode 3 with
  | true =>
    rw [if_pos rfl]
    exact Logs.combines (.error .combineError) (.inr ⟨rfl,
      violates_apart bit allowed payload1.exists_key payload2.exists_key⟩)
  | false =>
    obtain ⟨allowed1, allowed2⟩ : forbids mode 1 = false ∧ forbids mode 2 = false := by
      simpa [forbids_three] using allowed
    rw [if_neg (by decide)]
    refine Logs.lift_bind (pruneLabel_yields pruneMessage reads1 payload1 rfl (by omega))
      (fun thrown overflow => ⟨.nil _ _ _, .inl overflow⟩) ?_
    intro pruned1 prunedNode1
    refine Logs.lift_bind (pruneLabel_yields _ reads2 payload2 sameLength (by omega))
      (fun thrown overflow => ⟨.nil _ _ _, .inl overflow⟩) ?_
    intro pruned2 prunedNode2
    have forked := forkBySide_yields (bit :: rest2) bit prunedNode2 prunedNode1 split bound
    rw [lift_bind_pure]
    refine Logs.combines _ ((Ensures.weaken forked fun _ overflow => .inl overflow).imp ?_)
    intro root denotes
    refine ⟨_, denotes, .under (fun _ => rfl) label (.fork _ rfl ?_ ?_)⟩
    · exact merges_second allowed1 _
    · exact merges_first allowed2 _

lemma dictCombineWith_combines {skip1 skip2 : Nat} {dict1 dict2 : Option Cell}
    (below1 : Skipped labels keyBuffer n skip1 dict1 map1)
    (below2 : Skipped labels keyBuffer n skip2 dict2 map2) (skips1 : dict2 = none → skip1 = 0)
    (skips2 : dict1 = none → skip2 = 0) (combineFunc : CombineFunc) (mode : Nat) (bound : n ≤ 1023) (log : List CombineCall) :
    Logs (dictCombineWith dict1 dict2 keyBuffer n combineFunc mode skip1 skip2) log
      (Combines combineFunc mode labels keyBuffer n map1 map2 log) := by
  induction n using Nat.strongRecOn
    generalizing keyBuffer dict1 dict2 skip1 skip2 map1 map2 log with
  | _ n ih =>
    rcases dict1 with _ | cell1
    · obtain rfl : map1 = .empty := below1
      obtain rfl := skips2 rfl
      exact combine_emptyFirst below2.root skip1
    rcases dict2 with _ | cell2
    · obtain rfl : map2 = .empty := below2
      obtain rfl := skips1 rfl
      exact combine_emptySecond below1.root skip2
    rw [dictCombineWith.eq_def]
    obtain ⟨front1, above1, buffer1, rfl, parser1, label1, rest1, inner1, m1, node1, parsed1,
      reads1, payload1, split1, rfl⟩ := below1
    obtain ⟨front2, above2, buffer2, rfl, parser2, label2, rest2, inner2, m2, node2,
      parsed2, reads2, payload2, split2, rfl⟩ := below2
    simp only [LabelPair.parse_eq buffer1 buffer2 parsed1 parsed2 reads1 reads2, lift_ok_bind]
    obtain ⟨shared, labelRest2, labelRest1, rfl, rfl, isShared, apart⟩ := commonPrefix_split label2 label1
    simp only [isShared]
    cases labelRest1 with
    | nil =>
      cases labelRest2 with
      | nil =>
        simp only [append_nil] at split1 split2 ⊢
        rw [if_neg (by omega)]
        cases payload1 with
        | leaf value1 =>
          cases payload2 with
          | leaf value2 =>
            rw [dif_neg (by omega), reads1.payload_eq, reads2.payload_eq]
            exact combineLeaf_combines labels combineFunc mode log keyBuffer shared rest1 rest2 split1 bound
          | fork => omega
        | @fork m left1 right1 leftMap1 rightMap1 leftNode1 rightNode1 =>
          cases payload2 with
          | leaf value2 => omega
          | @fork m2 left2 right2 leftMap2 rightMap2 leftNode2 rightNode2 =>
            obtain rfl : m = m2 := by omega
            have descend : n - shared.length - 1 = m := by omega
            rw [dif_pos (by omega), if_pos (by simp)]
            simp only [descend, CellSlice.prefetchRef, reads1.refs, reads2.refs]
            exact combine_bothForks
              (ih m (by omega) (atChild _ leftNode1) (atChild _ leftNode2) (fun _ => rfl) (fun _ => rfl) (by omega) log)
              (fun calls => ih m (by omega) (atChild _ rightNode1) (atChild _ rightNode2) (fun _ => rfl) (fun _ => rfl)
                (by omega) (log ++ calls)) split1 bound
      | cons bit labelRest2 =>
        simp only [append_nil, length_append, length_cons] at split1 split2
        rw [if_neg (by simp), dif_pos (by omega), if_neg (by simp), if_pos (by simp)]
        cases payload1 with
        | leaf value1 => omega
        | @fork m left1 right1 leftMap1 rightMap1 leftNode1 rightNode1 =>
          have descend : n - shared.length - 1 = m := by omega
          obtain rfl : m = labelRest2.length + m2 := by omega
          have deeper := atDeeper front2 node2 parsed2 reads2 payload2 (by omega)
          rw [← buffer2] at deeper
          have child := sideRoot leftNode1 rightNode1 bit
          have other := sideRoot rightNode1 leftNode1 bit
          rw [append_nil, BitMap.branch_eq_fork bit, BitMap.under_eq_fork]
          simp only [descend, getD_after, take_after, CellSlice.prefetchRef, reads1.refs,
            ← append_assoc, getElem?_cons_zero, getElem?_cons_succ,
            ensure_eq (sideRoot_isSome bit left1 right1), lift_ok_bind]
          refine combine_oneFork bit labelRest2 leftNode1 rightNode1 ?_ (fun allowed => merges_first allowed _) ?_ split1 bound
          · intro forbidden
            obtain ⟨key, value, found⟩ := other.exists_key (sideRoot_isSome bit left1 right1)
            exact ⟨shared ++ (!bit) :: key, .inr ⟨forbidden, by simp [found], by simp⟩⟩
          · exact ih _ (by omega) (child.skipped _) deeper (fun isNone => by cases isNone)
              (fun isNone => absurd (isNone ▸ sideRoot_isSome bit right1 left1) (by decide)) (by omega) log
    | cons bit1 labelRest1 =>
      cases labelRest2 with
      | nil =>
        simp only [append_nil, length_append, length_cons] at split1 split2
        rw [if_neg (by simp), dif_pos (by omega), if_neg (by simp), if_neg (by simp)]
        cases payload2 with
        | leaf value2 => omega
        | @fork m left2 right2 leftMap2 rightMap2 leftNode2 rightNode2 =>
          have descend : n - shared.length - 1 = m := by omega
          obtain rfl : m = labelRest1.length + m1 := by omega
          have deeper := atDeeper front1 node1 parsed1 reads1 payload1 (by omega)
          rw [← buffer1] at deeper
          have child := sideRoot leftNode2 rightNode2 bit1
          have other := sideRoot rightNode2 leftNode2 bit1
          rw [append_nil, BitMap.branch_eq_fork bit1, BitMap.under_eq_fork]
          simp only [descend, getD_after, take_after, CellSlice.prefetchRef, reads2.refs,
            ← append_assoc, getElem?_cons_zero, getElem?_cons_succ,
            ensure_eq (sideRoot_isSome bit1 left2 right2), lift_ok_bind]
          refine combine_oneFork bit1 labelRest1 leftNode2 rightNode2 ?_ (fun allowed => merges_second allowed _) ?_ split2 bound
          · intro forbidden
            obtain ⟨key, value, found⟩ := other.exists_key (sideRoot_isSome bit1 left2 right2)
            exact ⟨shared ++ (!bit1) :: key, .inl ⟨forbidden, by simp, by simp [found]⟩⟩
          · exact ih _ (by omega) deeper (child.skipped _)
              (fun isNone => absurd (isNone ▸ sideRoot_isSome bit1 right2 left2) (by decide))
              (fun isNone => by cases isNone) (by omega) log
      | cons bit2 labelRest2 =>
        simp only [length_append, length_cons] at split1 split2
        have descend1 : n - shared.length - 1 = labelRest1.length + m1 := by omega
        have descend2 : labelRest1.length + m1 = labelRest2.length + m2 := by omega
        obtain rfl : bit1 = !bit2 := Bool.eq_not_of_ne (apart bit2 bit1 labelRest2 labelRest1 rfl rfl).symm
        rw [if_pos (by simp), BitMap.under_eq_fork, BitMap.under_eq_fork, BitMap.fork_not]
        simp only [descend1, drop_after, getD_after]
        exact combine_apart bit2 reads1 reads2 payload1 payload2 descend2 (by omega) bound

end Combine

end TonNode.Vm
