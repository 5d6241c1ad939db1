import TonNode.Vm.DictBulk
import TonNode.Vm.DictOperations

/-!
# Operations on whole dictionaries keep the form of the nodes

Mapping, filtering and prefix subdictionaries build every node they change with the label the code
chooses, and no fork is left with one child.
-/

namespace TonNode.Vm

open Lib List

variable {labels : Labelling}

/-- A computation that throws an exception, but passes its assertions, or returns a value that
`holds`. -/
abbrev Completes {α : Type} (result : Except Thrown α) (holds : α → Prop) : Prop :=
  Ensures (· ≠ .assertion) result holds

lemma Yields.completes {α : Type} {result : Except Thrown α} {holds : α → Prop}
    (yields : Yields result holds) : Completes result holds := by
  refine Ensures.weaken yields ?_
  rintro thrown overflow rfl
  exact overflow

def WellFormed (labels : Labelling) (n : Nat) (root : Option Cell) : Prop :=
  ∃ map, Root labels n root map

lemma WellFormed.none (n : Nat) : WellFormed labels n none := ⟨.empty, rfl⟩

variable {n m keyBits : Nat} {dict : Option Cell} {cell : Cell} {map : BitMap CellSlice} {c1 c2 : Option Cell}

lemma Node.wellFormed (node : Node labels n cell map) :
    WellFormed labels n (some cell) := ⟨map, node⟩

private lemma joinChildren_wellFormed {fork : List Bool → Nat → Nat → Option Cell → Option Cell → Except Thrown Cell}
    (label tail : List Bool) (forkYields : ∀ one two left right, Node labels m one left → Node labels m two right →
      Yields (fork (label ++ tail) label.length n (some one) (some two))
        (fun cell => Node labels n cell (.under label (.branch left right))))
    (leftRoot : WellFormed labels m c1) (rightRoot : WellFormed labels m c2)
    (length : n = label.length + (m + 1)) (bound : n ≤ 1023) :
    Completes (joinChildren fork (label ++ tail) label.length n c1 c2) (WellFormed labels n) := by
  obtain ⟨left, leftRoot⟩ := leftRoot
  obtain ⟨right, rightRoot⟩ := rightRoot
  refine Yields.completes ((joinChildren_yields (fun one two => forkYields one two left right)
    leftRoot rightRoot length bound).imp ?_)
  intro root denotes
  exact ⟨_, denotes⟩

lemma joinFork_wellFormed (label tail : List Bool) (leftRoot : WellFormed labels m c1) (rightRoot : WellFormed labels m c2)
    (length : n = label.length + (m + 1)) (bound : n ≤ 1023) :
    Completes (joinChildren finishCreateFork (label ++ tail) label.length n c1 c2) (WellFormed labels n) :=
  joinChildren_wellFormed label tail
    (fun _ _ _ _ leftNode rightNode =>
      finishCreateFork_yields tail leftNode rightNode length bound)
    leftRoot rightRoot length bound

lemma createLeafWith_wellFormed {Args : Type} (labels : Labelling) (func : LeafFunc Args)
    (args : Args) (label tail : List Bool) (length : n = label.length) (bound : n ≤ 1023) :
    Completes (createLeafWith func args (label ++ tail) label.length n) (WellFormed labels n) := by
  refine (Yields.completes (appendDictLabel_yields .new tail (Nat.le_of_eq length.symm) bound)).bind_eq ?_
  cases ran : func.run args _ with
  | error thrown =>
    intro isAssertion
    rw [isAssertion] at ran
    exact func.asserts _ _ ran
  | ok stored =>
    cases stored with
    | none => exact WellFormed.none n
    | some cb =>
      obtain ⟨value, rfl⟩ := func.appends _ _ _ ran
      refine (Yields.completes (CellBuilder.finalize_yields _)).bind_eq ?_
      have node := (Payload.leaf value).node (labels.chosen (Nat.le_of_eq length.symm)) length
      exact ⟨_, by simpa [CellBuilder.append, CellBuilder.new, Root] using node⟩

lemma dictMap_wellFormed (root : WellFormed labels n dict) (keyBuffer : List Bool) (mapFunc : MapFunc) (bound : n ≤ 1023) :
    Completes (dictMap dict keyBuffer n mapFunc) (WellFormed labels n) := by
  induction n using Nat.strongRecOn generalizing dict keyBuffer with
  | _ n ih =>
    obtain ⟨map, root⟩ := root
    rw [dictMap.eq_def]
    cases dict with
    | none => exact WellFormed.none n
    | some cell =>
      obtain ⟨parser, label, rest, inner, m, parsed, reads, payload, split, rfl⟩ := Node.parse root
      simp only [parsed, ok_bind, reads.bits_eq, reads.length, reads.payload_eq]
      cases payload with
      | leaf value =>
        rw [dif_neg (by omega)]
        have created := createLeafWith_wellFormed labels mapFunc (rest, keyBuffer ++ label) label [] (n := n) (by omega) bound
        rwa [append_nil] at created
      | @fork m c1 c2 left right leftNode rightNode =>
        have descend : n - label.length - 1 = m := by omega
        have smaller : m < n := by omega
        rw [dif_pos (by omega)]
        simp only [descend, CellSlice.prefetchRef, reads.refs]
        refine (ih m smaller leftNode.wellFormed _ (by omega)).bind ?_
        intro newLeft leftRoot
        refine (ih m smaller rightNode.wellFormed _ (by omega)).bind ?_
        intro newRight rightRoot
        have joined := joinChildren_wellFormed label []
          (fun _ _ _ _ leftNode rightNode =>
            createFork_yields [] leftNode rightNode split bound)
          leftRoot rightRoot split bound
        rwa [append_nil] at joined

lemma dictFilter_wellFormed (root : WellFormed labels n dict) (keyBuffer : List Bool)
    (checkLeaf : FilterFunc) (skipRest : Int) (bound : n ≤ 1023) : Completes (dictFilter dict keyBuffer n checkLeaf skipRest)
      (fun result => 0 < result.2.1 → WellFormed labels n result.1) := by
  induction n using Nat.strongRecOn generalizing dict keyBuffer skipRest with
  | _ n ih =>
    obtain ⟨map, root⟩ := root
    rw [dictFilter.eq_def]
    cases dict with
    | none => exact fun _ => WellFormed.none n
    | some cell =>
      simp only
      split
      · exact fun _ => WellFormed.none n
      obtain ⟨parser, label, rest, inner, m, parsed, reads, payload, split, rfl⟩ := Node.parse root
      simp only [parsed, ok_bind, reads.bits_eq, reads.length, reads.payload_eq]
      rw [ensure_eq (by omega), ok_bind]
      cases payload with
      | leaf value =>
        rw [dif_neg (by omega)]
        cases decided : checkLeaf.run rest (keyBuffer ++ label) with
        | error thrown =>
          intro isAssertion
          rw [isAssertion] at decided
          exact checkLeaf.asserts _ _ decided
        | ok res => exact fun _ => WellFormed.none n
      | @fork m c1 c2 left right leftNode rightNode =>
        have descend : n - label.length - 1 = m := by omega
        have smaller : m < n := by omega
        rw [dif_pos (by omega)]
        simp only [descend, CellSlice.prefetchRef, reads.refs]
        refine (ih m smaller leftNode.wellFormed _ skipRest (by omega)).bind ?_
        rintro ⟨newLeft, leftChanges, skipLeft⟩ leftRoot
        simp only at leftRoot ⊢
        split
        · exact fun (positive : 0 < leftChanges) => absurd positive (by omega)
        refine (ih m smaller rightNode.wellFormed _ skipLeft (by omega)).bind ?_
        rintro ⟨newRight, rightChanges, skipRight⟩ rightRoot
        simp only at rightRoot ⊢
        split
        · exact fun (positive : 0 < rightChanges) => absurd positive (by omega)
        have keptLeft : WellFormed labels m
            (if leftChanges ≠ 0 then newLeft else [c1, c2][0]?) := by
          split
          · exact leftRoot (by omega)
          · exact leftNode.wellFormed
        have keptRight : WellFormed labels m
            (if rightChanges ≠ 0 then newRight else [c1, c2][1]?) := by
          split
          · exact rightRoot (by omega)
          · exact rightNode.wellFormed
        have joined := joinFork_wellFormed label [] keptLeft keptRight split bound
        rw [append_nil] at joined
        refine joined.bind ?_
        intro newRoot denotes
        exact fun _ => denotes

def cutKeyBits (keyBits : Nat) (pfx : List Bool) (removePrefix : Bool) : Nat :=
  if removePrefix then keyBits - pfx.length else keyBits

private lemma prefixSubdictRoot_yields {parser : LabelParser} {label pfx : List Bool}
    {rest : CellSlice} (reads : parser.Reads label rest) (reached : pfx.length ≤ m + label.length)
    (used : m ≤ pfx.length) (fits : m + label.length ≤ keyBits) (bound : keyBits ≤ 1023) (removePrefix : Bool) :
    ∃ newLabel, newLabel.length + (keyBits - (m + label.length)) = cutKeyBits keyBits pfx removePrefix ∧
      Yields (prefixSubdictRoot parser pfx keyBits m removePrefix)
        (· = ⟨dictLabel (cutKeyBits keyBits pfx removePrefix) newLabel, []⟩) := by
  unfold prefixSubdictRoot cutKeyBits
  simp only [reads.length, reads.bits_eq]
  cases removePrefix with
  | false =>
    have length : (pfx.take m ++ label).length = m + label.length := by
      rw [length_append, length_take, Nat.min_eq_left used]
    refine ⟨pfx.take m ++ label, ?_, ?_⟩
    · rw [length, if_neg Bool.false_ne_true]
      omega
    · have stored := appendDictLabel_yields .new [] (Nat.le_trans (Nat.le_of_eq length) fits) bound
      rw [append_nil, length] at stored
      rw [if_neg Bool.false_ne_true, if_neg Bool.false_ne_true]
      exact stored
  | true =>
    let dropped := label.length - (m + label.length - pfx.length)
    have length : (label.drop dropped).length = m + label.length - pfx.length := by
      rw [length_drop]
      omega
    refine ⟨label.drop dropped, ?_, ?_⟩
    · rw [length, if_pos rfl]
      omega
    rw [if_pos rfl, if_pos rfl]
    rcases reads.shape with ⟨plain, _, _⟩ | ⟨repeated, _, uniform, _⟩
    · have stored := appendDictLabel_yields .new []
        (show (label.drop dropped).length ≤ keyBits - pfx.length by omega) (by omega)
      rw [append_nil, length] at stored
      rw [if_pos plain]
      exact stored
    · have same : List.replicate (m + label.length - pfx.length) parser.same =
          label.drop dropped := by
        rw [← length, eq_comm, eq_replicate_iff]
        rw [eq_replicate_iff] at uniform
        exact ⟨rfl, fun bit member => uniform.2 bit (mem_of_mem_drop member)⟩
      have stored := appendDictLabelSame_yields .new parser.same
        (show m + label.length - pfx.length ≤ keyBits - pfx.length by omega) (by omega)
      rw [same] at stored
      rw [if_neg repeated]
      exact stored

lemma prefixSubdictLoop_wellFormed {pfx : List Bool} (node : Node labels (keyBits - m) cell map) (used : m ≤ pfx.length)
    (fits : pfx.length ≤ keyBits) (bound : keyBits ≤ 1023) (removePrefix : Bool) :
    Completes (prefixSubdictLoop (some cell) pfx keyBits m removePrefix) (fun result =>
      if result.2 then WellFormed labels (cutKeyBits keyBits pfx removePrefix) result.1 else removePrefix = false) := by
  induction distance : pfx.length - m using Nat.strongRecOn generalizing cell map m with
  | _ distance ih =>
    obtain ⟨parser, label, rest, inner, k, parsed, reads, payload, split, rfl⟩ := node.parse
    rw [prefixSubdictLoop.eq_def, parsed, ok_bind]
    simp only [reads.length, reads.payload_eq]
    split
    · exact WellFormed.none _
    split
    next longer =>
      cases payload with
      | leaf value => omega
      | @fork k c1 c2 left right leftNode rightNode =>
        have below : keyBits - (m + label.length + 1) = k := by omega
        rw [reads.prefetchRef_eq]
        cases pfx.getD (m + label.length) false with
        | false => exact ih _ (by omega) (below ▸ leftNode) (by omega) rfl
        | true => exact ih _ (by omega) (below ▸ rightNode) (by omega) rfl
    · split
      next unchanged =>
        simp only [Bool.and_eq_true, Bool.not_eq_true', decide_eq_true_eq] at unchanged
        exact unchanged.1
      · obtain ⟨newLabel, length, stored⟩ := prefixSubdictRoot_yields reads (by omega) used (by omega) bound removePrefix
        refine (Yields.completes stored).bind_eq ?_
        refine (Yields.completes (orThrow_addSlice_yields _ rest (by trivial))).bind_eq ?_
        refine (Yields.completes (CellBuilder.finalize_yields _)).bind_eq ?_
        have node := payload.node (labels.chosen (by omega))
          (show cutKeyBits keyBits pfx removePrefix = newLabel.length + k by omega)
        exact ⟨_, by simpa [CellBuilder.append, Root] using node⟩

lemma extractPrefixSubdictInternal_wellFormed (root : WellFormed labels keyBits dict)
    (pfx : List Bool) (bound : keyBits ≤ 1023) (removePrefix : Bool) (fits : removePrefix = true → pfx.length ≤ keyBits) :
    Completes (extractPrefixSubdictInternal dict pfx keyBits removePrefix) (fun result =>
      WellFormed labels (cutKeyBits keyBits pfx removePrefix) (if result.2 then result.1 else dict)) := by
  obtain ⟨map, root⟩ := root
  unfold extractPrefixSubdictInternal
  split
  next trivialCut =>
    cases dict with
    | none => exact WellFormed.none _
    | some cell =>
      have noPrefix : pfx.length = 0 := by simpa using trivialCut
      have same : cutKeyBits keyBits pfx removePrefix = keyBits := by
        unfold cutKeyBits
        split <;> omega
      rw [same]
      exact ⟨map, root⟩
  · split
    · exact WellFormed.none _
    next notTrivial notLong =>
      cases dict with
      | none => simp at notTrivial
      | some cell =>
        refine (prefixSubdictLoop_wellFormed (m := 0) root (by omega) (by omega) bound removePrefix).imp ?_
        rintro ⟨newRoot, changed⟩ result
        cases changed with
        | true => exact result
        | false =>
          obtain rfl : removePrefix = false := result
          exact ⟨map, root⟩

end TonNode.Vm
