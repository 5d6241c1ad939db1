import TonNode.Vm.DictCombineProperties

/-!
# Comparing dictionaries as maps

`scan_diff` visits the keys at which two plain or augmented dictionaries differ, and no others.
-/

namespace TonNode.Vm

open Lib List BitMap

namespace LabelParser

/-- What the mode allows after the label of a fork. -/
def AllowsFork (rest : CellSlice) : LabelMode → Prop
  | .chkAll => rest.bits = [] ∧ rest.refs.length = 2
  | .chkSize => 2 ≤ rest.refs.length

lemma ofCellWith_reads {n : Nat} {label encoded : List Bool} (mode : LabelMode) (rest : CellSlice)
    (encoding : LabelEncoding n label encoded) (fork : label.length < n → AllowsFork rest mode) :
    ∃ parser, ofCellWith mode (some (.mk .ordinary (encoded ++ rest.bits) rest.refs)) n =
      .ok parser ∧ parser.Reads label rest := by
  cases mode with
  | chkAll => exact ofCell_reads rest encoding fork
  | chkSize =>
    obtain ⟨parser, parsed, reads⟩ := parseLabel_reads rest encoding
    refine ⟨parser, ?_, reads⟩
    have fits := encoding.length_le
    have valid : parser.validateSimple n = .ok () := by
      unfold validateSimple
      rw [reads.length, if_neg (Nat.not_lt.mpr fits), if_neg]
      rintro ⟨inner, short | few⟩
      · rcases reads.shape with ⟨_, skip, bits⟩ | ⟨_, skip, _, bits⟩
        · rw [bits, skip, length_append] at short
          omega
        · rw [skip] at short
          omega
      · have enough : 2 ≤ rest.refs.length := fork inner
        rw [reads.refs] at few
        omega
    simp only [ofCellWith, loadCellSlice, ok_bind, parsed, orThrow, valid, pure_eq_ok]

end LabelParser

mutual

/-- A cell that is the node of a map on `n`-bit keys below `path`, accepted by the checks if
they are `checked`. -/
inductive ScanNode (kind : DictionaryKind) (checked : Bool) (cells : Set Cell) :
    List Bool → Nat → Cell → BitMap CellSlice → Prop where
  | node {n m : Nat} {path label encoded : List Bool} {rest : CellSlice} {map : BitMap CellSlice} :
      LabelEncoding n label encoded → n = label.length + m →
      Cell.mk .ordinary (encoded ++ rest.bits) rest.refs ∈ cells →
      ScanPayload kind checked cells (path ++ label) m rest map →
      ScanNode kind checked cells path n (.mk .ordinary (encoded ++ rest.bits) rest.refs) (.under label map)

/-- What stands after the label of a node: a value, or two children and what an augmented
dictionary adds to them. -/
inductive ScanPayload (kind : DictionaryKind) (checked : Bool) (cells : Set Cell) :
    List Bool → Nat → CellSlice → BitMap CellSlice → Prop where
  | leaf {path : List Bool} {value : CellSlice} :
      (∀ ref ∈ value.refs, ref ∈ cells) →
      (checked = true → kind.checkLeaf value path = .ok true) →
      ScanPayload kind checked cells path 0 value (.point value)
  | fork {m : Nat} {path : List Bool} {fork : CellSlice} {c1 c2 : Cell} {refs : List Cell}
      {left right : BitMap CellSlice} :
      LabelParser.AllowsFork fork kind.labelMode → fork.refs = c1 :: c2 :: refs →
      (checked = true → kind.checkForkRaw fork (m + 1) = .ok true) →
      ScanNode kind checked cells (path ++ [false]) m c1 left →
      ScanNode kind checked cells (path ++ [true]) m c2 right →
      ScanPayload kind checked cells path (m + 1) fork (.branch left right)

end

section Scan

variable {kind : DictionaryKind} {checked : Bool} {cells : Set Cell}
variable {n m mode : Nat} {path keyBuffer label : List Bool} {cell : Cell} {rest : CellSlice}
variable {map inner : BitMap CellSlice} {parser : LabelParser}

section

variable (scanned : ScanNode kind checked cells path n cell map)
include scanned

lemma ScanNode.parse : ∃ parser label rest inner m, LabelParser.ofCellWith kind.labelMode (some cell) n = .ok parser ∧
      parser.Reads label rest ∧ ScanPayload kind checked cells (path ++ label) m rest inner ∧
      n = label.length + m ∧ map = .under label inner := by
  cases scanned with
  | @node n m path label encoded rest inner encoding length member payload =>
    have fork : label.length < n → LabelParser.AllowsFork rest kind.labelMode := by
      intro inside
      cases payload with
      | leaf => omega
      | fork allows => exact allows
    obtain ⟨parser, parsed, reads⟩ := LabelParser.ofCellWith_reads kind.labelMode rest encoding fork
    exact ⟨parser, label, rest, inner, m, parsed, reads, payload, length, rfl⟩

lemma ScanNode.mem : cell ∈ cells := by
  cases scanned with
  | node _ _ member _ => exact member

lemma ScanNode.map_unique {otherChecked : Bool} {otherPath : List Bool} {otherMap : BitMap CellSlice}
    (other : ScanNode kind otherChecked cells otherPath n cell otherMap) : map = otherMap := by
  induction n using Nat.strong_induction_on generalizing path otherPath cell map otherMap with
  | _ n ih =>
    obtain ⟨parser, label, rest, inner, m, parsed, reads, payload, length, rfl⟩ := scanned.parse
    obtain ⟨_, otherLabel, otherRest, otherInner, k, otherParsed, otherReads, otherPayload, otherLength, rfl⟩ := other.parse
    cases parsed.symm.trans otherParsed
    obtain rfl : label = otherLabel := reads.bits_eq.symm.trans otherReads.bits_eq
    obtain rfl : rest = otherRest := reads.payload_eq.symm.trans otherReads.payload_eq
    cases payload with
    | leaf =>
      cases otherPayload with
      | leaf => rfl
      | fork => omega
    | @fork m _ _ _ _ _ _ _ _ isFork _ leftNode rightNode =>
      cases otherPayload with
      | leaf => omega
      | @fork k _ _ _ _ _ _ _ _ otherFork _ otherLeft otherRight =>
        obtain ⟨rfl, rest⟩ := List.cons.inj (isFork.symm.trans otherFork)
        obtain ⟨rfl, _⟩ := List.cons.inj rest
        obtain rfl : m = k := by omega
        rw [ih _ (by omega) leftNode otherLeft, ih _ (by omega) rightNode otherRight]

end

lemma accept_eq {side : Side} {check : Except Thrown Bool}
    (accepted : forbids mode side.bit = true → check = .ok true) (invalid : Thrown) :
    accept mode side check invalid = .ok () := by
  unfold accept
  split
  next asked =>
    rw [accepted asked]
    rfl
  · rfl

lemma scanSide_visits (diffFunc : DiffFunc) (side : Side)
    (scanned : ScanNode kind (forbids mode side.bit) cells keyBuffer n cell map) :
    ∃ calls, BitMap.Differences keyBuffer (side.pair map .empty).1 (side.pair map .empty).2 calls ∧
      scanSide kind mode diffFunc side (some cell) keyBuffer n = callWhile diffFunc calls := by
  induction n using Nat.strong_induction_on generalizing keyBuffer cell map with
  | _ n ih =>
    obtain ⟨parser, label, rest, inner, m, parsed, reads, payload, length, rfl⟩ := scanned.parse
    rw [scanSide]
    simp only [parsed, lift_ok_bind, reads.length, reads.bits_eq, reads.payload_eq]
    cases payload with
    | leaf _ accepted =>
      refine ⟨[(keyBuffer ++ label, side.pair (some rest) none)], ?_, ?_⟩
      · rw [← under_empty label]
        cases side with
        | first | second => exact (BitMap.Differences.under_iff label).mpr (.single (fun same => by cases same) fun _ _ => rfl)
      · rw [dif_neg (by omega)]
        simp only [ensure_eq (show label.length = n by omega), lift_ok_bind, acceptLeaf, accept_eq accepted]
        rw [callWhile_singleton]
    | @fork m _ _ c1 c2 refs left right _ isFork accepted leftNode rightNode =>
      obtain ⟨leftCalls, leftDiffer, leftScan⟩ := ih m (by omega) leftNode
      obtain ⟨rightCalls, rightDiffer, rightScan⟩ := ih m (by omega) rightNode
      refine ⟨leftCalls ++ rightCalls, ?_, ?_⟩
      · rw [← under_empty label, ← branch_empty]
        cases side with
        | first | second => exact (BitMap.Differences.under_iff label).mpr (leftDiffer.branch rightDiffer)
      · have above : n - label.length = m + 1 := by omega
        rw [dif_pos (by omega), callWhile_append, ← leftScan, ← rightScan]
        simp only [above, Nat.add_sub_cancel, acceptFork, accept_eq accepted, lift_ok_bind,
          CellSlice.prefetchRef, isFork, getElem?_cons_zero, getElem?_cons_succ]

variable (kind checked cells) in
/-- A dictionary of the recursion, whose keys all start with the last `skip` bits of the buffer. -/
def Hangs (keyBuffer : List Bool) (n skip : Nat) : Option Cell → BitMap CellSlice → Prop
  | none, map => map = .empty
  | some cell, map => ∃ front above parser label rest inner m, keyBuffer = front ++ above ∧
      skip = above.length ∧
      ScanNode kind checked cells front (n + above.length) cell (.under above map) ∧
      LabelParser.ofCellWith kind.labelMode (some cell) (n + above.length) = .ok parser ∧
      parser.Reads (above ++ label) rest ∧
      ScanPayload kind checked cells (keyBuffer ++ label) m rest inner ∧ n = label.length + m ∧
      map = .under label inner

lemma ScanNode.hangs (scanned : ScanNode kind checked cells keyBuffer n cell map) :
    Hangs kind checked cells keyBuffer n 0 (some cell) map := by
  obtain ⟨parser, label, rest, inner, m, parsed, reads, payload, length, isMap⟩ := scanned.parse
  exact ⟨keyBuffer, [], parser, label, rest, inner, m, by simp, rfl, scanned, parsed, reads, payload, length, isMap⟩

lemma Hangs.scanNode (hangs : Hangs kind checked cells keyBuffer n 0 (some cell) map) :
    ScanNode kind checked cells keyBuffer n cell map := by
  obtain ⟨front, above, _, _, _, _, _, buffer, isEmpty, scanned, _⟩ := hangs
  obtain rfl : above = [] := eq_nil_of_length_eq_zero isEmpty.symm
  rw [buffer, append_nil]
  exact scanned

/-- Both sides of a dictionary after bits of its label that it shares with another one. -/
lemma branches_hang (side : Side) {front above shared labelRest : List Bool}
    (scanned : ScanNode kind (forbids mode side.bit) cells front (n + above.length) cell
      (.under above (.under (shared ++ labelRest) inner)))
    (parsed : LabelParser.ofCellWith kind.labelMode (some cell) (n + above.length) = .ok parser)
    (reads : parser.Reads (above ++ (shared ++ labelRest)) rest) (payload : ScanPayload kind (forbids mode side.bit) cells
      (front ++ above ++ (shared ++ labelRest)) m rest inner)
    (length : n = (shared ++ labelRest).length + m) (short : shared.length < n) : ∃ left right leftMap rightMap,
      branches kind mode side cell parser (shared ++ labelRest) n (shared ++ labelRest).length
        shared.length above.length = .ok (left, right) ∧
      Hangs kind (forbids mode side.bit) cells (front ++ above ++ shared ++ [false])
        (n - shared.length - 1) left.2 left.1 leftMap ∧
      Hangs kind (forbids mode side.bit) cells (front ++ above ++ shared ++ [true])
        (n - shared.length - 1) right.2 right.1 rightMap ∧
      under (shared ++ labelRest) inner = .under shared (.branch leftMap rightMap) ∧
      (labelRest = [] → (left.1 ≠ none ∧ left.2 = 0) ∧ right.1 ≠ none ∧ right.2 = 0) := by
  unfold branches
  cases labelRest with
  | nil =>
    simp only [append_nil] at length payload ⊢
    cases payload with
    | leaf => omega
    | @fork m _ _ c1 c2 refs left right _ isFork accepted leftNode rightNode =>
      have remains : n - shared.length = m + 1 := by omega
      rw [if_pos trivial, reads.payload_eq, remains, acceptFork, accept_eq accepted, ok_bind]
      simp only [CellSlice.prefetchRef, isFork, getElem?_cons_zero, getElem?_cons_succ]
      exact ⟨_, _, left, right, rfl, leftNode.hangs, rightNode.hangs, rfl, fun _ => ⟨⟨fun isNone => (by cases isNone), rfl⟩, fun isNone => (by cases isNone), rfl⟩⟩
  | cons bit labelRest =>
    have deeper : Hangs kind (forbids mode side.bit) cells (front ++ above ++ shared ++ [bit])
        (n - shared.length - 1) (above.length + shared.length + 1) (some cell)
        (.under labelRest inner) := by
      simp only [length_append, length_cons] at length
      have total : n - shared.length - 1 + (above ++ shared ++ [bit]).length =
          n + above.length := by
        simp only [length_append, length_singleton]
        omega
      refine ⟨front, above ++ shared ++ [bit], parser, labelRest, rest, inner, m, by simp,
        by simp [Nat.add_assoc], ?_, by rwa [total], by simpa using reads, by simpa using payload, by omega, rfl⟩
      rw [total, ← under_append]
      rw [← under_append] at scanned
      simpa using scanned
    rw [if_neg (by simp), getD_after, under_eq_fork]
    cases bit with
    | false => exact ⟨_, _, _, .empty, rfl, deeper, rfl, rfl, fun isNil => by cases isNil⟩
    | true => exact ⟨_, _, .empty, _, rfl, rfl, deeper, rfl, fun isNil => by cases isNil⟩

/-- A dictionary whose keys leave those of the other one at `bit`. -/
lemma scanSide_apart (diffFunc : DiffFunc) (side : Side) {front above shared labelRest : List Bool} {bit : Bool}
    (scanned : ScanNode kind (forbids mode side.bit) cells front (n + above.length) cell
      (.under above (.under (shared ++ bit :: labelRest) inner))) :
    ∃ calls, BitMap.Differences (front ++ above ++ shared ++ [bit])
        (side.pair (.under labelRest inner) .empty).1 (side.pair (.under labelRest inner) .empty).2 calls ∧
      scanSide kind mode diffFunc side (some cell) front (n + above.length) = callWhile diffFunc calls := by
  have moved : under above (.under (shared ++ bit :: labelRest) inner) =
      .under (above ++ shared ++ [bit]) (.under labelRest inner) := by
    simp [← under_append]
  rw [moved] at scanned
  obtain ⟨calls, differences, scans⟩ := scanSide_visits diffFunc side scanned
  refine ⟨calls, ?_, scans⟩
  rw [← under_empty (above ++ shared ++ [bit])] at differences
  cases side with
  | first | second => simpa [Side.pair] using (BitMap.Differences.under_iff _).mp differences

/-- Two dictionaries whose keys leave each other at a bit are scanned one after the other. -/
private lemma scanApart_visits (diffFunc : DiffFunc) {cell1 cell2 : Cell} {inner1 inner2 : BitMap CellSlice}
    {front1 above1 front2 above2 shared rest1 rest2 : List Bool} (bit : Bool)
    (buffer1 : keyBuffer = front1 ++ above1) (buffer2 : keyBuffer = front2 ++ above2)
    (scanned1 : ScanNode kind (forbids mode 1) cells front1 (n + above1.length) cell1
      (.under above1 (.under (shared ++ bit :: rest1) inner1)))
    (scanned2 : ScanNode kind (forbids mode 2) cells front2 (n + above2.length) cell2
      (.under above2 (.under (shared ++ (!bit) :: rest2) inner2))) :
    ∃ calls, BitMap.Differences keyBuffer (.under (shared ++ bit :: rest1) inner1) (.under (shared ++ (!bit) :: rest2) inner2) calls ∧
      (let scan1 := scanSide kind mode diffFunc .first (some cell1)
          (keyBuffer.take (keyBuffer.length - above1.length)) (n + above1.length)
        let scan2 := scanSide kind mode diffFunc .second (some cell2)
          (keyBuffer.take (keyBuffer.length - above2.length)) (n + above2.length)
        if bit = true then scan2 <&&> scan1 else scan1 <&&> scan2) = callWhile diffFunc calls := by
  obtain ⟨calls1, differ1, scan1⟩ := scanSide_apart diffFunc .first scanned1
  obtain ⟨calls2, differ2, scan2⟩ := scanSide_apart diffFunc .second scanned2
  rw [← buffer1] at differ1
  rw [← buffer2] at differ2
  have before1 : keyBuffer.take (keyBuffer.length - above1.length) = front1 := by
    rw [buffer1]
    simp
  have before2 : keyBuffer.take (keyBuffer.length - above2.length) = front2 := by
    rw [buffer2]
    simp
  dsimp only
  rw [before1, before2, scan1, scan2, under_eq_fork, under_eq_fork]
  cases bit with
  | false =>
    exact ⟨calls1 ++ calls2, (BitMap.Differences.under_iff shared).mpr (differ1.branch differ2), (callWhile_append _ _ _).symm⟩
  | true =>
    exact ⟨calls2 ++ calls1, (BitMap.Differences.under_iff shared).mpr (differ2.branch differ1), (callWhile_append _ _ _).symm⟩

/-- A dictionary whose label ends here has both children, so nothing is skipped in them. -/
private lemma branches_skips {left1 right1 left2 right2 : Option Cell × Nat} {rest1 rest2 : List Bool}
    (ends1 : rest1 = [] → (left1.1 ≠ none ∧ left1.2 = 0) ∧ right1.1 ≠ none ∧ right1.2 = 0)
    (ends2 : rest2 = [] → (left2.1 ≠ none ∧ left2.2 = 0) ∧ right2.1 ≠ none ∧ right2.2 = 0) (oneEnds : rest1 = [] ∨ rest2 = []) :
    ((left2.1 = none → left1.2 = 0) ∧ (left1.1 = none → left2.2 = 0)) ∧
      (right2.1 = none → right1.2 = 0) ∧ (right1.1 = none → right2.2 = 0) := by
  rcases oneEnds with isNil | isNil
  · obtain ⟨⟨someLeft, noneLeft⟩, someRight, noneRight⟩ := ends1 isNil
    exact ⟨⟨fun _ => noneLeft, fun isNone => absurd isNone someLeft⟩,
      fun _ => noneRight, fun isNone => absurd isNone someRight⟩
  · obtain ⟨⟨someLeft, noneLeft⟩, someRight, noneRight⟩ := ends2 isNil
    exact ⟨⟨fun isNone => absurd isNone someLeft, fun _ => noneLeft⟩,
      fun isNone => absurd isNone someRight, fun _ => noneRight⟩

section Hash

variable {Hash : Type} {getHash : Cell → Hash} {value1 value2 : CellSlice}

private lemma refs_eq_of_hashes (distinct : Set.InjOn getHash cells) {refs1 refs2 : List Cell}
    (known1 : ∀ ref ∈ refs1, ref ∈ cells) (known2 : ∀ ref ∈ refs2, ref ∈ cells)
    (hashes : refs1.map getHash = refs2.map getHash) : refs1 = refs2 := by
  induction refs1 generalizing refs2 with
  | nil => exact (map_eq_nil_iff.mp hashes.symm).symm
  | cons ref1 refs1 ih =>
    cases refs2 with
    | nil => cases hashes
    | cons ref2 refs2 =>
      rw [map_cons, map_cons] at hashes
      obtain ⟨first, others⟩ := List.cons.inj hashes
      rw [distinct (known1 ref1 mem_cons_self) (known2 ref2 mem_cons_self) first, ih (forall_mem_cons.mp known1).2
          (forall_mem_cons.mp known2).2 others]

variable [DecidableEq Hash]

lemma contentsEqual_iff (distinct : Set.InjOn getHash cells)
    (known1 : ∀ ref ∈ value1.refs, ref ∈ cells) (known2 : ∀ ref ∈ value2.refs, ref ∈ cells) :
    value1.contentsEqual getHash value2 = true ↔ value1 = value2 := by
  obtain ⟨bits1, refs1⟩ := value1
  obtain ⟨bits2, refs2⟩ := value2
  simp only [CellSlice.contentsEqual, Bool.and_eq_true, decide_eq_true_eq, CellSlice.mk.injEq]
  refine and_congr_right fun _ => ⟨refs_eq_of_hashes distinct known1 known2, ?_⟩
  intro same
  rw [same]

/-- Two leaves with the same key. -/
private lemma scanLeaves_visits (distinct : Set.InjOn getHash cells) (diffFunc : DiffFunc)
    (known1 : ∀ ref ∈ value1.refs, ref ∈ cells) (known2 : ∀ ref ∈ value2.refs, ref ∈ cells) :
    ∃ calls, BitMap.Differences keyBuffer (.under label (.point value1)) (.under label (.point value2)) calls ∧
      (if value1.contentsEqual getHash value2 = true then return true
        else Lib.call diffFunc (keyBuffer ++ label, some value1, some value2) : DiffM Bool) = callWhile diffFunc calls := by
  by_cases same : value1 = value2
  · rw [if_pos ((contentsEqual_iff distinct known1 known2).mpr same), same]
    exact ⟨[], .same _ _, rfl⟩
  · rw [if_neg (mt (contentsEqual_iff distinct known1 known2).mp same), ← callWhile_singleton]
    refine ⟨_, (BitMap.Differences.under_iff _).mpr ?_, rfl⟩
    exact .single (by simpa using same) fun _ _ => rfl

lemma dictScanDiff_visits (distinct : Set.InjOn getHash cells) (diffFunc : DiffFunc)
    {dict1 dict2 : Option Cell} {skip1 skip2 : Nat} {map1 map2 : BitMap CellSlice}
    (hangs1 : Hangs kind (forbids mode 1) cells keyBuffer n skip1 dict1 map1)
    (hangs2 : Hangs kind (forbids mode 2) cells keyBuffer n skip2 dict2 map2)
    (skips1 : dict2 = none → skip1 = 0) (skips2 : dict1 = none → skip2 = 0) :
    ∃ calls, BitMap.Differences keyBuffer map1 map2 calls ∧
      dictScanDiff kind mode getHash diffFunc dict1 dict2 keyBuffer n skip1 skip2 = callWhile diffFunc calls := by
  induction n using Nat.strong_induction_on
    generalizing dict1 dict2 keyBuffer skip1 skip2 map1 map2 with
  | _ n ih =>
    rw [dictScanDiff.eq_def]
    match dict1, dict2 with
    | none, none =>
      obtain rfl : map1 = .empty := hangs1
      obtain rfl : map2 = .empty := hangs2
      exact ⟨[], .same _ _, rfl⟩
    | none, some cell2 =>
      obtain rfl : map1 = .empty := hangs1
      obtain rfl := skips2 rfl
      simp only [ensure_eq trivial, lift_ok_bind]
      exact scanSide_visits diffFunc .second hangs2.scanNode
    | some cell1, none =>
      obtain rfl : map2 = .empty := hangs2
      obtain rfl := skips1 rfl
      simp only [ensure_eq trivial, lift_ok_bind]
      exact scanSide_visits diffFunc .first hangs1.scanNode
    | some cell1, some cell2 =>
      obtain ⟨front1, above1, parser1, label1, rest1, inner1, m1, buffer1, rfl, scanned1, parsed1,
        reads1, payload1, split1, rfl⟩ := hangs1
      obtain ⟨front2, above2, parser2, label2, rest2, inner2, m2, buffer2, rfl, scanned2, parsed2,
        reads2, payload2, split2, rfl⟩ := hangs2
      dsimp only
      by_cases equal : above1.length = above2.length ∧ getHash cell1 = getHash cell2
      · obtain ⟨sameLength, sameHash⟩ := equal
        obtain rfl : cell1 = cell2 := distinct scanned1.mem scanned2.mem sameHash
        rw [if_pos ⟨sameLength, rfl⟩]
        obtain ⟨rfl, rfl⟩ := append_inj' (buffer1.symm.trans buffer2) sameLength
        have sameMap := scanned1.map_unique scanned2
        have equalMaps : under label1 inner1 = .under label2 inner2 := by
          funext key
          simpa using congrFun sameMap (above1 ++ key)
        rw [equalMaps]
        exact ⟨[], .same _ _, rfl⟩
      · rw [if_neg equal]
        simp only [LabelPair.parse_eq buffer1 buffer2 parsed1 parsed2 reads1 reads2, lift_ok_bind]
        obtain ⟨shared, labelRest2, labelRest1, rfl, rfl, isShared, apart⟩ := commonPrefix_split label2 label1
        simp only [isShared]
        by_cases disjoint : shared.length < (shared ++ labelRest1).length ∧ shared.length < (shared ++ labelRest2).length
        · obtain ⟨longer1, longer2⟩ := disjoint
          rw [if_pos ⟨longer1, longer2⟩]
          cases labelRest1 with
          | nil => simp at longer1
          | cons bit1 labelRest1 =>
            cases labelRest2 with
            | nil => simp at longer2
            | cons bit2 labelRest2 =>
              obtain rfl : bit2 = !bit1 := Bool.eq_not_of_ne (apart bit2 bit1 labelRest2 labelRest1 rfl rfl)
              rw [getD_after]
              exact scanApart_visits diffFunc bit1 buffer1 buffer2 scanned1 scanned2
        · rw [if_neg disjoint]
          by_cases short : shared.length < n
          · rw [dif_pos short]
            rw [buffer1] at payload1
            rw [buffer2] at payload2
            obtain ⟨left1, right1, leftMap1, rightMap1, branches1, leftHangs1, rightHangs1, isMap1, ends1⟩ :=
              branches_hang .first scanned1 parsed1 reads1 payload1 split1 short
            obtain ⟨left2, right2, leftMap2, rightMap2, branches2, leftHangs2, rightHangs2, isMap2, ends2⟩ :=
              branches_hang .second scanned2 parsed2 reads2 payload2 split2 short
            rw [← buffer1] at leftHangs1 rightHangs1
            rw [← buffer2] at leftHangs2 rightHangs2
            have oneEnds : labelRest1 = [] ∨ labelRest2 = [] := by
              simpa [Nat.lt_iff_add_one_le, imp_iff_not_or] using disjoint
            have skips := branches_skips ends1 ends2 oneEnds
            obtain ⟨leftCalls, leftDiffer, leftScan⟩ := ih _ (by omega) leftHangs1 leftHangs2 skips.1.1 skips.1.2
            obtain ⟨rightCalls, rightDiffer, rightScan⟩ := ih _ (by omega) rightHangs1 rightHangs2 skips.2.1 skips.2.2
            refine ⟨leftCalls ++ rightCalls, ?_, ?_⟩
            · rw [isMap1, isMap2]
              exact (BitMap.Differences.under_iff shared).mpr (leftDiffer.branch rightDiffer)
            · rw [callWhile_append, ← leftScan, ← rightScan, branches1, lift_ok_bind, branches2, lift_ok_bind, take_left]
          · rw [dif_neg short]
            simp only [length_append] at split1 split2
            obtain rfl : labelRest1 = [] := eq_nil_of_length_eq_zero (by omega)
            obtain rfl : labelRest2 = [] := eq_nil_of_length_eq_zero (by omega)
            cases payload1 with
            | fork => omega
            | leaf known1 accepted1 =>
              cases payload2 with
              | fork => omega
              | leaf known2 accepted2 =>
                rw [reads1.payload_eq, reads2.payload_eq, acceptLeaf, accept_eq accepted1, lift_ok_bind,
                  acceptLeaf, accept_eq accepted2, lift_ok_bind]
                exact scanLeaves_visits distinct diffFunc known1 known2

end Hash

end Scan

namespace Dictionary

/-- A dictionary of the given kind with keys of `n` bits, all cells of which are in `cells`. -/
structure Scanned (kind : DictionaryKind) (checked : Bool) (cells : Set Cell) (dict : Dictionary)
    (n : Nat) (map : BitMap CellSlice) : Prop where
  keyBits : dict.keyBits = n
  bound : n ≤ maxKeyBits
  empty : dict.rootCell = none → map = .empty
  node : ∀ cell, dict.rootCell = some cell → ScanNode kind checked cells [] n cell map

lemma Scanned.hangs {kind : DictionaryKind} {checked : Bool} {cells : Set Cell}
    {dict : Dictionary} {n : Nat} {map : BitMap CellSlice} (scanned : dict.Scanned kind checked cells n map) :
    Hangs kind checked cells [] n 0 dict.rootCell map := by
  cases root : dict.rootCell with
  | none => exact scanned.empty root
  | some cell => exact (scanned.node cell root).hangs

/-- The function is called for the keys whose values differ, in their order, until it does not
return true. -/
theorem scanDiff_visits {Hash : Type} [DecidableEq Hash] {getHash : Cell → Hash}
    {kind : DictionaryKind} {cells : Set Cell} (distinct : Set.InjOn getHash cells)
    {dict dict2 : Dictionary} {n checkAugm : Nat} {map1 map2 : BitMap CellSlice}
    (scanned1 : dict.Scanned kind (forbids checkAugm 1) cells n map1)
    (scanned2 : dict2.Scanned kind (forbids checkAugm 2) cells n map2) (diffFunc : DiffFunc) :
    ∃ differences, BitMap.Differences [] map1 map2 differences ∧
      ((dict.scanDiff kind getHash dict2 diffFunc checkAugm).run.run [] = (.ok true, differences) ∧
          Accepts diffFunc [] differences ∨ ∃ before args after, differences = before ++ args :: after ∧
          Accepts diffFunc [] before ∧ diffFunc before args ≠ .ok true ∧
          (dict.scanDiff kind getHash dict2 diffFunc checkAugm).run.run [] =
            (falseOnCombineError (diffFunc before args), before ++ [args])) := by
  obtain ⟨differences, differ, scans⟩ := dictScanDiff_visits distinct diffFunc scanned1.hangs
    scanned2.hangs (fun _ => rfl) (fun _ => rfl)
  have valid1 : dict.forceValidate = .ok () := ensure_eq (scanned1.keyBits ▸ scanned1.bound) _
  have valid2 : dict2.forceValidate = .ok () := ensure_eq (scanned2.keyBits ▸ scanned2.bound) _
  refine ⟨differences, differ, ?_⟩
  rw [scanDiff, valid1, lift_ok_bind, valid2, lift_ok_bind, scanned1.keyBits, scanned2.keyBits,
    if_neg (by simp), ExceptT.run_mk, StateT.run_bind, scans]
  cases callWhile_run diffFunc differences [] with
  | inl all =>
    rw [all.1]
    exact .inl ⟨rfl, all.2⟩
  | inr some =>
    obtain ⟨before, args, after, split, accepts, refused, stopped⟩ := some
    rw [stopped]
    exact .inr ⟨before, args, after, split, accepts, refused, rfl⟩

def flagKind : DictionaryKind where
  labelMode := .chkSize
  checkLeaf value _ := .ok (value.bits.headD false)
  checkFork extra _ _ _ := .ok (extra.bits = [true])

def flagLeaf (n : Nat) (label : List Bool) (value : Bool) : Cell :=
  .mk .ordinary (dictLabel n label ++ [true, value]) []

def flagFork : Cell :=
  .mk .ordinary (dictLabel 1 [] ++ [true]) [flagLeaf 0 [] false, flagLeaf 0 [] true]

def flagMap (label : List Bool) (value : Bool) : BitMap CellSlice :=
  .under label (.point ⟨[true, value], []⟩)

def flagCells : Set Cell :=
  {flagLeaf 1 [true] true, flagFork, flagLeaf 0 [] false, flagLeaf 0 [] true}

private lemma flagLeaf_scanned {n : Nat} {label : List Bool} {value : Bool} (path : List Bool)
    (length : n = label.length) (member : flagLeaf n label value ∈ flagCells) :
    ScanNode flagKind true flagCells path n (flagLeaf n label value) (flagMap label value) :=
  @ScanNode.node _ _ _ n 0 path label _ ⟨[true, value], []⟩ _
    (dictLabel_encoding (Nat.le_of_eq length.symm)) length member (.leaf nofun fun _ => rfl)

theorem scanDiff_visits_flagFork : ∃ differences, BitMap.Differences [] (flagMap [true] true)
        (.under [] (.branch (flagMap [] false) (flagMap [] true))) differences ∧
      ((⟨some (flagLeaf 1 [true] true), 1⟩ : Dictionary).scanDiff flagKind Cell.bits
        ⟨some flagFork, 1⟩ (fun _ _ => .ok true) 3).run.run [] = (.ok true, differences) := by
  have distinct : Set.InjOn Cell.bits flagCells := by
    rintro _ (rfl | rfl | rfl | rfl) _ (rfl | rfl | rfl | rfl) same
    all_goals first | rfl | exact absurd same (by decide)
  have scanned1 : (⟨some (flagLeaf 1 [true] true), 1⟩ : Dictionary).Scanned flagKind true flagCells 1
      (flagMap [true] true) := by
    refine ⟨rfl, by decide, nofun, ?_⟩
    rintro _ ⟨⟩
    exact flagLeaf_scanned [] rfl (by simp [flagCells])
  have scanned2 : (⟨some flagFork, 1⟩ : Dictionary).Scanned flagKind true flagCells 1
      (.under [] (.branch (flagMap [] false) (flagMap [] true))) := by
    refine ⟨rfl, by decide, nofun, ?_⟩
    rintro _ ⟨⟩
    exact @ScanNode.node _ _ _ 1 1 [] [] _ ⟨[true], _⟩ _ (dictLabel_encoding (by decide)) rfl (by simp [flagCells, flagFork])
      (.fork (Nat.le_refl 2) rfl (fun _ => rfl) (flagLeaf_scanned _ rfl (by simp [flagCells]))
        (flagLeaf_scanned _ rfl (by simp [flagCells])))
  obtain ⟨differences, differ, visited⟩ := @scanDiff_visits _ _ _ _ _ distinct _ _ 1 3 _ _ scanned1 scanned2 (fun _ _ => .ok true)
  refine ⟨differences, differ, ?_⟩
  cases visited with
  | inl all => exact all.1
  | inr some =>
    obtain ⟨before, args, after, _, _, refused, _⟩ := some
    exact absurd rfl refused

end Dictionary

end TonNode.Vm
