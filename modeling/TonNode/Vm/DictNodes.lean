import TonNode.Vm.Dict

/-!
# Dictionaries as maps

Every encoding of a label is read back as that label, and the code stores the shortest one. A node
denotes a map on the keys below it. The labels of its nodes satisfy a relation that the labels the
code chooses always satisfy.
-/

namespace TonNode.Vm

open Lib List CellBuilder LabelParser

private lemma takeWhile_eq_length_iff (bits : List Bool) (bit : Bool) :
    (bits.takeWhile (· = bit)).length = bits.length ↔ bits = List.replicate bits.length bit := by
  rw [eq_replicate_iff]
  simp only [true_and]
  induction bits with
  | nil => simp
  | cons head bits ih =>
    by_cases same : head = bit
    · simp [same, ih]
    · simp [same]

private lemma longBits_neg_toNat (bit : Bool) (width : Nat) : longBits (-bit.toNat) width = List.replicate width bit := by
  cases bit with
  | false => simpa using longBits_zero width
  | true => simpa using longBits_neg_one width

variable {label : List Bool} {n : Nat} {encoded : List Bool}

private lemma dictLabel_of_not
    (mixed : ¬ (label = List.replicate label.length (label.headD false) ∧ 1 < label.length ∧ lenBits n < 2 * label.length - 1)) :
    dictLabel n label = if lenBits n < label.length then longLabel n label else shortLabel label :=
  if_neg mixed

/-- Appends bits to a cell. It fails only where they do not fit. -/
structure Appends (result : Except Thrown CellBuilder) (cb : CellBuilder) (bits : List Bool) : Prop where
  yields : Yields result (· = { cb with bits := cb.bits ++ bits })
  fits : cb.canExtendBy bits.length 0 = true → result = .ok { cb with bits := cb.bits ++ bits }

lemma storeBits_appends (cb : CellBuilder) (bits : List Bool) : Appends (cb.storeBits bits) cb bits where
  yields := cb.storeBits_yields bits
  fits := fun room => if_pos room

lemma storeLong_appends (cb : CellBuilder) (value : Int) (width : Nat) :
    Appends (cb.storeLong value width) cb (longBits value width) :=
  storeBits_appends cb _

lemma Appends.bind {result : Except Thrown CellBuilder} {next : CellBuilder → Except Thrown CellBuilder} {cb : CellBuilder}
    {first second : List Bool} (stored : Appends result cb first)
    (after : Appends (next { cb with bits := cb.bits ++ first }) { cb with bits := cb.bits ++ first } second) :
    Appends (result >>= next) cb (first ++ second) where
  yields := by
    refine stored.yields.bind_eq ?_
    simpa only [append_assoc] using after.yields
  fits := by
    intro room
    simp only [canExtendBy, length_append, Bool.and_eq_true, decide_eq_true_eq] at room
    rw [stored.fits (by simp only [canExtendBy, Bool.and_eq_true, decide_eq_true_eq]; omega), ok_bind,
      after.fits (by simp only [canExtendBy, length_append, Bool.and_eq_true, decide_eq_true_eq]; omega), append_assoc]

lemma appendDictLabelSame_appends (cb : CellBuilder) (same : Bool) {len maxLen : Nat} (fits : len ≤ maxLen) (bound : maxLen ≤ 1023) :
    Appends (appendDictLabelSame cb same len maxLen) cb (dictLabel maxLen (List.replicate len same)) := by
  have uniform : List.replicate len same =
      List.replicate len ((List.replicate len same).headD false) := by
    cases len with
    | zero => rfl
    | succ len => rfl
  unfold appendDictLabelSame
  rw [ensure_eq ⟨fits, bound⟩, ok_bind]
  by_cases asSame : 1 < len ∧ lenBits maxLen < 2 * len - 1
  · have head : (List.replicate len same).headD false = same := by
      cases len with
      | zero => omega
      | succ len => rfl
    have chosen : dictLabel maxLen (List.replicate len same) = longBits (6 + same.toNat) 3 ++ longBits len (lenBits maxLen) := by
      unfold dictLabel
      rw [length_replicate, if_pos ⟨uniform, asSame⟩, head]
      cases same <;> simp [sameLabel, longBits]
    rw [if_pos asSame, chosen]
    exact (storeLong_appends cb _ _).bind (storeLong_appends _ _ _)
  · rw [if_neg asSame, dictLabel_of_not (by simpa using fun _ => not_and.mp asSame)]
    by_cases asLong : lenBits maxLen < len
    · have chosen : longLabel maxLen (List.replicate len same) =
          longBits 2 2 ++ (longBits len (lenBits maxLen) ++ longBits (-same.toNat) len) := by
        simp [longLabel, longBits_neg_toNat, longBits]
      rw [if_pos asLong, if_pos (by simpa using asLong), chosen]
      exact (storeLong_appends cb _ _).bind ((storeLong_appends _ _ _).bind (storeLong_appends _ _ _))
    · have chosen : shortLabel (List.replicate len same) =
          longBits 0 1 ++ (longBits (-2) (len + 1) ++ longBits (-same.toNat) len) := by
        simp [shortLabel, longBits_neg_toNat, longBits_neg_two, longBits_zero]
      rw [if_neg asLong, if_neg (by simpa using asLong), chosen]
      exact (storeLong_appends cb _ _).bind ((storeLong_appends _ _ _).bind (storeLong_appends _ _ _))

private lemma appendDictLabelHead_appends (cb : CellBuilder) (len maxLen : Nat) :
    Appends (appendDictLabelHead cb len maxLen) cb (if lenBits maxLen < len then true :: false :: longBits len (lenBits maxLen)
      else false :: (List.replicate len true ++ [false])) := by
  unfold appendDictLabelHead
  simp only
  split
  · have chosen : true :: false :: longBits len (lenBits maxLen) = longBits 2 2 ++ longBits len (lenBits maxLen) := by
      simp [longBits]
    rw [chosen]
    exact (storeLong_appends cb _ _).bind (storeLong_appends _ _ _)
  · have chosen : false :: (List.replicate len true ++ [false]) = longBits 0 1 ++ longBits (-2) (len + 1) := by
      simp [longBits_neg_two, longBits_zero]
    rw [chosen]
    exact (storeLong_appends cb _ _).bind (storeLong_appends _ _ _)

private lemma storeLabel_appends (cb : CellBuilder) (label : List Bool) :
    Appends
      (if cb.remainingBits < label.length then
        .error (.vmError .cellOv "cannot store a label into a dictionary cell")
       else cb.storeBits label) cb label where
  yields := by
    split
    · exact trivial
    · exact cb.storeBits_yields label
  fits := by
    intro room
    have enough : ¬cb.remainingBits < label.length := by
      simp only [canExtendBy, Bool.and_eq_true, decide_eq_true_eq] at room
      unfold remainingBits
      omega
    rw [if_neg enough]
    exact if_pos room

lemma appendDictLabel_appends (cb : CellBuilder) {maxLen : Nat} (rest : List Bool) (fits : label.length ≤ maxLen)
    (bound : maxLen ≤ 1023) : Appends (appendDictLabel cb (label ++ rest) label.length maxLen) cb (dictLabel maxLen label) := by
  have taken : (label ++ rest).take label.length = label := by simp
  unfold appendDictLabel
  rw [ensure_eq ⟨fits, bound⟩, ok_bind, taken]
  cases label with
  | nil =>
    rw [if_neg (fun both => absurd both.1 (Nat.lt_irrefl 0)), dictLabel_of_not (by simp)]
    have head := appendDictLabelHead_appends cb 0 maxLen
    simp only [Nat.not_lt_zero, if_false] at head
    exact head.bind (storeLabel_appends _ [])
  | cons first label =>
    by_cases uniform : first :: label = List.replicate (first :: label).length first
    · rw [if_pos ⟨by simp, (takeWhile_eq_length_iff _ _).mpr uniform⟩]
      have stored := appendDictLabelSame_appends cb first fits bound
      rwa [← uniform] at stored
    · rw [if_neg (fun both => uniform ((takeWhile_eq_length_iff _ _).mp both.2)), dictLabel_of_not (fun all => uniform all.1)]
      have chosen : (if lenBits maxLen < (first :: label).length then longLabel maxLen (first :: label)
          else shortLabel (first :: label)) =
          (if lenBits maxLen < (first :: label).length then
              true :: false :: longBits (first :: label).length (lenBits maxLen)
            else false :: (List.replicate (first :: label).length true ++ [false])) ++ first :: label := by
        split
        · simp [longLabel]
        · simp [shortLabel]
      rw [chosen]
      exact (appendDictLabelHead_appends cb _ maxLen).bind (storeLabel_appends _ _)

lemma appendDictLabelSame_yields (cb : CellBuilder) (same : Bool) {len maxLen : Nat}
    (fits : len ≤ maxLen) (bound : maxLen ≤ 1023) : Yields (appendDictLabelSame cb same len maxLen)
      (· = { cb with bits := cb.bits ++ dictLabel maxLen (List.replicate len same) }) :=
  (appendDictLabelSame_appends cb same fits bound).yields

lemma appendDictLabel_yields (cb : CellBuilder) {maxLen : Nat} (rest : List Bool)
    (fits : label.length ≤ maxLen) (bound : maxLen ≤ 1023) : Yields (appendDictLabel cb (label ++ rest) label.length maxLen)
      (· = { cb with bits := cb.bits ++ dictLabel maxLen label }) :=
  (appendDictLabel_appends cb rest fits bound).yields

namespace LabelParser

/-- The parser stands at a node with the given label and the given rest. -/
structure Reads (parser : LabelParser) (label : List Bool) (rest : CellSlice) : Prop where
  length : parser.lBits = label.length
  refs : parser.remainder.refs = rest.refs
  shape : (parser.lSame = 0 ∧ parser.sBits = label.length ∧ parser.remainder.bits = label ++ rest.bits) ∨
    (parser.lSame ≠ 0 ∧ parser.sBits = 0 ∧ label = List.replicate label.length parser.same ∧ parser.remainder.bits = rest.bits)

end LabelParser

private lemma takeWhile_unary (len : Nat) (rest : List Bool) :
    ((List.replicate len true ++ false :: rest).takeWhile id) = List.replicate len true := by
  induction len with
  | zero => rfl
  | succ len ih => simp [replicate_succ, ih]

private lemma advance_append (first second : List Bool) (refs : List Cell) :
    (CellSlice.mk (first ++ second) refs).advance first.length = ⟨second, refs⟩ := by
  simp [CellSlice.advance]

private lemma fetchUlong_longBits (value n : Nat) (rest : List Bool) (refs : List Cell) (fits : value ≤ n) :
    (CellSlice.mk (longBits value (lenBits n) ++ rest) refs).fetchUlong (lenBits n) = some (value, ⟨rest, refs⟩) := by
  have below : value < 2 ^ lenBits n := Nat.lt_of_le_of_lt fits (lenBits_spec n)
  have length := longBits_length value (lenBits n)
  have moved := advance_append (longBits value (lenBits n)) rest refs
  rw [length] at moved
  unfold CellSlice.fetchUlong
  rw [if_neg (by simp [length]), moved, take_append_of_le_length (Nat.le_of_eq length.symm),
    take_of_length_le (Nat.le_of_eq length), bitsValue_longBits _ _ below]

lemma parseLabel_reads (rest : CellSlice) (encoding : LabelEncoding n label encoded) :
    ∃ parser, parseLabel ⟨encoded ++ rest.bits, rest.refs⟩ n = some parser ∧ parser.Reads label rest := by
  cases encoding with
  | short fits =>
    cases label with
    | nil => exact ⟨_, rfl, rfl, rfl, .inl ⟨rfl, rfl, rfl⟩⟩
    | cons first tail =>
      generalize labelled : first :: tail = label at fits
      have long : label.length = tail.length + 1 := by rw [← labelled]; rfl
      let unary := List.replicate label.length true ++ false :: (label ++ rest.bits)
      have text : shortLabel label ++ rest.bits = false :: unary := by simp [shortLabel, unary]
      have starts : unary = true :: (List.replicate tail.length true ++
          false :: (label ++ rest.bits)) := by
        simp only [unary, long, replicate_succ, cons_append]
      have moved : (CellSlice.mk (false :: unary) rest.refs).advance 1 = ⟨unary, rest.refs⟩ :=
        advance_append [false] unary rest.refs
      have counted : (unary.takeWhile id).length = label.length := by
        rw [takeWhile_unary, length_replicate]
      have skipped : (CellSlice.mk unary rest.refs).advance (label.length + 1) =
          ⟨label ++ rest.bits, rest.refs⟩ := by
        have inner := advance_append (List.replicate label.length true ++ [false]) (label ++ rest.bits) rest.refs
        simpa [unary] using inner
      refine ⟨⟨⟨label ++ rest.bits, rest.refs⟩, 0, label.length, label.length⟩, ?_, rfl, rfl, .inl ⟨rfl, rfl, rfl⟩⟩
      rw [text]
      unfold parseLabel
      rw [starts]
      simp only
      rw [← starts, moved]
      simp only [counted, skipped]
      rw [if_neg]
      simp only [unary, length_append, length_replicate, length_cons]
      omega
  | long fits =>
    have fetched := fetchUlong_longBits label.length n (label ++ rest.bits) rest.refs fits
    refine ⟨⟨⟨label ++ rest.bits, rest.refs⟩, 0, label.length, label.length⟩, ?_, rfl, rfl, .inl ⟨rfl, rfl, rfl⟩⟩
    have moved := advance_append [true, false] (longBits label.length (lenBits n) ++ (label ++ rest.bits)) rest.refs
    simp only [longLabel, parseLabel, cons_append, append_assoc]
    simp only [cons_append, nil_append, length_cons, length_nil] at moved
    rw [moved, fetched]
    simp [fits]
  | @same bit len fits =>
    have fetched := fetchUlong_longBits len n rest.bits rest.refs fits
    refine ⟨⟨⟨rest.bits, rest.refs⟩, 6 + bit.toNat, len, 0⟩, ?_, by simp, rfl, .inr ⟨by simp, rfl, ?_, rfl⟩⟩
    · have moved := advance_append [true, true, bit] (longBits len (lenBits n) ++ rest.bits) rest.refs
      simp only [sameLabel, parseLabel, cons_append]
      simp only [cons_append, nil_append, length_cons, length_nil] at moved
      rw [moved, fetched]
      simp [fits]
    · cases bit <;> simp [same]

namespace LabelParser

/-- A node whose edge ends at a fork holds nothing but the two references. -/
lemma ofCell_reads {label encoded : List Bool} (rest : CellSlice) (encoding : LabelEncoding n label encoded)
    (fork : label.length < n → rest.bits = [] ∧ rest.refs.length = 2) :
    ∃ parser, ofCell (some (.mk .ordinary (encoded ++ rest.bits) rest.refs)) n = .ok parser ∧ parser.Reads label rest := by
  obtain ⟨parser, parsed, reads⟩ := parseLabel_reads rest encoding
  refine ⟨parser, ?_, reads⟩
  have fits := encoding.length_le
  have valid : parser.validateExt n = .ok () := by
    unfold validateExt
    rw [reads.length, if_neg (Nat.not_lt.mpr fits), if_neg]
    rintro ⟨inner, wrong⟩
    obtain ⟨noBits, twoRefs⟩ := fork inner
    rw [reads.refs, twoRefs] at wrong
    rcases reads.shape with ⟨_, skip, bits⟩ | ⟨_, skip, _, bits⟩ <;> simp [bits, skip, noBits] at wrong
  simp only [ofCell, loadCellSlice, ok_bind, parsed, orThrow, valid, pure_eq_ok]

namespace Reads

variable {parser : LabelParser} {rest : CellSlice}

lemma bits_eq (reads : parser.Reads label rest) : parser.bits = label := by
  unfold bits
  rcases reads.shape with ⟨plain, _, text⟩ | ⟨repeated, _, uniform, _⟩
  · rw [if_pos plain, text, reads.length, take_left]
  · rw [if_neg repeated, reads.length, ← uniform]

lemma payload_eq (reads : parser.Reads label rest) : parser.payload = rest := by
  have same : parser.remainder = ⟨parser.remainder.bits, rest.refs⟩ := by
    rw [← reads.refs]
  unfold payload
  rcases reads.shape with ⟨_, skip, text⟩ | ⟨_, skip, _, text⟩
  · rw [same, text, skip]
    simp [CellSlice.advance]
  · rw [same, text, skip]
    simp [CellSlice.advance]

private lemma commonPrefixLen_take (label rest key : List Bool) : Lib.commonPrefixLen (label ++ rest) (key.take label.length) =
      Lib.commonPrefixLen label key := by
  induction label generalizing key with
  | nil => simp
  | cons bit label ih =>
    cases key with
    | nil => simp
    | cons other key => simp [Lib.commonPrefixLen, ih]

private lemma bitsMemscan_take (len : Nat) (bit : Bool) (key : List Bool) :
    bitsMemscan (key.take len) bit = Lib.commonPrefixLen (List.replicate len bit) key := by
  unfold bitsMemscan
  induction len generalizing key with
  | zero => simp
  | succ len ih =>
    cases key with
    | nil => simp
    | cons other key =>
      simp only [take_succ_cons, replicate_succ, Lib.commonPrefixLen]
      by_cases same : other = bit
      · simp [same, ih]
      · simp [same, Ne.symm same]

lemma commonPrefixLen_eq (reads : parser.Reads label rest) (key : List Bool) (len : Nat) :
    parser.commonPrefixLen key len = Lib.commonPrefixLen label (key.take len) := by
  unfold commonPrefixLen
  rw [← take_take]
  rcases reads.shape with ⟨plain, _, text⟩ | ⟨repeated, _, uniform, _⟩
  · rw [if_pos plain, text, reads.length, commonPrefixLen_take]
  · rw [if_neg repeated, bitsMemscan_take, reads.length, ← uniform]

private lemma commonPrefixLen_eq_length_iff (label key : List Bool) :
    Lib.commonPrefixLen label key = label.length ↔ label <+: key := by
  induction label generalizing key with
  | nil => simp
  | cons bit label ih =>
    cases key with
    | nil => simp
    | cons other key =>
      by_cases same : bit = other
      · simp [Lib.commonPrefixLen, same, ih]
      · simp [Lib.commonPrefixLen, same]

lemma isPrefixOf_iff (reads : parser.Reads label rest) {key : List Bool} {len : Nat}
    (enough : label.length ≤ len) : parser.isPrefixOf key len = true ↔ label <+: key := by
  unfold isPrefixOf
  rw [if_neg (by rw [reads.length]; omega)]
  rcases reads.shape with ⟨plain, _, text⟩ | ⟨repeated, _, uniform, _⟩
  · rw [if_pos plain, text, reads.length, take_left]
    simp [prefix_iff_eq_take]
  · rw [if_neg repeated, bitsMemscan_take, reads.length, ← uniform]
    simp [commonPrefixLen_eq_length_iff]

end Reads

end LabelParser

/-- The forms of a label, in the order in which the code prefers them. -/
def labelForms (n : Nat) (label : List Bool) : List (List Bool) :=
  let bit := label.headD false
  shortLabel label :: longLabel n label ::
    if label = List.replicate label.length bit then [sameLabel n bit label.length] else []

private lemma argmin_labelForms (fits : label.length ≤ n) : (labelForms n label).argmin length = some (dictLabel n label) := by
  have bits : label.length = 0 ∨ 1 ≤ lenBits n := by
    unfold lenBits
    split <;> omega
  unfold labelForms dictLabel
  by_cases uniform : label = List.replicate label.length (label.headD false)
  · simp only [eq_true uniform, if_true, true_and, argmin_cons, argmin_nil, sameLabel_length, longLabel_length]
    split_ifs <;> simp [shortLabel_length, longLabel_length, sameLabel_length] <;> omega
  · simp only [eq_false uniform, if_false, false_and, argmin_cons, argmin_nil, longLabel_length, shortLabel_length]
    split_ifs <;> first | rfl | omega

/-- What is written is read back, in the first of the shortest forms, which both functions that
write a label choose. A label that fits is written. -/
theorem dict_labels_canonical (bound : n ≤ 1023) (fits : label.length ≤ n) (payload : CellSlice) :
    Yields (do
      let cb ← appendDictLabel .new label label.length n
      let cb ← orThrow (cb.addSliceBool payload) .cellWriteError
      loadCellSlice (some (← cb.finalize)))
      (fun cs => ∃ parser, parseLabel cs n = some parser ∧ parser.bits = label ∧ parser.payload = payload) ∧
    (∀ cb, Yields (appendDictLabel cb label label.length n) (· = { cb with bits := cb.bits ++ dictLabel n label })) ∧
    (∀ cb : CellBuilder, cb.canExtendBy (dictLabel n label).length 0 = true →
      appendDictLabel cb label label.length n = .ok { cb with bits := cb.bits ++ dictLabel n label }) ∧
    (labelForms n label).argmin length = some (dictLabel n label) ∧
    ∀ cb bit len, appendDictLabelSame cb bit len n = appendDictLabel cb (List.replicate len bit) len n := by
  have stored (cb) := appendDictLabel_appends cb [] fits bound
  simp only [append_nil] at stored
  refine ⟨?_, fun cb => (stored cb).yields, fun cb => (stored cb).fits, argmin_labelForms fits, ?_⟩
  · refine (stored .new).yields.bind_eq ?_
    refine (orThrow_addSlice_yields _ payload (show Thrown.cellWriteError.IsCellOverflow from trivial)).bind_eq ?_
    refine (finalize_yields _).bind_eq ?_
    obtain ⟨parser, parsed, reads⟩ := parseLabel_reads payload (dictLabel_encoding fits)
    exact ⟨parser, parsed, reads.bits_eq, reads.payload_eq⟩
  · intro cb bit len
    by_cases bounds : len ≤ n ∧ n ≤ 1023
    · cases len with
      | zero => simp [appendDictLabel, appendDictLabelSame, appendDictLabelHead, storeLong, longBits]
      | succ len =>
        have all : bitsMemscan ((List.replicate (len + 1) bit).take (len + 1)) bit = len + 1 := by
          simp [bitsMemscan]
        unfold appendDictLabel
        rw [ensure_eq bounds, ok_bind]
        exact (if_pos ⟨Nat.succ_pos _, all⟩).symm
    · simp [appendDictLabel, appendDictLabelSame, ensure, bounds]

/-- Two forms of a label of two bits are equally short for keys of three bits. The label is written
in the first of them and read back. -/
theorem dict_labels_canonical_tie : [true, false].length ≤ 3 ∧
    (∃ parser, parseLabel ⟨dictLabel 3 [true, false] ++ [true], []⟩ 3 = some parser ∧
      parser.bits = [true, false] ∧
      parser.payload = ⟨[true], []⟩) ∧
    appendDictLabel .new [true, false] 2 3 = .ok ⟨dictLabel 3 [true, false], []⟩ ∧
    (labelForms 3 [true, false]).argmin length = some (dictLabel 3 [true, false]) ∧
    dictLabel 3 [true, false] = shortLabel [true, false] ∧
    (longLabel 3 [true, false]).length = 6 := by
  obtain ⟨read, _, written, least, _⟩ :=
    dict_labels_canonical (n := 3) (by decide) (show [true, false].length ≤ 3 by decide) ⟨[true], []⟩
  have stored : appendDictLabel .new [true, false] 2 3 = .ok ⟨dictLabel 3 [true, false], []⟩ := written .new (by decide)
  refine ⟨by decide, ?_, stored, least, by decide, by decide⟩
  rw [show [true, false].length = 2 from rfl, stored] at read
  exact read

/-- The encodings of labels allowed in a dictionary. -/
structure Labelling where
  Allowed : Nat → List Bool → List Bool → Prop
  encoding : ∀ {n label encoded}, Allowed n label encoded → LabelEncoding n label encoded
  chosen : ∀ {n label}, label.length ≤ n → Allowed n label (dictLabel n label)

namespace Labelling

def any : Labelling where
  Allowed := LabelEncoding
  encoding encoded := encoded
  chosen fits := dictLabel_encoding fits

def canonical : Labelling where
  Allowed n label encoded := label.length ≤ n ∧ encoded = dictLabel n label
  encoding := by
    rintro n label encoded ⟨fits, rfl⟩
    exact dictLabel_encoding fits
  chosen fits := ⟨fits, rfl⟩

end Labelling

/-- A cell that is the node of a map on `n`-bit keys. Both children of a fork are nodes. -/
inductive Node (labels : Labelling) : Nat → Cell → BitMap CellSlice → Prop where
  | leaf {n : Nat} {label encoded : List Bool} {value : CellSlice} :
      labels.Allowed n label encoded → n = label.length →
      Node labels n (.mk .ordinary (encoded ++ value.bits) value.refs) (.under label (.point value))
  | fork {n m : Nat} {label encoded : List Bool} {c1 c2 : Cell} {left right : BitMap CellSlice} :
      labels.Allowed n label encoded → n = label.length + (m + 1) →
      Node labels m c1 left → Node labels m c2 right →
      Node labels n (.mk .ordinary encoded [c1, c2]) (.under label (.branch left right))

/-- What stands after the label of a node, `m` key bits above the leaves. -/
inductive Payload (labels : Labelling) : Nat → CellSlice → BitMap CellSlice → Prop where
  | leaf (value : CellSlice) : Payload labels 0 value (.point value)
  | fork {m : Nat} {c1 c2 : Cell} {left right : BitMap CellSlice} :
      Node labels m c1 left → Node labels m c2 right →
      Payload labels (m + 1) ⟨[], [c1, c2]⟩ (.branch left right)

def Root (labels : Labelling) (n : Nat) : Option Cell → BitMap CellSlice → Prop
  | none, map => map = .empty
  | some cell, map => Node labels n cell map

variable {labels : Labelling}
variable {m : Nat} {key : List Bool} {rest : CellSlice} {map left right : BitMap CellSlice}
variable {cell : Cell} {value : CellSlice} {c1 c2 : Cell} {parser : LabelParser} {bit : Bool}

lemma Payload.node (payload : Payload labels m rest map)
    (allowed : labels.Allowed n label encoded) (length : n = label.length + m) :
    Node labels n (.mk .ordinary (encoded ++ rest.bits) rest.refs) (.under label map) := by
  cases payload with
  | leaf value => exact .leaf allowed length
  | fork left right =>
    rw [append_nil]
    exact .fork allowed length left right

lemma Node.parse (node : Node labels n cell map) : ∃ parser label rest inner m, ofCell (some cell) n = .ok parser ∧
      parser.Reads label rest ∧ Payload labels m rest inner ∧ n = label.length + m ∧ map = .under label inner := by
  cases node with
  | @leaf _ label encoded value allowed length =>
    obtain ⟨parser, parsed, reads⟩ := ofCell_reads value (labels.encoding allowed) (by omega)
    exact ⟨parser, label, value, .point value, 0, parsed, reads, .leaf value, by omega, rfl⟩
  | @fork _ m label encoded c1 c2 left right allowed length leftNode rightNode =>
    obtain ⟨parser, parsed, reads⟩ := ofCell_reads ⟨[], [c1, c2]⟩ (labels.encoding allowed) (fun _ => ⟨rfl, rfl⟩)
    rw [append_nil] at parsed
    exact ⟨parser, label, ⟨[], [c1, c2]⟩, .branch left right, m + 1, parsed, reads, .fork leftNode rightNode, length, rfl⟩

lemma Node.nonempty (node : Node labels n cell map) : ∃ key value, map key = some value := by
  induction node with
  | @leaf n label encoded value allowed length => exact ⟨label, value, by simp⟩
  | @fork n m label encoded c1 c2 left right allowed length leftNode rightNode leftIH rightIH =>
    obtain ⟨key, value, found⟩ := leftIH
    exact ⟨label ++ false :: key, value, by simpa using found⟩

lemma Node.key_length (node : Node labels n cell map) (found : map key = some value) : key.length = n := by
  induction node generalizing key with
  | @leaf n label encoded value allowed length =>
    obtain ⟨rest, rfl, entry⟩ := BitMap.exists_of_under found
    cases rest with
    | nil => simp [length]
    | cons bit rest => simp at entry
  | @fork n m label encoded c1 c2 left right allowed length leftNode rightNode leftIH rightIH =>
    obtain ⟨rest, rfl, entry⟩ := BitMap.exists_of_under found
    cases rest with
    | nil => simp at entry
    | cons bit rest =>
      rw [BitMap.branch_cons] at entry
      have below : rest.length = m := by
        cases bit with
        | false => exact leftIH (by simpa using entry)
        | true => exact rightIH (by simpa using entry)
      simp [length, below]

lemma Root.exists_node {root : Option Cell} (denotes : Root labels n root map)
    (found : map key = some value) : ∃ cell, root = some cell ∧ Node labels n cell map := by
  cases root with
  | none =>
    obtain rfl : map = .empty := denotes
    cases found
  | some cell => exact ⟨cell, rfl, denotes⟩

private lemma newNode_yields (label tail : List Bool) (thrown : Thrown)
    (payload : Payload labels m rest map) (length : n = label.length + m) (bound : n ≤ 1023)
    (overflow : thrown.IsCellOverflow) :
    Yields (do
        let cb ← appendDictLabel .new (label ++ tail) label.length n
        let cb ← orThrow (cb.addSliceBool rest) thrown
        cb.finalize)
      (fun cell => Node labels n cell (.under label map)) := by
  refine (appendDictLabel_yields _ tail (by omega) bound).bind_eq ?_
  refine (orThrow_addSlice_yields _ rest overflow).bind_eq ?_
  refine (finalize_yields _).imp ?_
  intro cell created
  subst created
  simpa [append, new] using payload.node (labels.chosen (by omega)) length

lemma createLeaf_yields (labels : Labelling) (storeVal : StoreValue) (length : key.length = n) (bound : n ≤ 1023) :
    Yields (createLeaf key n storeVal) (fun cell => Node labels n cell (.under key (.point storeVal.value))) := by
  subst length
  have label := appendDictLabel_yields .new [] (Nat.le_refl key.length) bound
  rw [append_nil] at label
  refine label.bind_eq ?_
  cases stored : storeVal.run _ with
  | none => exact trivial
  | some cb =>
    obtain rfl := storeVal.stores _ _ stored
    refine (finalize_yields _).imp ?_
    intro cell created
    subst created
    simpa [append, new] using
      (Payload.leaf storeVal.value).node (labels.chosen (Nat.le_refl key.length)) rfl

lemma createFork_yields (tail : List Bool) (leftNode : Node labels m c1 left)
    (rightNode : Node labels m c2 right) (length : n = label.length + (m + 1)) (bound : n ≤ 1023) :
    Yields (createFork (label ++ tail) label.length n (some c1) (some c2))
      (fun cell => Node labels n cell (.under label (.branch left right))) := by
  refine (appendDictLabel_yields _ tail (by omega) bound).bind_eq ?_
  refine (storeRef_yields _ c1).bind_eq ?_
  refine (storeRef_yields _ c2).bind_eq ?_
  refine (finalize_yields _).imp ?_
  intro cell created
  subst created
  simpa [new] using Node.fork (labels.chosen (by omega)) length leftNode rightNode

private lemma storeRefs_eq (cb : CellBuilder) (noRefs : cb.refs = []) (c1 c2 : Cell) :
    ((cb.storeRefBool (some c1)).bind fun cb => cb.storeRefBool (some c2)) = some { cb with refs := [c1, c2] } := by
  simp [storeRefBool, noRefs, Cell.maxRefs]

lemma finishCreateFork_yields (tail : List Bool) (leftNode : Node labels m c1 left)
    (rightNode : Node labels m c2 right) (length : n = label.length + (m + 1)) (bound : n ≤ 1023) :
    Yields (finishCreateFork (label ++ tail) label.length n (some c1) (some c2))
      (fun cell => Node labels n cell (.under label (.branch left right))) := by
  refine (appendDictLabel_yields _ tail (by omega) bound).bind_eq ?_
  rw [storeRefs_eq _ rfl c1 c2]
  refine (finalize_yields _).imp ?_
  intro cell created
  subst created
  simpa [new] using Node.fork (labels.chosen (by omega)) length leftNode rightNode

lemma mergeEdge_yields {upper : List Bool} {child : Cell} (node : Node labels m child map)
    (length : n = upper.length + m) (bound : n ≤ 1023) : Yields (mergeEdge (some child) upper m n)
      (fun cell => Node labels n cell (.under upper map)) := by
  obtain ⟨parser, label, rest, inner, k, parsed, reads, payload, split, rfl⟩ := node.parse
  unfold mergeEdge
  rw [parsed, ok_bind, reads.bits_eq, reads.length, reads.payload_eq, ← length_append, ← BitMap.under_append]
  have created := newNode_yields (upper ++ label) [] (.vmError .cellOv
    "cannot change label of an old dictionary cell while merging edges") payload
    (by rw [length_append]; omega) bound trivial
  rwa [append_nil] at created

lemma joinChildren_yields {fork : List Bool → Nat → Nat → Option Cell → Option Cell → Except Thrown Cell}
    {tail : List Bool} {c1 c2 : Option Cell} (forkYields : ∀ one two, Node labels m one left → Node labels m two right →
      Yields (fork (label ++ tail) label.length n (some one) (some two))
        (fun cell => Node labels n cell (.under label (.branch left right))))
    (leftRoot : Root labels m c1 left) (rightRoot : Root labels m c2 right)
    (length : n = label.length + (m + 1)) (bound : n ≤ 1023) : Yields (joinChildren fork (label ++ tail) label.length n c1 c2)
      (fun root => Root labels n root (.under label (.branch left right))) := by
  have below : n - label.length - 1 = m := by omega
  have longer : ∀ bit : Bool, n = (label ++ [bit]).length + m := by
    intro bit
    rw [length_append, length_singleton]
    omega
  cases c1 with
  | none =>
    obtain rfl : left = .empty := leftRoot
    cases c2 with
    | none =>
      obtain rfl : right = .empty := rightRoot
      simp [joinChildren, Root, BitMap.branch_empty, Ensures]
    | some two =>
      simp only [joinChildren, take_left, below]
      refine (mergeEdge_yields rightRoot (longer true) bound).bind ?_
      intro cell node
      rwa [BitMap.under_append] at node
  | some one =>
    cases c2 with
    | none =>
      obtain rfl : right = .empty := rightRoot
      simp only [joinChildren, take_left, below]
      refine (mergeEdge_yields leftRoot (longer false) bound).bind ?_
      intro cell node
      rwa [BitMap.under_append] at node
    | some two =>
      refine (forkYields one two leftRoot rightRoot).bind ?_
      intro cell node
      exact node

lemma lowerEdge_yields {common labelRest : List Bool}
    (reads : parser.Reads (common ++ bit :: labelRest) rest) (fits : labelRest.length ≤ m) (bound : m ≤ 1023) :
    Yields (lowerEdge parser common.length m) (· = { bits := dictLabel m labelRest, refs := [] }) := by
  have t : parser.lBits - common.length - 1 = labelRest.length := by
    rw [reads.length, length_append, length_cons]
    omega
  unfold lowerEdge
  simp only [t]
  rcases reads.shape with ⟨plain, _, text⟩ | ⟨repeated, _, uniform, _⟩
  · have lower : parser.remainder.bits.drop (common.length + 1) = labelRest ++ rest.bits := by
      rw [text]
      simp
    rw [if_neg (by simpa using plain), lower]
    exact appendDictLabel_yields .new rest.bits fits bound
  · rw [if_pos repeated]
    have lower : List.replicate labelRest.length parser.same = labelRest := by
      symm
      rw [eq_replicate_iff] at uniform ⊢
      exact ⟨rfl, fun other member => uniform.2 other (by simp [member])⟩
    have stored := appendDictLabelSame_yields .new parser.same fits bound
    rwa [lower] at stored

lemma splitEdge_yields {common labelRest keyRest : List Bool} {inner : BitMap CellSlice} (storeVal : StoreValue)
    (reads : parser.Reads (common ++ bit :: labelRest) rest) (payload : Payload labels m rest inner)
    (length : n = (common ++ bit :: labelRest).length + m)
    (keyLength : (common ++ (!bit) :: keyRest).length = n) (bound : n ≤ 1023) :
    Yields (splitEdge parser (common ++ (!bit) :: keyRest) n common.length storeVal) (fun cell => Node labels n cell
        (Function.update (BitMap.under (common ++ bit :: labelRest) inner)
          (common ++ (!bit) :: keyRest) (some storeVal.value))) := by
  rw [length_append, length_cons] at length keyLength
  have below : n - common.length - 1 = keyRest.length := by omega
  have newKey : (common ++ (!bit) :: keyRest).drop (common.length + 1) = keyRest := by simp
  have sw : (common ++ (!bit) :: keyRest).getD common.length false = !bit := by simp
  unfold splitEdge
  simp only [below, newKey, sw]
  refine (createLeaf_yields labels storeVal rfl (by omega)).bind ?_
  intro c1 leaf
  refine (lowerEdge_yields reads (by omega) (by omega)).bind_eq ?_
  refine (orThrow_addSlice_yields _ _ (by trivial)).bind_eq ?_
  refine (finalize_yields _).bind_eq ?_
  have lower : Node labels keyRest.length (.mk .ordinary (dictLabel keyRest.length labelRest ++ rest.bits) rest.refs)
      (.under labelRest inner) := payload.node (labels.chosen (by omega)) (by omega)
  rw [reads.payload_eq, BitMap.update_apart]
  cases bit with
  | false => exact createFork_yields _ lower leaf (by omega) bound
  | true => exact createFork_yields _ leaf lower (by omega) bound

end TonNode.Vm
