import TonNode.Vm.BocDecompression

/-!
# What the decompressor reads

Whatever the bytes are, reading ends with a status or with a graph whose edges lead to later nodes
and whose data fits into cells.
-/

namespace TonNode.Vm.BocCompression

open Boc Lib List Nat

def IsStatus (error : BocError) : Prop := ∃ message, error = .status message

abbrev Reads {α : Type} (result : Except BocError α) (holds : α → Prop) : Prop :=
  Ensures IsStatus result holds

variable {α : Type} {holds : α → Prop} {header : NodeHeader} {origSize nodeCount : Nat}

lemma reads_error (text : String) : Reads (decompressionError text : Except BocError α) holds :=
  Ensures.error ⟨_, rfl⟩

lemma reads_fetchBits {count : Nat} {bits : List Bool} (enough : ¬bits.length < count) :
    Reads (fetchBits count bits) fun result => result.1.length = count ∧ result.2 = bits.drop count := by
  unfold fetchBits
  rw [if_neg enough]
  exact ⟨by rw [length_take]; omega, rfl⟩

lemma bitsValue_lt_of_length {bits : List Bool} {count : Nat} (length : bits.length = count) :
    bitsValue bits < 2 ^ count := length ▸ bitsValue_lt bits

lemma reads_readUint {width : Nat} (bits : List Bool) (narrow : width ≤ 32) :
    Reads (readUint bits width) fun result => result.1 < 2 ^ width := by
  unfold readUint
  split
  next => exact reads_error _
  next enough =>
    rw [decide_eq_true narrow]
    apply (reads_fetchBits enough).bind
    intro result fetched
    exact bitsValue_lt_of_length fetched.1

lemma reads_readAll {α β : Type} {read : α → List Bool → Except BocError (β × List Bool)}
    {holds : α → β → Prop} {items : List α}
    (record : ∀ item ∈ items, ∀ bits, Reads (read item bits) fun result => holds item result.1) (bits : List Bool) :
    Reads (readAll read items bits) fun result => List.Forall₂ holds items result.1 := by
  induction items generalizing bits with
  | nil => exact List.Forall₂.nil
  | cons item rest ih =>
    unfold readAll
    apply (record item mem_cons_self bits).bind
    intro first firstHolds
    apply (ih (forall_mem_cons.mp record).2 first.2).bind
    intro others othersHold
    exact List.Forall₂.cons firstHolds othersHold

structure NodeHeader.Valid (header : NodeHeader) : Prop where
  few : header.refsCnt ≤ 4
  mask : header.pbLevelMask ≤ 14
  length : header.dataLength ≤ maxCellDataLengthBits
  pruned : header.pbLevelMask ≠ 0 → header.dataLength ≤ (256 + 16) * 3
  small : header.isDataSmall = true → header.dataLength ≤ 127

lemma reads_checkLength (few : header.refsCnt ≤ 4) (mask : header.pbLevelMask ≤ 14)
    (pruned : header.pbLevelMask ≠ 0 → header.dataLength ≤ (256 + 16) * 3)
    (small : header.isDataSmall = true → header.dataLength ≤ 127) (bits : List Bool) :
    Reads (checkLength header bits) fun result => result.1.Valid := by
  unfold checkLength
  split
  next => exact reads_error _
  next short => exact ⟨few, mask, Nat.le_of_not_lt short, pruned, small⟩

lemma countBits32_le_three {mask : Nat} (low : mask ≤ 14) : countBits32 mask ≤ 3 := by
  have all : ∀ mask < 15, countBits32 mask ≤ 3 := by decide
  exact all mask (by omega)

lemma reads_readLength (few : header.refsCnt ≤ 4)
    (mask : header.pbLevelMask ≤ 14) (unread : header.dataLength = 0) (unknown : header.isDataSmall = false) (bits : List Bool) :
    Reads (readLength header bits) fun result => result.1.Valid := by
  have zero : header.dataLength ≤ (256 + 16) * 3 := by omega
  have notSmall : header.isDataSmall = true → header.dataLength ≤ 127 := fun _ => by omega
  unfold readLength
  split
  next => exact reads_checkLength few mask (fun _ => zero) notSmall bits
  split
  next =>
    split
    next =>
      apply reads_checkLength
      case few => exact zero_le 4
      case mask => exact mask
      case pruned => exact fun _ => zero_le _
      case small => exact fun _ => zero_le _
    next =>
      split
      next => exact reads_error _
      apply reads_checkLength
      case few => exact few
      case mask => exact mask
      case pruned => exact fun _ => mul_le_mul_left _ (countBits32_le_three mask)
      case small =>
        intro small
        rw [unknown] at small
        exact Bool.noConfusion small
  next notPruned =>
    split
    next => exact reads_error _
    next enough =>
      apply (reads_fetchBits (by omega)).bind
      intro first fetched
      apply (reads_fetchBits (by rw [fetched.2, length_drop]; omega)).bind
      intro second length
      apply reads_checkLength
      case few => exact few
      case mask => exact mask
      case pruned => exact fun pruned => absurd pruned notPruned
      case small =>
        intro small
        have flagged := of_decide_eq_true small
        rw [if_pos flagged]
        exact le_of_lt_succ (bitsValue_lt_of_length length.1)

lemma reads_readHeader (bits : List Bool) : Reads (readHeader bits) fun result => result.1.Valid := by
  unfold readHeader
  split
  next => exact reads_error _
  next enough =>
    apply (reads_fetchBits (by omega)).bind
    intro type typeFetched
    apply (reads_fetchBits (by rw [typeFetched.2, length_drop]; omega)).bind
    intro refs _
    have low := bitsValue_lt_of_length typeFetched.1
    simp only []
    split
    next => exact reads_error _
    next few =>
      apply reads_readLength
      case few => exact Nat.le_of_not_lt few
      case mask =>
        show (if bitsValue type.1 ≠ 9 ∧ bitsValue type.1 ≠ 0 then bitsValue type.1 - 1 else 0) ≤ 14
        split <;> omega
      case unread => rfl
      case unknown => rfl

lemma reads_readDirectEdges (entry : NodeHeader × Nat) (bits : List Bool) :
    Reads (readDirectEdges entry bits) fun result => result.1.length = entry.1.refsCnt := by
  have all : Reads (readDirectEdges entry bits) fun result =>
      List.Forall₂ (fun _ _ => True) (List.range entry.1.refsCnt) result.1 := by
    apply reads_readAll
    intro _ _ bits
    apply (reads_readUint bits (by decide)).bind
    intro _ _
    exact trivial
  apply all.imp
  intro result related
  rw [← related.length_eq, length_range]

lemma reads_readPrefix (header : NodeHeader) (bits : List Bool) :
    Reads (readPrefix header bits) fun result => result.1.length ≤ header.dataLength % 8 := by
  unfold readPrefix
  split
  next => exact zero_le _
  next =>
    simp only []
    split
    next => exact reads_error _
    next enough => exact (reads_fetchBits enough).imp fun _ fetched => Nat.le_of_eq fetched.1

lemma requiredBits_le {value : Nat} (small : value < 2 ^ 32) : requiredBits value ≤ 32 := by
  unfold requiredBits
  split
  next => exact zero_le 32
  next nonzero =>
    have := (log2_lt nonzero).mpr small
    omega

lemma reads_readEdge {origSize nodeCount index known : Nat} (few : nodeCount ≤ 2 ^ 20)
    (bits : List Bool) : Reads (readEdge origSize nodeCount index known bits) fun _ => True := by
  have narrow : requiredBits (nodeCount - index - 3) ≤ 32 := requiredBits_le (by omega)
  unfold readEdge
  split
  next => exact trivial
  split
  next => exact trivial
  simp only []
  split
  next => exact (reads_readUint bits narrow).bind fun _ _ => trivial
  next =>
    apply (reads_readUint bits (by decide)).bind
    intro short _
    have width : (if short.1 ≠ 0 then 8 - (origSize - short.2.length) % 8
        else requiredBits (nodeCount - index - 3)) ≤ 32 := by
      split <;> omega
    exact (reads_readUint short.2 width).bind fun _ _ => trivial

lemma reads_readNodeEdges (few : nodeCount ≤ 2 ^ 20) (entry : List Nat × Nat) (bits : List Bool) :
    Reads (readNodeEdges origSize nodeCount entry bits) fun result => result.1.length = entry.1.length := by
  have all : Reads (readNodeEdges origSize nodeCount entry bits) fun result =>
      List.Forall₂ (fun _ _ => True) entry.1 result.1 :=
    reads_readAll (fun _ _ bits => reads_readEdge few bits) bits
  exact all.imp fun _ related => related.length_eq.symm

lemma reads_forM {check : α → Except BocError Unit}
    {items : List α} (each : ∀ item ∈ items, Reads (check item) fun _ => holds item) :
    Reads (items.forM check) fun _ => ∀ item ∈ items, holds item := by
  induction items with
  | nil =>
    intro item member
    cases member
  | cons item rest ih =>
    rw [forM_eq_forM, forM_cons]
    apply (each item mem_cons_self).bind
    intro _ first
    apply (ih (forall_mem_cons.mp each).2).imp
    intro _ others other member
    cases member with
    | head => exact first
    | tail _ later => exact others other later

lemma reads_checkConnections (nodeCount : Nat) (entry : List Nat × Nat) : Reads (checkConnections nodeCount entry) fun _ =>
      ∀ child ∈ entry.1, entry.2 < child ∧ child < nodeCount := by
  apply reads_forM
  intro child _
  split
  next => exact reads_error _
  next inside =>
    split
    next => exact reads_error _
    next later => exact ⟨Nat.lt_of_not_le later, Nat.lt_of_not_le inside⟩

lemma reads_readPadding (count : Nat) (bits : List Bool) : Reads (readPadding count bits) fun _ => True := by
  induction count generalizing bits with
  | zero => exact trivial
  | succ count ih =>
    unfold readPadding
    apply (reads_readUint bits (by decide)).bind
    intro bit _
    simp only []
    split
    next => exact reads_error _
    next => exact ih bit.2

/-- The two parts of the data and what precedes them fit into a cell. -/
def DataFits (header : NodeHeader) (start rest : Nat) : Prop :=
  (if header.pbLevelMask ≠ 0 then 16 else 0) + start + rest ≤ Cell.maxBits

lemma reads_readMarker (header : NodeHeader) (bits : List Bool) : Reads (readMarker header bits) fun result =>
      header.pbLevelMask = 0 → header.isDataSmall = false → 1 ≤ result.1 := by
  unfold readMarker
  split
  next =>
    apply (reads_readUint _ (by decide)).bind
    intro _ _ _ _
    exact le_add_left 1 _
  next unmarked =>
    intro notPruned notSmall
    exact absurd ⟨notPruned, by rw [notSmall]; rfl⟩ unmarked

lemma reads_readSuffix (valid : header.Valid) (bits : List Bool) :
    Reads (readSuffix header bits) fun result => DataFits header (header.dataLength % 8) result.1.length := by
  have length : header.dataLength ≤ 1024 := valid.length
  have maxBits : Cell.maxBits = 1023 := rfl
  unfold readSuffix
  split
  next =>
    show (if header.pbLevelMask ≠ 0 then 16 else 0) + header.dataLength % 8 + 0 ≤ Cell.maxBits
    split <;> omega
  apply (reads_readMarker header bits).bind
  intro result onePadding
  simp only []
  split
  next => exact reads_error _
  next long =>
    split
    next => exact reads_error _
    next enough =>
      apply (reads_fetchBits enough).imp
      intro fetched whole
      unfold DataFits
      rw [whole.1]
      split
      next pruned =>
        have := valid.pruned pruned
        omega
      next notPruned =>
        cases small : header.isDataSmall with
        | true =>
          have := valid.small small
          omega
        | false =>
          have := onePadding (by omega) small
          omega

lemma reads_foldlM {α β : Type} {body : α → β → Except BocError α} {items : List β}
    (each : ∀ item ∈ items, ∀ value, Reads (body value item) fun _ => True) (value : α) :
    Reads (items.foldlM body value) fun _ => True := by
  induction items generalizing value with
  | nil => exact trivial
  | cons item rest ih =>
    rw [foldlM_cons]
    apply (each item mem_cons_self value).bind
    intro next _
    exact ih (forall_mem_cons.mp each).2 next

lemma reads_nodeDepths {nodeCount : Nat} {edges : List (List Nat)} (fits : edges.length ≤ nodeCount)
    (later : ∀ (index : Nat) (refs : List Nat), edges[index]? = some refs → ∀ child ∈ refs,
      nodeCount - edges.length + index < child ∧ child < nodeCount) :
    Reads (nodeDepths nodeCount edges) fun depths => depths.length = edges.length := by
  induction edges with
  | nil => rfl
  | cons refs rest ih =>
    rw [length_cons] at fits later
    unfold nodeDepths
    have restLater : ∀ (index : Nat) (refs : List Nat), rest[index]? = some refs →
        ∀ child ∈ refs, nodeCount - rest.length + index < child ∧ child < nodeCount := by
      intro index others found child member
      have := later (index + 1) others found child member
      omega
    apply (ih (by omega) restLater).bind
    intro depths length
    apply Ensures.bind (reads_foldlM _ 0)
    · intro deepest _
      split
      next => exact congrArg (· + 1) length
      next =>
        split
        next => exact reads_error _
        next => exact congrArg (· + 1) length
    · intro child member depth
      have position := later 0 refs rfl child member
      have inside : child - (nodeCount - (rest.length + 1) + 1) < depths.length := by omega
      rw [getElem?_eq_getElem inside]
      exact trivial

/-- A node that can be built once the nodes it refers to have been built. -/
structure ParsedNode.Valid (nodeCount index : Nat) (node : ParsedNode) : Prop where
  refs_length : node.refs.length = node.header.refsCnt
  few : node.refs.length ≤ 4
  later : ∀ child ∈ node.refs, index < child ∧ child < nodeCount
  fits : DataFits node.header node.dataPrefix.length node.dataSuffix.length

def ValidGraph (nodes : List ParsedNode) : Prop :=
  ∀ (index : Nat) (node : ParsedNode), nodes[index]? = some node → node.Valid nodes.length index

private lemma forall₂_getElem? {α β : Type} {holds : α → β → Prop} {items : List α}
    {values : List β} (related : List.Forall₂ holds items values) {index : Nat} {value : β}
    (found : values[index]? = some value) : ∃ item, items[index]? = some item ∧ holds item value := by
  induction related generalizing index with
  | nil => simp at found
  | @cons item first items values firstHolds _ ih =>
    cases index with
    | zero =>
      rw [getElem?_cons_zero, Option.some_inj] at found
      exact ⟨item, rfl, found ▸ firstHolds⟩
    | succ index => exact ih found

private lemma zipIdx_getElem? {items : List α} {index : Nat} {entry : α × Nat}
    (found : items.zipIdx[index]? = some entry) : items[index]? = some entry.1 ∧ entry.2 = index := by
  rw [getElem?_zipIdx] at found
  obtain ⟨item, inItems, rfl⟩ := Option.map_eq_some_iff.mp found
  exact ⟨inItems, Nat.zero_add index⟩

lemma reads_readNodes (few : nodeCount ≤ 2 ^ 20) (bits : List Bool) :
    Reads (readNodes origSize nodeCount bits) fun nodes => nodes.length = nodeCount ∧ ValidGraph nodes := by
  unfold readNodes
  apply (reads_readAll (fun _ _ bits => reads_readHeader bits) bits).bind
  intro headers headersValid
  apply (@reads_readAll _ _ readDirectEdges (fun entry refs => refs.length = entry.1.refsCnt) _
    (fun entry _ bits => reads_readDirectEdges entry bits) headers.2).bind
  intro direct directLengths
  apply (@reads_readAll _ _ readPrefix (fun header start => start.length ≤ header.dataLength % 8) _
    (fun header _ bits => reads_readPrefix header bits) direct.2).bind
  intro prefixes prefixLengths
  apply (@reads_readAll _ _ (readNodeEdges origSize nodeCount) (fun entry refs => refs.length = entry.1.length) _
    (fun entry _ bits => reads_readNodeEdges few entry bits) prefixes.2).bind
  intro edges edgeLengths
  apply (reads_forM fun entry _ => reads_checkConnections nodeCount entry).bind
  intro _ connected
  apply (reads_readPadding _ edges.2).bind
  intro padded _
  have valid : ∀ header ∈ headers.1, header.Valid := by
    intro header member
    obtain ⟨index, found⟩ := getElem?_of_mem member
    exact (forall₂_getElem? headersValid found).choose_spec.2
  apply (@reads_readAll _ _ readSuffix (fun header rest => DataFits header (header.dataLength % 8) rest.length) _
    (fun header member bits => reads_readSuffix (valid header member) bits) padded).bind
  intro suffixes suffixLengths
  have headersLength : headers.1.length = nodeCount := by
    rw [← headersValid.length_eq, length_range]
  have directLength : direct.1.length = nodeCount := by
    rw [← directLengths.length_eq, length_zipIdx, headersLength]
  have edgesLength : edges.1.length = nodeCount := by
    rw [← edgeLengths.length_eq, length_zipIdx, directLength]
  have edgesLater : ∀ (index : Nat) (refs : List Nat), edges.1[index]? = some refs →
      ∀ child ∈ refs, index < child ∧ child < nodeCount := by
    intro index refs found
    have entry : (refs, index) ∈ edges.1.zipIdx := mem_zipIdx_iff_getElem?.mpr found
    exact connected _ entry
  simp only []
  split
  next => exact reads_error _
  have depths := @reads_nodeDepths nodeCount edges.1 (Nat.le_of_eq edgesLength) (by
    intro index refs found child member
    have := edgesLater index refs found child member
    omega)
  apply depths.bind
  intro _ _
  have length : ((headers.1.zip (edges.1.zip (prefixes.1.zip suffixes.1))).map fun parts =>
      ({ header := parts.1, refs := parts.2.1, dataPrefix := parts.2.2.1,
         dataSuffix := parts.2.2.2 } : ParsedNode)).length = nodeCount := by
    have prefixesLength := prefixLengths.length_eq
    have suffixesLength := suffixLengths.length_eq
    simp only [length_map, length_zip]
    omega
  refine ⟨length, ?_⟩
  intro index node found
  rw [length]
  rw [getElem?_map] at found
  obtain ⟨⟨header, refs, start, rest⟩, parts, rfl⟩ := Option.map_eq_some_iff.mp found
  obtain ⟨headerFound, others⟩ := getElem?_zip_eq_some.mp parts
  obtain ⟨refsFound, data⟩ := getElem?_zip_eq_some.mp others
  obtain ⟨startFound, restFound⟩ := getElem?_zip_eq_some.mp data
  obtain ⟨directEntry, directFound, sameLength⟩ := forall₂_getElem? edgeLengths refsFound
  obtain ⟨directRefs, rfl⟩ := zipIdx_getElem? directFound
  obtain ⟨headerEntry, headerAt, count⟩ := forall₂_getElem? directLengths directRefs
  obtain ⟨headerSame, -⟩ := zipIdx_getElem? headerAt
  obtain ⟨ofPrefix, prefixHeader, startLength⟩ := forall₂_getElem? prefixLengths startFound
  obtain ⟨ofSuffix, suffixHeader, restLength⟩ := forall₂_getElem? suffixLengths restFound
  cases headerFound.symm.trans headerSame
  cases headerFound.symm.trans prefixHeader
  cases headerFound.symm.trans suffixHeader
  have refsLength : refs.length = headerEntry.1.refsCnt := sameLength.trans count
  constructor
  case refs_length => exact refsLength
  case few =>
    have headerValid := valid _ (mem_of_getElem? headerFound)
    exact refsLength ▸ headerValid.few
  case later => exact edgesLater _ refs refsFound
  case fits =>
    simp only [] at startLength
    unfold DataFits at restLength ⊢
    simp only [] at restLength ⊢
    omega

lemma reads_parse (serialized : List UInt8) : Reads (parse serialized) fun parsed =>
      parsed.nodes.length ≤ maxNodeCount ∧ ValidGraph parsed.nodes ∧ parsed.rootIndexes ≠ [] ∧
        ∀ index ∈ parsed.rootIndexes, index < parsed.nodes.length := by
  unfold parse
  apply (reads_readUint _ (by decide)).bind
  intro rootCount _
  simp only []
  split
  next => exact reads_error _
  next someRoot =>
    split
    next => exact reads_error _
    have roots := @reads_readAll Nat Nat (fun _ bits => readUint bits 32) (fun _ _ => True) (List.range rootCount.1)
      (fun _ _ bits => (reads_readUint bits (by decide)).imp fun _ _ => trivial) rootCount.2
    apply roots.bind
    intro rootIndexes related
    apply (reads_readUint _ (by decide)).bind
    intro nodeCount _
    split
    next => exact reads_error _
    next allowed =>
      split
      next => exact reads_error _
      split
      next => exact reads_error _
      next inside =>
        have few : nodeCount.1 ≤ 2 ^ 20 := by
          have := not_or.mp allowed
          exact Nat.le_of_not_lt this.2
        apply (reads_readNodes few nodeCount.2).bind
        intro nodes graph
        have length := related.length_eq
        rw [length_range] at length
        refine ⟨graph.1 ▸ few, graph.2, ?_, ?_⟩
        · intro (none : rootIndexes.1 = [])
          rw [none, length_nil] at length
          exact someRoot (Or.inl length)
        intro index member
        rw [graph.1]
        apply Nat.lt_of_not_le
        intro above
        exact inside (any_eq_true.mpr ⟨index, member, decide_eq_true above⟩)

end TonNode.Vm.BocCompression
