import TonNode.Vm.DictOperations

/-!
# A dictionary is a finite map

Any sequence of operations on the keys of a dictionary gives the answers of the same operations on
a partial map of bit strings. Keys are ordered as unsigned numbers, or as signed ones if the first
bit is inverted.
-/

namespace TonNode.Vm

open Lib List

variable {labels : Labelling}

/-- The number a key spells; with `signed` the first bit is the sign. -/
def keyValue (signed : Bool) (key : List Bool) : Int :=
  if signed && key.headD false then bitsValue key - 2 ^ key.length else bitsValue key

/-- The key wins over the other one at their first different bit: the bit must be `first` at the
start of the keys and `later` after that. -/
def Precedes (first later : Bool) (key other : List Bool) : Prop :=
  ∃ common bit keyRest otherRest, key = common ++ bit :: keyRest ∧ other = common ++ (!bit) :: otherRest ∧
    bit = if common = [] then first else later

lemma precedes_cons (first later bit other : Bool) (key tail : List Bool) : Precedes first later (bit :: key) (other :: tail) ↔
      if bit = other then Precedes later later key tail else bit = first := by
  constructor
  · rintro ⟨common, diff, keyRest, otherRest, keySplit, otherSplit, isDiff⟩
    cases common with
    | nil =>
      obtain ⟨rfl, rfl⟩ := List.cons.inj keySplit
      obtain ⟨rfl, rfl⟩ := List.cons.inj otherSplit
      rw [if_neg (by cases bit <;> decide)]
      simpa using isDiff
    | cons shared common =>
      obtain ⟨rfl, rfl⟩ := List.cons.inj keySplit
      obtain ⟨rfl, rfl⟩ := List.cons.inj otherSplit
      rw [if_pos rfl]
      exact ⟨common, diff, keyRest, otherRest, rfl, rfl, by simpa using isDiff⟩
  · split
    next same =>
      subst same
      rintro ⟨common, diff, keyRest, otherRest, rfl, rfl, isDiff⟩
      exact ⟨bit :: common, diff, keyRest, otherRest, rfl, rfl, by simpa using isDiff⟩
    next differ =>
      obtain rfl : other = !bit := by cases bit <;> cases other <;> simp_all
      intro isFirst
      exact ⟨[], bit, key, tail, rfl, rfl, by simpa using isFirst⟩

lemma precedes_append (first later : Bool) (label key other : List Bool) :
    Precedes first later (label ++ key) (label ++ other) ↔ Precedes (if label = [] then first else later) later key other := by
  induction label generalizing first with
  | nil => rfl
  | cons bit label ih =>
    rw [cons_append, cons_append, precedes_cons, if_pos rfl, ih, ite_self, if_neg (cons_ne_nil bit label)]

private def constMode (bit : Bool) : BitVec 32 := if bit then -1#32 else 0#32

/-- The mode asks for the bit `first` at the start of a key and for `later` after it. -/
structure ModeBits (mode : BitVec 32) (first later : Bool) : Prop where
  first : mode.getLsbD 0 = first
  later : mode.sshiftRight 1 = constMode later

private lemma constMode_bits (bit : Bool) : ModeBits (constMode bit) bit bit := by
  cases bit <;> exact ⟨by decide, by decide⟩

lemma minmaxMode_bits (fetchMax invertFirst : Bool) :
    ModeBits (minmaxMode fetchMax invertFirst) (fetchMax ^^ invertFirst) fetchMax := by
  cases fetchMax <;> cases invertFirst <;> exact ⟨by decide, by decide⟩

namespace ModeBits

variable {mode : BitVec 32} {first later : Bool}

lemma shift (bits : ModeBits mode first later) : ModeBits (mode.sshiftRight 1) later later := by
  rw [bits.later]
  exact constMode_bits later

lemma not (bits : ModeBits mode first later) : ModeBits (~~~mode) (!first) (!later) := by
  refine ⟨by rw [BitVec.getLsbD_not, bits.first]; rfl, ?_⟩
  have flipped : (~~~mode).sshiftRight 1 = ~~~(mode.sshiftRight 1) := by
    ext index inside
    simp only [BitVec.getElem_sshiftRight, BitVec.getElem_not, BitVec.msb_not]
    split <;> simp
  rw [flipped, bits.later]
  cases later <;> decide

lemma after (bits : ModeBits mode first later) (label : List Bool) :
    ModeBits (if label.length ≠ 0 then mode.sshiftRight 1 else mode) (if label = [] then first else later) later := by
  cases label with
  | nil => simpa using bits
  | cons bit label => simpa using bits.shift

end ModeBits

lemma exists_child {m : Nat} {c1 c2 : Cell} {left right : BitMap CellSlice}
    (leftNode : Node labels m c1 left) (rightNode : Node labels m c2 right) (bit : Bool) :
    ∃ child childMap, [c1, c2][bit.toNat]? = some child ∧ Node labels m child childMap ∧
      ∀ below, BitMap.branch left right (bit :: below) = childMap below := by
  cases bit with
  | false => exact ⟨c1, left, rfl, leftNode, fun _ => rfl⟩
  | true => exact ⟨c2, right, rfl, rightNode, fun _ => rfl⟩

variable {n : Nat} {cell : Cell} {map : BitMap CellSlice} {mode : BitVec 32} {first later : Bool} {low high : List Bool}

private lemma minmaxLoop_spec (node : Node labels n cell map) (bits : ModeBits mode first later) (keyBuffer : List Bool) :
    ∃ key value, minmaxLoop (some cell) keyBuffer n mode = .ok (keyBuffer ++ key, value) ∧ map key = some value ∧
      ∀ other found, map other = some found → other = key ∨ Precedes first later key other := by
  induction n using Nat.strongRecOn generalizing cell map mode first keyBuffer with
  | _ n ih =>
    obtain ⟨parser, label, rest, inner, m, parsed, reads, payload, split, rfl⟩ := node.parse
    rw [minmaxLoop.eq_def, parsed, ok_bind]
    simp only [reads.bits_eq, reads.length]
    rw [ensure_eq (by omega), ok_bind]
    cases payload with
    | leaf value =>
      rw [dif_neg (by omega), reads.payload_eq]
      refine ⟨label, rest, rfl, by simp, ?_⟩
      intro other found present
      obtain ⟨tail, rfl, inPoint⟩ := BitMap.exists_of_under present
      cases tail with
      | nil => exact .inl (by simp)
      | cons bit tail => cases inPoint
    | @fork m c1 c2 left right leftNode rightNode =>
      rw [dif_pos (by omega)]
      have descend : n - label.length - 1 = m := by omega
      have next := bits.after label
      simp only [reads.prefetchRef_eq, descend, next.first]
      generalize side : (if label = [] then first else later) = bit at next ⊢
      obtain ⟨child, childMap, isChild, childNode, below⟩ := exists_child leftNode rightNode bit
      obtain ⟨key, value, result, present, extreme⟩ := ih m (by omega) childNode next.shift (keyBuffer ++ label ++ [bit])
      refine ⟨label ++ bit :: key, value, ?_, ?_, ?_⟩
      · rw [isChild, result]
        simp
      · rw [BitMap.under_apply_append, below, present]
      · intro other found isPresent
        obtain ⟨tail, rfl, inBranch⟩ := BitMap.exists_of_under isPresent
        cases tail with
        | nil => cases inBranch
        | cons otherBit tail =>
          rw [precedes_append, side, precedes_cons]
          by_cases same : bit = otherBit
          · subst same
            rw [below] at inBranch
            rw [if_pos rfl]
            exact (extreme tail found inBranch).imp (fun same => by rw [same]) id
          · exact .inr (by rw [if_neg same])

lemma dictLookupMinmax_precedes (node : Node labels n cell map) (bits : ModeBits mode first later) :
    ∃ key value, dictLookupMinmax (some cell) n mode = .ok (some (key, value)) ∧ map key = some value ∧
      ∀ other found, map other = some found → other = key ∨ Precedes first later key other := by
  obtain ⟨key, value, result, present, extreme⟩ := minmaxLoop_spec node bits []
  exact ⟨key, value, by rw [dictLookupMinmax, result]; rfl, present, extreme⟩

private lemma bitsValue_cons (bit : Bool) (bits : List Bool) :
    bitsValue (bit :: bits) = bit.toNat * 2 ^ bits.length + bitsValue bits := by
  rw [← singleton_append, bitsValue_append]
  simp [bitsValue]

private lemma bitsValue_lt_of_bit (common : List Bool) (length : low.length = high.length) :
    bitsValue (common ++ false :: low) < bitsValue (common ++ true :: high) := by
  have below := bitsValue_lt low
  rw [bitsValue_append, bitsValue_append, bitsValue_cons, bitsValue_cons, length_cons, length_cons, ← length]
  simp
  omega

private lemma keyValue_lt (signed bit : Bool) (common : List Bool)
    (length : low.length = high.length) (smaller : bit = (signed && common.isEmpty)) :
    keyValue signed (common ++ bit :: low) < keyValue signed (common ++ (!bit) :: high) := by
  cases common with
  | nil =>
    have lowBound := bitsValue_lt low
    have highBound := bitsValue_lt high
    have powers : (2 : Int) ^ (low.length + 1) = 2 * 2 ^ low.length := by ring
    have cast : ((2 ^ low.length : Nat) : Int) = 2 ^ low.length := by push_cast; rfl
    rw [← length] at highBound
    cases signed with
    | false =>
      obtain rfl : bit = false := by simpa using smaller
      simp [keyValue, bitsValue_cons, ← length]
      omega
    | true =>
      obtain rfl : bit = true := by simpa using smaller
      simp [keyValue, bitsValue_cons, ← length]
      omega
  | cons head common =>
    obtain rfl : bit = false := by simpa using smaller
    have unsigned := bitsValue_lt_of_bit (head :: common) length
    simp only [cons_append] at unsigned
    simp only [keyValue, cons_append, headD_cons, Bool.not_false, length_cons, length_append, length]
    split <;> omega

lemma Precedes.keyValue_lt {fetchMax signed : Bool} {key other : List Bool}
    (precedes : Precedes (fetchMax ^^ signed) fetchMax key other) (length : key.length = other.length) :
    if fetchMax then keyValue signed other < keyValue signed key else keyValue signed key < keyValue signed other := by
  obtain ⟨common, bit, keyRest, otherRest, rfl, rfl, isBit⟩ := precedes
  have rests : keyRest.length = otherRest.length := by simpa using length
  have atStart : bit = (fetchMax ^^ (signed && common.isEmpty)) := by
    cases common <;> simpa using isBit
  cases fetchMax with
  | false => simpa using Vm.keyValue_lt signed bit common rests (by simpa using atStart)
  | true => simpa using Vm.keyValue_lt signed (!bit) common rests.symm (by simp [atStart])

/-- `key` holds the least value of the map, or the greatest with `fetchMax`. -/
def IsExtreme (fetchMax signed : Bool) (map : BitMap CellSlice) (key : List Bool) : Prop :=
  ∀ other found, map other = some found →
    if fetchMax then keyValue signed other ≤ keyValue signed key
    else keyValue signed key ≤ keyValue signed other

lemma dictLookupMinmax_eq (node : Node labels n cell map) (fetchMax signed : Bool) : ∃ key value,
      dictLookupMinmax (some cell) n (minmaxMode fetchMax signed) = .ok (some (key, value)) ∧
      map key = some value ∧ IsExtreme fetchMax signed map key := by
  obtain ⟨key, value, result, present, extreme⟩ := dictLookupMinmax_precedes node (minmaxMode_bits fetchMax signed)
  refine ⟨key, value, result, present, ?_⟩
  intro other found isPresent
  rcases extreme other found isPresent with rfl | precedes
  · simp
  · have less := precedes.keyValue_lt ((node.key_length present).trans (node.key_length isPresent).symm)
    split at less
    · rw [if_pos (by assumption)]
      exact Int.le_of_lt less
    · rw [if_neg (by assumption)]
      exact Int.le_of_lt less

inductive Operation where
  | set (key : List Bool) (value : CellSlice) (mode : SetMode)
  | setGen (key : List Bool) (storeVal : StoreValue) (mode : SetMode)
  | lookupSet (key : List Bool) (value : CellSlice) (mode : SetMode)
  | lookup (key : List Bool)
  | lookupDelete (key : List Bool)
  | extractMinmaxKey (fetchMax invertFirst : Bool)

inductive Answer where
  | flag (success : Bool)
  | value (value : Option CellSlice)
  | entry (entry : Option (List Bool × CellSlice))

namespace Dictionary

def perform (dict : Dictionary) : Operation → Except Thrown (Answer × Dictionary)
  | .set key value mode => do
    let (success, dict) ← dict.set key value mode
    return (.flag success, dict)
  | .setGen key storeVal mode => do
    let (success, dict) ← dict.setGen key storeVal mode
    return (.flag success, dict)
  | .lookupSet key value mode => do
    let (oldVal, dict) ← dict.lookupSet key value mode
    return (.value oldVal, dict)
  | .lookup key => do
    let found ← dict.lookup key
    return (.value found, dict)
  | .lookupDelete key => do
    let (oldVal, dict) ← dict.lookupDelete key
    return (.value oldVal, dict)
  | .extractMinmaxKey fetchMax invertFirst => do
    let (entry, dict) ← dict.extractMinmaxKey fetchMax invertFirst
    return (.entry entry, dict)

def run (dict : Dictionary) : List Operation → Except Thrown (List Answer × Dictionary)
  | [] => .ok ([], dict)
  | operation :: rest => do
    let (answer, dict) ← dict.perform operation
    let (answers, dict) ← dict.run rest
    return (answer :: answers, dict)

/-- The dictionary denotes a map on keys of `n` bits. -/
structure Denotes (labels : Labelling) (n : Nat) (dict : Dictionary) (map : BitMap CellSlice) :
    Prop where
  keyBits : dict.keyBits = n
  root : Root labels n dict.rootCell map

end Dictionary

namespace Operation

def HasKeyBits (n : Nat) : Operation → Prop
  | .set key _ _ | .setGen key _ _ | .lookupSet key _ _ | .lookup key | .lookupDelete key =>
    key.length = n
  | .extractMinmaxKey _ _ => True

/-- A change of a map that the operation reports as a failure. -/
def Refused (map : BitMap CellSlice) : Operation → Prop
  | .set key _ mode | .setGen key _ mode | .lookupSet key _ mode => mode.applies (map key) = false
  | .lookup _ => False
  | .lookupDelete key => map key = none
  | .extractMinmaxKey _ _ => map = .empty

end Operation

/-- A value stored in a map if the mode applies to the old one. -/
def assign (map : BitMap CellSlice) (key : List Bool) (value : CellSlice) (mode : SetMode) : BitMap CellSlice :=
  if mode.applies (map key) then Function.update map key (some value) else map

inductive MapStep (map : BitMap CellSlice) : Operation → Answer → BitMap CellSlice → Prop where
  | set (key : List Bool) (value : CellSlice) (mode : SetMode) :
      MapStep map (.set key value mode) (.flag (mode.applies (map key))) (assign map key value mode)
  | setGen (key : List Bool) (storeVal : StoreValue) (mode : SetMode) :
      MapStep map (.setGen key storeVal mode) (.flag (mode.applies (map key))) (assign map key storeVal.value mode)
  | lookupSet (key : List Bool) (value : CellSlice) (mode : SetMode) :
      MapStep map (.lookupSet key value mode) (.value (map key)) (assign map key value mode)
  | lookup (key : List Bool) : MapStep map (.lookup key) (.value (map key)) map
  | lookupDelete (key : List Bool) :
      MapStep map (.lookupDelete key) (.value (map key)) (Function.update map key none)
  | extractNone (fetchMax signed : Bool) :
      map = .empty → MapStep map (.extractMinmaxKey fetchMax signed) (.entry none) map
  | extract (fetchMax signed : Bool) (key : List Bool) (value : CellSlice) :
      map key = some value → IsExtreme fetchMax signed map key →
      MapStep map (.extractMinmaxKey fetchMax signed) (.entry (some (key, value))) (Function.update map key none)

inductive MapRun : BitMap CellSlice → List Operation → List Answer → BitMap CellSlice → Prop where
  | nil (map : BitMap CellSlice) : MapRun map [] [] map
  | cons {map next final : BitMap CellSlice} {operation : Operation} {answer : Answer}
      {operations : List Operation} {answers : List Answer} :
      MapStep map operation answer next → MapRun next operations answers final →
      MapRun map (operation :: operations) (answer :: answers) final

namespace Dictionary

variable {dict : Dictionary}

lemma Denotes.valid (denotes : dict.Denotes labels n map) (bound : n ≤ 1023) : dict.forceValidate = .ok () := by
  refine ensure_eq ?_ _
  rw [denotes.keyBits]
  exact bound

lemma Denotes.new (n : Nat) : (new n).Denotes labels n .empty := ⟨rfl, rfl⟩

variable {key : List Bool}

section

variable (denotes : dict.Denotes labels n map)
include denotes

lemma lookup_eq (bound : n ≤ 1023) {key : List Bool} (length : key.length = n) : dict.lookup key = .ok (map key) := by
  have root := denotes.root
  unfold lookup
  rw [denotes.valid bound, ok_bind]
  cases isRoot : dict.rootCell with
  | none =>
    rw [isRoot] at root
    obtain rfl : map = .empty := root
    rfl
  | some cell =>
    rw [isRoot] at root
    simp only [denotes.keyBits, length, ne_eq, not_true_eq_false, ↓reduceIte]
    exact lookupNode_eq root length

private lemma assign_denotes {value : CellSlice} {mode : SetMode}
    {result : Option CellSlice × Option Cell × Bool}
    (assigned : Assigned labels n map key value mode result) :
    (if result.2.2 then { dict with rootCell := result.2.1 } else dict).Denotes labels n
      (assign map key value mode) := by
  unfold assign
  rw [← assigned.changed]
  cases changed : result.2.2 with
  | false => exact denotes
  | true => exact ⟨denotes.keyBits, assigned.root changed⟩

lemma setGen_yields (bound : n ≤ 1023) (length : key.length = n) (storeVal : StoreValue) (mode : SetMode) :
    Yields (dict.setGen key storeVal mode) (fun result => result.1 = mode.applies (map key) ∧
      result.2.Denotes labels n (assign map key storeVal.value mode) ∧ (result.1 = false → result.2 = dict)) := by
  unfold setGen
  rw [denotes.valid bound, ok_bind, if_neg (by simp [denotes.keyBits, length]), length]
  refine (dictSet_yields storeVal mode denotes.root length bound).bind ?_
  rintro ⟨root, changed⟩ assigned
  have after := assign_denotes denotes assigned
  have isChanged : changed = mode.applies (map key) := assigned.changed
  cases changed with
  | false => exact ⟨isChanged, after, fun _ => rfl⟩
  | true => exact ⟨isChanged, after, fun failed => nomatch failed⟩

lemma lookupSetGen_yields (bound : n ≤ 1023) (length : key.length = n) (storeVal : StoreValue) (mode : SetMode) :
    Yields (dict.lookupSetGen key storeVal mode) (fun result =>
      result.1 = map key ∧ result.2.Denotes labels n (assign map key storeVal.value mode) ∧
      (mode.applies (map key) = false → result.2 = dict)) := by
  unfold lookupSetGen
  rw [denotes.valid bound, ok_bind, if_neg (by simp [denotes.keyBits, length]), length]
  refine (dictLookupSet_yields storeVal mode denotes.root length bound).bind ?_
  rintro ⟨old, root, changed⟩ assigned
  have after := assign_denotes denotes assigned
  have isChanged : changed = mode.applies (map key) := assigned.changed
  cases changed with
  | false => exact ⟨assigned.old, after, fun _ => rfl⟩
  | true =>
    refine ⟨assigned.old, after, fun refused => ?_⟩
    rw [refused] at isChanged
    cases isChanged

end

private lemma update_absent (absent : map key = none) : Function.update map key none = map := by
  rw [← absent]
  exact Function.update_eq_self key map

section

variable (denotes : dict.Denotes labels n map)
include denotes

lemma lookupDelete_yields (bound : n ≤ 1023) (length : key.length = n) : Yields (dict.lookupDelete key) (fun result =>
      result.1 = map key ∧ result.2.Denotes labels n (Function.update map key none) ∧ (map key = none → result.2 = dict)) := by
  unfold lookupDelete
  rw [denotes.valid bound, ok_bind, if_neg (by simp [denotes.keyBits, length]), length]
  refine (dictLookupDelete_yields denotes.root length bound).bind ?_
  rintro ⟨old, root⟩ deleted
  have isOld : old = map key := deleted.old
  cases old with
  | none => exact ⟨isOld, by rw [update_absent isOld.symm]; exact denotes, fun _ => rfl⟩
  | some value =>
    refine ⟨isOld, ⟨denotes.keyBits, deleted.root rfl⟩, fun absent => ?_⟩
    rw [absent] at isOld
    cases isOld

lemma extractMinmaxKey_yields (bound : n ≤ 1023) (fetchMax signed : Bool) :
    Yields (dict.extractMinmaxKey fetchMax signed) (fun result =>
      ∃ next, MapStep map (.extractMinmaxKey fetchMax signed) (.entry result.1) next ∧
        result.2.Denotes labels n next ∧ (map = .empty → result.2 = dict)) := by
  have root := denotes.root
  unfold extractMinmaxKey
  rw [denotes.valid bound, ok_bind, denotes.keyBits]
  cases isRoot : dict.rootCell with
  | none =>
    rw [isRoot] at root
    obtain rfl : map = .empty := root
    exact ⟨.empty, .extractNone fetchMax signed rfl, denotes, fun _ => rfl⟩
  | some cell =>
    rw [isRoot] at root
    obtain ⟨key, value, result, present, extreme⟩ := dictLookupMinmax_eq root fetchMax signed
    simp only [result, ok_bind]
    have rootDenotes : Root labels n (some cell) map := root
    refine (dictLookupDelete_yields rootDenotes (Node.key_length root present) bound).bind ?_
    rintro ⟨old, newRoot⟩ deleted
    have isOld : old = some value := by rw [← present]; exact deleted.old
    subst isOld
    refine ⟨_, .extract fetchMax signed key value present extreme, ⟨rfl, deleted.root rfl⟩, ?_⟩
    intro isEmpty
    rw [isEmpty] at present
    cases present

lemma perform_yields (bound : n ≤ 1023) {operation : Operation} (keyBits : operation.HasKeyBits n) :
    Yields (dict.perform operation) (fun result => ∃ next, MapStep map operation result.1 next ∧ result.2.Denotes labels n next ∧
        (operation.Refused map → result.2 = dict)) := by
  cases operation with
  | set key value mode =>
    refine (setGen_yields denotes bound keyBits (.ofSlice value) mode).bind ?_
    rintro ⟨success, next⟩ ⟨isSuccess, after, unchanged⟩
    obtain rfl : success = mode.applies (map key) := isSuccess
    exact ⟨_, .set key value mode, after, unchanged⟩
  | setGen key storeVal mode =>
    refine (setGen_yields denotes bound keyBits storeVal mode).bind ?_
    rintro ⟨success, next⟩ ⟨isSuccess, after, unchanged⟩
    obtain rfl : success = mode.applies (map key) := isSuccess
    exact ⟨_, .setGen key storeVal mode, after, unchanged⟩
  | lookupSet key value mode =>
    refine (lookupSetGen_yields denotes bound keyBits (.ofSlice value) mode).bind ?_
    rintro ⟨old, next⟩ ⟨isOld, after, unchanged⟩
    obtain rfl : old = map key := isOld
    exact ⟨_, .lookupSet key value mode, after, unchanged⟩
  | lookup key =>
    simp only [perform, lookup_eq denotes bound keyBits, ok_bind]
    exact ⟨map, .lookup key, denotes, fun refused => refused.elim⟩
  | lookupDelete key =>
    refine (lookupDelete_yields denotes bound keyBits).bind ?_
    rintro ⟨old, next⟩ ⟨isOld, after, unchanged⟩
    obtain rfl : old = map key := isOld
    exact ⟨_, .lookupDelete key, after, unchanged⟩
  | extractMinmaxKey fetchMax signed =>
    refine (extractMinmaxKey_yields denotes bound fetchMax signed).bind ?_
    rintro ⟨entry, final⟩ ⟨next, step, after, unchanged⟩
    exact ⟨next, step, after, unchanged⟩

lemma run_yields (bound : n ≤ 1023) {operations : List Operation} (keyBits : ∀ operation ∈ operations, operation.HasKeyBits n) :
    Yields (dict.run operations) (fun result =>
      ∃ final, MapRun map operations result.1 final ∧ result.2.Denotes labels n final) := by
  induction operations generalizing dict map with
  | nil => exact ⟨map, .nil map, denotes⟩
  | cons operation operations ih =>
    refine (perform_yields denotes bound (keyBits operation mem_cons_self)).bind ?_
    rintro ⟨answer, next⟩ ⟨nextMap, step, after, _⟩
    refine (ih after (forall_mem_cons.mp keyBits).2).bind ?_
    rintro ⟨answers, final⟩ ⟨finalMap, run, denotesFinal⟩
    exact ⟨finalMap, .cons step run, denotesFinal⟩

end

/-- Any sequence of operations on `n`-bit keys overflows a cell or answers as a partial map
does, and an operation that reports a failure leaves the root as it was. -/
theorem dictionary_is_finite_map (denotes : dict.Denotes .any n map) (bound : n ≤ 1023)
    (operations : List Operation) (keyBits : ∀ operation ∈ operations, operation.HasKeyBits n) :
    (∀ thrown, dict.run operations = .error thrown → thrown.IsCellOverflow) ∧
    ∀ answers final, dict.run operations = .ok (answers, final) → ∃ finalMap, MapRun map operations answers finalMap ∧
        (∀ key, key.length = n → final.lookup key = .ok (finalMap key)) ∧
        (∀ key value, finalMap key = some value → key.length = n) ∧
        ∀ operation answer next, operation.HasKeyBits n → operation.Refused finalMap →
          final.perform operation = .ok (answer, next) → next.rootCell = final.rootCell := by
  have yields := run_yields denotes bound keyBits
  refine ⟨fun thrown failed => yields.of_error failed, ?_⟩
  intro answers final returned
  obtain ⟨finalMap, run, after⟩ := yields.of_ok returned
  refine ⟨finalMap, run, fun key length => lookup_eq after bound length, ?_, ?_⟩
  · intro key value found
    obtain ⟨cell, _, node⟩ := after.root.exists_node found
    exact node.key_length found
  · intro operation answer next hasKeyBits refused performed
    obtain ⟨_, _, _, unchanged⟩ := (perform_yields after bound hasKeyBits).of_ok performed
    exact congrArg rootCell (unchanged refused)

def toyOperations : List Operation :=
  [.set [true, false] ⟨[true], []⟩ .set, .set [true, true] ⟨[false], []⟩ .add,
    .lookupSet [true, false] ⟨[true, true], []⟩ .replace, .set [true, true] ⟨[], []⟩ .add,
    .lookupDelete [true, true], .lookup [true, true], .extractMinmaxKey true false]

theorem toy_dictionary_is_finite_map : ∃ answers final finalMap, (new 2).run toyOperations = .ok (answers, final) ∧
      MapRun .empty toyOperations answers finalMap ∧ ∀ key, key.length = 2 → final.lookup key = .ok (finalMap key) := by
  have succeeded : ((new 2).run toyOperations).isOk = true := by decide +kernel
  have keyBits : ∀ operation ∈ toyOperations, operation.HasKeyBits 2 := by
    simp [toyOperations, Operation.HasKeyBits]
  cases result : (new 2).run toyOperations with
  | error thrown =>
    rw [result] at succeeded
    cases succeeded
  | ok returned =>
    obtain ⟨finalMap, run, lookups, _⟩ := (dictionary_is_finite_map (Denotes.new 2) (by decide) toyOperations keyBits).2
        returned.1 returned.2 result
    exact ⟨returned.1, returned.2, finalMap, rfl, run, lookups⟩

end Dictionary

end TonNode.Vm
