import Mathlib

/-!
# The persistent treap

A treap denotes the list of its entries in the order of their keys, and every
operation is a function of that list, whatever the random numbers are.
-/

namespace TonNode.Common

open List

inductive Node (K V : Type*) where
  | null
  | node (key : K) (value : V) (left right : Node K V) (size : Nat)

namespace Node

variable {K V : Type*}

def nodeSize : Node K V → Nat
  | null => 0
  | node _ _ _ _ size => size

def makeNode (key : K) (value : V) (left right : Node K V) : Node K V :=
  node key value left right (1 + left.nodeSize + right.nodeSize)

def splitByRank : Node K V → Nat → Node K V × Node K V
  | null, _ => (null, null)
  | node key value left right _, index =>
    if index ≤ left.nodeSize then
      let (below, above) := left.splitByRank index
      (below, makeNode key value above right)
    else
      let (below, above) := right.splitByRank (index - left.nodeSize - 1)
      (makeNode key value left below, above)

/-- `random` are the results of `fast_uint32` in this call. -/
def merge (random : Nat → Nat) : Node K V → Node K V → Node K V
  | null, right => right
  | left, null => left
  | node key value left right size, node key' value' left' right' size' =>
    if random 0 % (size + size') < size then
      makeNode key value left (merge (random <| · + 1) right (node key' value' left' right' size'))
    else
      makeNode key' value' (merge (random <| · + 1) (node key value left right size) left') right'

def leftmostKey : Node K V → Option K
  | null => none
  | node key _ left _ _ => left.leftmostKey.or (some key)

/-- The loop of `at`. -/
def entryAt : Node K V → Nat → Option (K × V)
  | null, _ => none
  | node key value left right _, index =>
    if index < left.nodeSize then
      left.entryAt index
    else if index = left.nodeSize then
      some (key, value)
    else
      right.entryAt (index - (left.nodeSize + 1))

/-- The tree holds these entries in order and caches its sizes. -/
inductive Denotes : Node K V → List (K × V) → Prop
  | null : Denotes null []
  | node {key value left right before after} : Denotes left before → Denotes right after →
    Denotes (node key value left right (1 + left.nodeSize + right.nodeSize)) (before ++ (key, value) :: after)

namespace Denotes

variable {tree left right : Node K V} {entries before after : List (K × V)}

lemma nodeSize (denotes : Denotes tree entries) : tree.nodeSize = entries.length := by
  induction denotes with
  | null => rfl
  | node _ _ leftSize rightSize =>
    rw [Node.nodeSize, leftSize, rightSize, length_append, length_cons]
    omega

lemma splitByRank (denotes : Denotes tree entries) (index : Nat) :
    Denotes (tree.splitByRank index).1 (entries.take index) ∧ Denotes (tree.splitByRank index).2 (entries.drop index) := by
  induction denotes generalizing index with
  | null => simpa [Node.splitByRank] using Denotes.null
  | node leftDenotes rightDenotes leftSplit rightSplit =>
    rw [Node.splitByRank, leftDenotes.nodeSize]
    split
    next inside =>
      rw [take_append_of_le_length inside, drop_append_of_le_length inside]
      exact ⟨(leftSplit index).1, (leftSplit index).2.node rightDenotes⟩
    next beyond =>
      obtain ⟨rest, rfl⟩ : ∃ rest, index = _ + (rest + 1) := Nat.exists_eq_add_of_lt (not_le.mp beyond)
      rw [take_length_add_append, drop_length_add_append, Nat.add_sub_cancel_left, take_succ_cons,
        drop_succ_cons]
      exact ⟨leftDenotes.node (rightSplit rest).1, (rightSplit rest).2⟩

lemma merge (random : Nat → Nat) (leftDenotes : Denotes left before) (rightDenotes : Denotes right after) :
    Denotes (Node.merge random left right) (before ++ after) := by
  -- The random number decides which tree is descended, so the induction is on both.
  induction leftDenotes generalizing random right after with
  | null => simpa [Node.merge] using rightDenotes
  | node outer inner _ mergeRight =>
    induction rightDenotes generalizing random with
    | null => simpa [Node.merge] using outer.node inner
    | node outer' inner' mergeLeft _ =>
      rw [Node.merge]
      split
      · rw [append_assoc, cons_append]
        exact outer.node (mergeRight _ (outer'.node inner'))
      · rw [← append_assoc]
        exact (mergeLeft _).node inner'

lemma leftmostKey (denotes : Denotes tree entries) : tree.leftmostKey = entries.head?.map (·.1) := by
  induction denotes with
  | null => rfl
  | @node _ _ _ _ before _ _ _ leftmost _ =>
    rw [Node.leftmostKey, leftmost]
    cases before <;> rfl

lemma entryAt (denotes : Denotes tree entries) (index : Nat) : tree.entryAt index = entries[index]? := by
  induction denotes generalizing index with
  | null => rfl
  | @node _ _ _ _ before _ leftDenotes _ leftAt rightAt =>
    rw [Node.entryAt, leftDenotes.nodeSize]
    split_ifs with inside same
    · rw [leftAt, getElem?_append_left inside]
    · simp [same]
    · obtain ⟨rest, shift⟩ : ∃ rest, index - before.length = rest + 1 := Nat.exists_eq_succ_of_ne_zero (by omega)
      rw [rightAt, getElem?_append_right (not_lt.mp inside), ← Nat.sub_sub, shift]
      rfl

end Denotes

variable [LinearOrder K]

def split : Node K V → K → Node K V × Node K V
  | null, _ => (null, null)
  | node key' value left right _, key =>
    if key' < key then
      let (below, above) := right.split key
      (makeNode key' value left below, above)
    else
      let (below, above) := left.split key
      (below, makeNode key' value above right)

def splitRange (tree : Node K V) (lo hi : K) : Node K V × Node K V × Node K V :=
  let (below, geLo) := tree.split lo
  let (inRange, geHi) := geLo.split hi
  (below, inRange, geHi)

def insert (random random' : Nat → Nat) (tree : Node K V) (key : K) (value : V) : Node K V :=
  let (left, ge) := tree.split key
  let rank := ge.leftmostKey.elim 0 fun least => if least < key ∨ key < least then 0 else 1
  merge random' (merge random left (makeNode key value null null)) (ge.splitByRank rank).2

def erase (random : Nat → Nat) (tree : Node K V) (key : K) : Node K V :=
  let parts := tree.split key
  match parts.2.leftmostKey with
  | none => parts.1
  | some least =>
    if key < least ∨ least < key then
      merge random parts.1 parts.2
    else
      merge random parts.1 (parts.2.splitByRank 1).2

def eraseAt (random : Nat → Nat) (tree : Node K V) (index : Nat) : Option (Node K V) :=
  if index < tree.nodeSize then
    let (left, rest) := tree.splitByRank index
    some (merge random left (rest.splitByRank 1).2)
  else
    none

def find (key : K) : Node K V → Option V
  | null => none
  | node key' value left right _ =>
    if key < key' then left.find key else if key' < key then right.find key else some value

variable {tree : Node K V} {entries : List (K × V)}

abbrev Sorted (entries : List (K × V)) : Prop :=
  entries.Pairwise (·.1 < ·.1)

/-- The entries with this value for the key, or without the key. -/
def assign (entries : List (K × V)) (key : K) (value : Option V) : List (K × V) :=
  entries.filter (·.1 < key) ++ (value.map (key, ·)).toList ++ entries.filter (key < ·.1)

lemma Sorted.around {before after : List (K × V)} {entry : K × V} (sorted : Sorted (before ++ entry :: after)) :
    (Sorted before ∧ Sorted after) ∧ (∀ other ∈ before, other.1 < entry.1) ∧ ∀ other ∈ after, entry.1 < other.1 := by
  obtain ⟨sortedBefore, sortedRest, below⟩ := pairwise_append.mp sorted
  obtain ⟨above, sortedAfter⟩ := pairwise_cons.mp sortedRest
  exact ⟨⟨sortedBefore, sortedAfter⟩, fun other held => below other held entry mem_cons_self, above⟩

/-- What `insert` and `erase` drop behind a split is the entry of the key. -/
lemma Sorted.filter_gt (sorted : Sorted entries) (key : K) : entries.filter (key < ·.1) =
    (entries.filter (key ≤ ·.1)).drop (((entries.filter (key ≤ ·.1)).head?.map (·.1)).elim 0 fun least =>
      if least < key ∨ key < least then 0 else 1) := by
  have above : entries.filter (key < ·.1) = (entries.filter (key ≤ ·.1)).filter (key < ·.1) := by
    rw [filter_filter]
    exact filter_congr (by grind)
  have atLeast : ∀ entry ∈ entries.filter (key ≤ ·.1), key ≤ entry.1 := by simp
  rw [above]
  cases shape : entries.filter (key ≤ ·.1) with
  | nil => rfl
  | cons entry rest =>
    have sortedGe : Sorted (entry :: rest) := shape ▸ sorted.filter _
    have later := (pairwise_cons.mp sortedGe).1
    rw [shape] at atLeast
    rw [head?_cons, Option.map_some, Option.elim_some]
    split_ifs with different
    · exact filter_eq_self.mpr (by grind)
    · rw [filter_cons_of_neg (by grind), filter_eq_self.mpr (by grind), drop_one, tail_cons]

namespace Denotes

variable (denotes : Denotes tree entries) (sorted : Sorted entries)
include denotes sorted

lemma find (key : K) (value : V) : tree.find key = some value ↔ (key, value) ∈ entries := by
  induction denotes with
  | null => simp [Node.find]
  | node _ _ leftFind rightFind =>
    obtain ⟨⟨sortedBefore, sortedAfter⟩, below, above⟩ := sorted.around
    rw [Node.find, mem_append, mem_cons]
    split_ifs with less more
    · rw [leftFind sortedBefore]
      grind
    · rw [rightFind sortedAfter]
      grind
    · grind

lemma split (key : K) :
    Denotes (tree.split key).1 (entries.filter (·.1 < key)) ∧ Denotes (tree.split key).2 (entries.filter (key ≤ ·.1)) := by
  induction denotes with
  | null => exact ⟨.null, .null⟩
  | @node key' _ _ _ before after leftDenotes rightDenotes leftSplit rightSplit =>
    obtain ⟨⟨sortedBefore, sortedAfter⟩, below, above⟩ := sorted.around
    rw [Node.split, filter_append, filter_append]
    split
    next less =>
      have kept : before.filter (·.1 < key) = before := filter_eq_self.mpr (by grind)
      have gone : before.filter (key ≤ ·.1) = [] := filter_eq_nil_iff.mpr (by grind)
      rw [kept, gone, filter_cons_of_pos (by simpa), filter_cons_of_neg (by simpa)]
      exact ⟨leftDenotes.node (rightSplit sortedAfter).1, (rightSplit sortedAfter).2⟩
    next notLess =>
      have kept : after.filter (key ≤ ·.1) = after := filter_eq_self.mpr (by grind)
      have gone : after.filter (·.1 < key) = [] := filter_eq_nil_iff.mpr (by grind)
      rw [filter_cons_of_neg (by simpa using notLess), filter_cons_of_pos (by simpa using notLess), kept, gone, append_nil]
      exact ⟨(leftSplit sortedBefore).1, (leftSplit sortedBefore).2.node rightDenotes⟩

lemma insert (random random' : Nat → Nat) (key : K) (value : V) :
    Denotes (tree.insert random random' key value) (assign entries key (some value)) := by
  obtain ⟨left, ge⟩ := denotes.split sorted key
  have single : Denotes (makeNode key value .null .null) ([] ++ [(key, value)]) := .node .null .null
  rw [assign, sorted.filter_gt]
  refine (left.merge random single).merge _ ?_
  rw [ge.leftmostKey]
  exact (ge.splitByRank _).2

lemma erase (random : Nat → Nat) (key : K) : Denotes (tree.erase random key) (assign entries key none) := by
  obtain ⟨left, ge⟩ := denotes.split sorted key
  rw [Node.erase, ge.leftmostKey, assign, Option.map_none, Option.toList_none, append_nil, sorted.filter_gt]
  cases shape : entries.filter (key ≤ ·.1) with
  | nil => simpa using left
  | cons entry rest =>
    rw [shape] at ge
    simp only [head?_cons, Option.map_some, Option.elim_some, or_comm]
    split
    · exact left.merge random ge
    · exact left.merge random (ge.splitByRank 1).2

end Denotes

/-- What an operation makes from a tree, each new version with its expected entries. -/
inductive Makes (tree : Node K V) (entries : List (K × V)) : List (Node K V × List (K × V)) → Prop
  | insert (random random' : Nat → Nat) (key : K) (value : V) :
    Makes tree entries [(tree.insert random random' key value, assign entries key (some value))]
  | erase (random : Nat → Nat) (key : K) : Makes tree entries [(tree.erase random key, assign entries key none)]
  | eraseAt {random : Nat → Nat} {index : Nat} {next : Node K V} (erased : tree.eraseAt random index = some next) :
    Makes tree entries [(next, entries.eraseIdx index)]
  | split (key : K) : Makes tree entries
    [((tree.split key).1, entries.filter (·.1 < key)), ((tree.split key).2, entries.filter (key ≤ ·.1))]
  | splitRange (lo hi : K) : Makes tree entries
    [((tree.splitRange lo hi).1, entries.filter (·.1 < lo)),
      ((tree.splitRange lo hi).2.1, (entries.filter (lo ≤ ·.1)).filter (·.1 < hi)),
      ((tree.splitRange lo hi).2.2, (entries.filter (lo ≤ ·.1)).filter (hi ≤ ·.1))]

/-- All versions are kept, and each of them may be used again. -/
inductive Run : List (Node K V × List (K × V)) → Prop
  | start : Run [(null, [])]
  | call {versions new tree entries} (run : Run versions) (kept : (tree, entries) ∈ versions) (makes : Makes tree entries new) :
    Run (versions ++ new)

lemma Sorted.assign (sorted : Sorted entries) (key : K) (value : Option V) : Sorted (assign entries key value) := by
  have middle : ∀ entry ∈ (value.map (key, ·)).toList, entry.1 = key := by cases value <;> simp
  refine pairwise_append.mpr ⟨pairwise_append.mpr ⟨sorted.filter _, Option.pairwise_toList, ?_⟩, sorted.filter _, ?_⟩
  all_goals grind

variable {versions new : List (Node K V × List (K × V))}

lemma Makes.denotes (makes : Makes tree entries new) (denotes : Denotes tree entries)
    (sorted : Sorted entries) : ∀ version ∈ new, Denotes version.1 version.2 ∧ Sorted version.2 := by
  cases makes with
  | insert random random' key value =>
    simpa using ⟨denotes.insert sorted random random' key value, sorted.assign key (some value)⟩
  | erase random key => simpa using ⟨denotes.erase sorted random key, sorted.assign key none⟩
  | @eraseAt random index next erased =>
    rw [Node.eraseAt] at erased
    split at erased
    · cases erased
      have rest := ((denotes.splitByRank index).2.splitByRank 1).2
      rw [drop_drop] at rest
      have merged := (denotes.splitByRank index).1.merge random rest
      rw [← eraseIdx_eq_take_drop_succ] at merged
      simpa using ⟨merged, sorted.sublist (eraseIdx_sublist ..)⟩
    · cases erased
  | split key =>
    obtain ⟨below, above⟩ := denotes.split sorted key
    simpa using ⟨⟨below, sorted.filter _⟩, above, sorted.filter _⟩
  | splitRange lo hi =>
    obtain ⟨below, geLo⟩ := denotes.split sorted lo
    have sortedGe := sorted.filter (lo ≤ ·.1)
    obtain ⟨inRange, geHi⟩ := geLo.split sortedGe hi
    simp only [forall_mem_cons]
    exact ⟨⟨below, sorted.filter _⟩, ⟨inRange, sortedGe.filter _⟩, ⟨geHi, sortedGe.filter _⟩, by simp⟩

lemma Run.denotes (run : Run versions) :
    ∀ version ∈ versions, Denotes version.1 version.2 ∧ Sorted version.2 := by
  induction run with
  | start => simpa using Denotes.null
  | call _ kept makes ih =>
    obtain ⟨denotes, sorted⟩ := ih _ kept
    exact forall_mem_append.mpr ⟨ih, makes.denotes denotes sorted⟩

/-- Every version of a treap is the map it is expected to be. -/
theorem versions_are_maps (run : Run versions) (kept : (tree, entries) ∈ versions) :
    Sorted entries ∧
    tree.nodeSize = entries.length ∧
    (∀ key value, tree.find key = some value ↔ (key, value) ∈ entries) ∧
    (∀ index, tree.entryAt index = entries[index]?) ∧
    ∀ random index, tree.eraseAt random index = none ↔ entries.length ≤ index := by
  obtain ⟨denotes, sorted⟩ : Denotes tree entries ∧ Sorted entries := run.denotes _ kept
  refine ⟨sorted, denotes.nodeSize, denotes.find sorted, denotes.entryAt, fun random index => ?_⟩
  rw [Node.eraseAt, denotes.nodeSize]
  split <;> simp <;> omega

/-- Random numbers that let the left and the right tree win in turn. -/
def inTurn (size : Nat) : Nat := size / 2

def threeKeys : Node Nat Nat :=
  (((null : Node Nat Nat).insert inTurn inTurn 3 5).insert inTurn inTurn 1 6).insert inTurn inTurn 7 8

/-- A version that is used again after a key was taken out of it still has the key. -/
theorem versions_are_maps_kept :
    threeKeys.find 3 = some 5 ∧
    (threeKeys.erase inTurn 3).find 3 = none ∧
    (threeKeys.erase inTurn 3).entryAt 1 = some (7, 8) ∧
    (threeKeys.split 3).2.entryAt 0 = some (3, 5) := by
  have inserted := ((Run.start.call mem_cons_self (Makes.insert inTurn inTurn 3 5)).call
    (mem_append_right _ mem_cons_self) (Makes.insert inTurn inTurn 1 6)).call
    (mem_append_right _ mem_cons_self) (Makes.insert inTurn inTurn 7 8)
  have erased := inserted.call (mem_append_right _ mem_cons_self) (Makes.erase inTurn 3)
  have run := erased.call (mem_append_left _ (mem_append_right _ mem_cons_self)) (Makes.split 3)
  obtain ⟨_, _, found, _⟩ :=
    versions_are_maps run (mem_append_left _ (mem_append_left _ (mem_append_right _ mem_cons_self)))
  obtain ⟨_, _, without, atIndex, _⟩ := versions_are_maps run (mem_append_left _ (mem_append_right _ mem_cons_self))
  obtain ⟨_, _, _, upper, _⟩ := versions_are_maps run (mem_append_right _ (mem_cons_of_mem _ mem_cons_self))
  refine ⟨(found 3 5).mpr (by simp [assign]), ?_, ?_, ?_⟩
  · rw [Option.eq_none_iff_forall_ne_some]
    intro value present
    have listed := (without 3 value).mp present
    simp [assign] at listed
  · refine (atIndex 1).trans ?_
    simp [assign]
  · refine (upper 0).trans ?_
    simp [assign]

end Node

end TonNode.Common
