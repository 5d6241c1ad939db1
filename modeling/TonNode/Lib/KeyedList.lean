import Mathlib

/-!
# Tables as lists of entries with distinct keys
-/

namespace TonNode.Lib

open List

variable {κ β : Type} [DecidableEq κ] {key : β → κ}

def lookup (key : β → κ) (entries : List β) (wanted : κ) : Option β :=
  entries.find? fun entry => decide (key entry = wanted)

def change (key : β → κ) (wanted : κ) (update : β → β) (entries : List β) : List β :=
  entries.map fun entry => if key entry = wanted then update entry else entry

def discard (key : β → κ) (wanted : κ) (entries : List β) : List β :=
  entries.filter fun entry => decide (key entry ≠ wanted)

def Keyed (key : β → κ) (entries : List β) : Prop := (entries.map key).Nodup

variable {entries : List β} {wanted : κ} {entry : β} {update : β → β}

lemma lookup_some (found : lookup key entries wanted = some entry) : entry ∈ entries ∧ key entry = wanted :=
  ⟨mem_of_find?_eq_some found, by simpa using find?_some found⟩

lemma lookup_eq_none : lookup key entries wanted = none ↔ ∀ entry ∈ entries, key entry ≠ wanted := by
  simp [lookup, find?_eq_none]

@[simp] lemma lookup_nil (wanted : κ) : lookup key [] wanted = none := rfl

lemma lookup_append (first second : List β) (wanted : κ) : lookup key (first ++ second) wanted =
      (lookup key first wanted).or (lookup key second wanted) := by
  simp [lookup, find?_append]

lemma lookup_singleton (entry : β) (wanted : κ) :
    lookup key [entry] wanted = if key entry = wanted then some entry else none := by
  unfold lookup
  by_cases same : key entry = wanted
  · simp [same]
  · simp [same]

namespace Keyed

section

variable (keyed : Keyed key entries)
include keyed

lemma lookup_mem (member : entry ∈ entries) : lookup key entries (key entry) = some entry := by
  cases found : lookup key entries (key entry) with
  | none => exact absurd rfl (lookup_eq_none.mp found entry member)
  | some other =>
    obtain ⟨otherMember, sameKey⟩ := lookup_some found
    rw [inj_on_of_nodup_map keyed otherMember member sameKey]

lemma lookup_iff {wanted : κ} : lookup key entries wanted = some entry ↔ entry ∈ entries ∧ key entry = wanted := by
  constructor
  · exact lookup_some
  · rintro ⟨member, rfl⟩
    exact keyed.lookup_mem member

lemma append (fresh : lookup key entries (key entry) = none) : Keyed key (entries ++ [entry]) := by
  unfold Keyed
  rw [map_append, map_singleton]
  apply List.Nodup.append keyed (nodup_singleton _)
  intro wanted isOld isNew
  obtain ⟨other, member, sameKey⟩ := mem_map.mp isOld
  have same : wanted = key entry := mem_singleton.mp isNew
  exact lookup_eq_none.mp fresh other member (sameKey.trans same)

lemma discard (wanted : κ) : Keyed key (discard key wanted entries) :=
  keyed.sublist (List.Sublist.map key filter_sublist)

end

end Keyed

lemma map_change {γ : Type} {field : β → γ}
    (keeps : ∀ entry, key entry = wanted → field (update entry) = field entry) (entries : List β) :
    (change key wanted update entries).map field = entries.map field := by
  unfold change
  rw [map_map]
  apply map_congr_left
  intro entry _
  show field (if key entry = wanted then update entry else entry) = field entry
  split
  · exact keeps entry ‹_›
  · rfl

lemma Keyed.change (keyed : Keyed key entries) (keeps : ∀ entry, key entry = wanted → key (update entry) = key entry) :
    Keyed key (change key wanted update entries) := by
  unfold Keyed
  rw [map_change keeps]
  exact keyed

lemma mem_change (member : entry ∈ change key wanted update entries) :
    (∃ before ∈ entries, key before = wanted ∧ entry = update before) ∨ (entry ∈ entries ∧ key entry ≠ wanted) := by
  obtain ⟨before, beforeMember, same⟩ := mem_map.mp member
  by_cases isWanted : key before = wanted
  · rw [if_pos isWanted] at same
    exact .inl ⟨before, beforeMember, isWanted, same.symm⟩
  · rw [if_neg isWanted] at same
    subst same
    exact .inr ⟨beforeMember, isWanted⟩

lemma lookup_change (keeps : ∀ entry, key entry = wanted → key (update entry) = wanted) (entries : List β) (other : κ) :
    lookup key (change key wanted update entries) other = if other = wanted then (lookup key entries wanted).map update
      else lookup key entries other := by
  induction entries with
  | nil => simp [change]
  | cons entry rest ih =>
    unfold lookup change at ih ⊢
    rw [map_cons, find?_cons, find?_cons, find?_cons, ih]
    by_cases isWanted : key entry = wanted
    · rw [if_pos isWanted, keeps entry isWanted, isWanted]
      by_cases same : other = wanted
      · subst same
        simp
      · have apart : wanted ≠ other := fun equal => same equal.symm
        simp [same, apart]
    · rw [if_neg isWanted]
      by_cases same : other = wanted
      · subst same
        simp [isWanted]
      · simp [same]

lemma lookup_discard (wanted : κ) (entries : List β) (other : κ) : lookup key (discard key wanted entries) other =
      if other = wanted then none else lookup key entries other := by
  unfold lookup discard
  rw [find?_filter]
  by_cases same : other = wanted
  · subst same
    rw [if_pos rfl, find?_eq_none]
    simp
  · rw [if_neg same]
    congr 1
    funext entry
    by_cases found : key entry = other
    · simp [found, same]
    · simp [found]

lemma lookup_append_new (absent : lookup key entries (key entry) = none) (other : κ) : lookup key (entries ++ [entry]) other =
      if other = key entry then some entry else lookup key entries other := by
  rw [lookup_append, lookup_singleton]
  by_cases same : other = key entry
  · subst same
    simp [absent]
  · have apart : key entry ≠ other := fun equal => same equal.symm
    simp [same, apart]

lemma lookup_replace (entries : List β) (entry : β) (other : κ) :
    lookup key (discard key (key entry) entries ++ [entry]) other =
      if other = key entry then some entry else lookup key entries other := by
  rw [lookup_append_new (by simp [lookup_discard]), lookup_discard]
  split <;> rfl

lemma sum_discard (keyed : Keyed key entries) (member : entry ∈ entries) (weight : β → Int) :
    ((discard key (key entry) entries).map weight).sum = (entries.map weight).sum - weight entry := by
  induction entries with
  | nil => cases member
  | cons first rest ih =>
    obtain ⟨fresh, restKeyed⟩ := nodup_cons.mp keyed
    by_cases same : key first = key entry
    · have whole : discard key (key entry) rest = rest := by
        apply filter_eq_self.mpr
        intro other otherMember
        have different : key other ≠ key entry := by
          intro equal
          exact fresh (mem_map.mpr ⟨other, otherMember, equal.trans same.symm⟩)
        simpa using different
      have isFirst : entry = first := by
        rcases mem_cons.mp member with isFirst | inRest
        · exact isFirst
        · exact absurd (mem_map.mpr ⟨entry, inRest, same.symm⟩) fresh
      have skip : discard key (key entry) (first :: rest) = discard key (key entry) rest := by
        simp [discard, same]
      rw [skip, whole, isFirst, map_cons, sum_cons]
      ring
    · have inRest : entry ∈ rest := by
        rcases mem_cons.mp member with isFirst | inRest
        · exact absurd (congrArg key isFirst.symm) same
        · exact inRest
      have keep : discard key (key entry) (first :: rest) =
          first :: discard key (key entry) rest := by
        simp [discard, same]
      rw [keep, map_cons, map_cons, sum_cons, sum_cons, ih restKeyed inRest]
      ring

end TonNode.Lib
