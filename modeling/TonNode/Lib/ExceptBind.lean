import Mathlib

/-!
# Inverting fallible computations
-/

namespace TonNode.Lib

open List

variable {ε α β : Type} {first : Except ε α} {next : α → Except ε β} {failure : ε} {step : α → Except ε β} {items : List α}
variable {more : ε → Prop} {result : Except ε α}

lemma bind_eq_ok {result : β} : (first >>= next) = .ok result ↔ ∃ value, first = .ok value ∧ next value = .ok result := by
  cases first with
  | error failure => simp [bind, Except.bind]
  | ok value => simp [bind, Except.bind]

lemma bind_eq_error : (first >>= next) = .error failure ↔
      first = .error failure ∨ ∃ value, first = .ok value ∧ next value = .error failure := by
  cases first with
  | error other => simp [bind, Except.bind]
  | ok value => simp [bind, Except.bind]

@[simp] lemma ok_bind (value : α) (next : α → Except ε β) :
    ((.ok value : Except ε α) >>= next) = next value := rfl

@[simp] lemma error_bind (failure : ε) (next : α → Except ε β) :
    ((.error failure : Except ε α) >>= next) = .error failure := rfl

@[simp] lemma pure_eq_ok (value : α) : (pure value : Except ε α) = .ok value := rfl

lemma mapM_ok_length {results : List β} (mapped : items.mapM step = .ok results) : results.length = items.length := by
  induction items generalizing results with
  | nil =>
    rw [mapM_nil, pure_eq_ok] at mapped
    cases mapped
    rfl
  | cons item rest ih =>
    rw [mapM_cons] at mapped
    obtain ⟨value, _, mapped⟩ := bind_eq_ok.mp mapped
    obtain ⟨others, restMapped, mapped⟩ := bind_eq_ok.mp mapped
    cases mapped
    rw [length_cons, length_cons, ih restMapped]

lemma mapM_ok_of_forall {result : α → β}
    (each : ∀ item ∈ items, step item = .ok (result item)) : items.mapM step = .ok (items.map result) := by
  induction items with
  | nil => rfl
  | cons item rest ih =>
    rw [mapM_cons, each item (by simp), ok_bind, ih (forall_mem_cons.mp each).2, ok_bind]
    rfl

/-- A computation that succeeds or fails with an `allowed` failure. -/
def FailsWith (allowed : ε → Prop) (result : Except ε α) : Prop :=
  ∀ failure, result = .error failure → allowed failure

namespace FailsWith

variable {allowed : ε → Prop}

lemma ok (value : α) : FailsWith allowed (.ok value : Except ε α) := by
  intro failure same
  cases same

lemma error (isAllowed : allowed failure) : FailsWith allowed (.error failure : Except ε α) := by
  intro other same
  cases same
  exact isAllowed

lemma bind (firstFails : FailsWith allowed first)
    (nextFails : ∀ value, FailsWith allowed (next value)) : FailsWith allowed (first >>= next) := by
  intro failure failed
  rcases bind_eq_error.mp failed with inFirst | ⟨value, _, inNext⟩
  · exact firstFails failure inFirst
  · exact nextFails value failure inNext

lemma bind_ok (firstFails : FailsWith allowed first)
    (nextFails : ∀ value, first = .ok value → FailsWith allowed (next value)) : FailsWith allowed (first >>= next) := by
  cases first with
  | error failure => exact fun other same => firstFails other (by cases same; rfl)
  | ok value => exact nextFails value rfl

lemma imp (fails : FailsWith allowed result) (implies : ∀ failure, allowed failure → more failure) : FailsWith more result :=
  fun failure failed => implies failure (fails failure failed)

end FailsWith

lemma exists_ok_of_toOption {view : α → β} {seen : β} (evaluated : result.toOption.map view = some seen) :
    ∃ value, result = .ok value ∧ view value = seen := by
  cases result with
  | error failure => cases evaluated
  | ok value => exact ⟨value, rfl, Option.some.inj evaluated⟩

/-- A computation that fails with an `allowed` failure or returns a value that `holds`. -/
def Ensures (allowed : ε → Prop) (result : Except ε α) (holds : α → Prop) : Prop :=
  match result with
  | .ok value => holds value
  | .error failure => allowed failure

namespace Ensures

variable {allowed : ε → Prop} {holds : α → Prop}
variable {value : α} {then_ : β → Prop}

lemma ok (satisfied : holds value) : Ensures allowed (.ok value) holds :=
  satisfied

lemma error (isAllowed : allowed failure) : Ensures allowed (.error failure : Except ε α) holds :=
  isAllowed

lemma bind (firstEnsures : Ensures allowed first holds)
    (nextEnsures : ∀ value, holds value → Ensures allowed (next value) then_) : Ensures allowed (first >>= next) then_ := by
  cases first with
  | error failure => exact firstEnsures
  | ok value => exact nextEnsures value firstEnsures

lemma bind_eq (firstEnsures : Ensures allowed first (· = value))
    (nextEnsures : Ensures allowed (next value) then_) : Ensures allowed (first >>= next) then_ := by
  apply firstEnsures.bind
  intro result same
  subst same
  exact nextEnsures

section

variable (ensures : Ensures allowed result holds)
include ensures

lemma imp {more : α → Prop} (implies : ∀ value, holds value → more value) : Ensures allowed result more := by
  cases result with
  | error failure => exact ensures
  | ok value => exact implies value ensures

lemma weaken (implies : ∀ failure, allowed failure → more failure) : Ensures more result holds := by
  cases result with
  | error failure => exact implies failure ensures
  | ok value => exact ensures

lemma of_ok (returned : result = .ok value) : holds value := by
  subst returned
  exact ensures

lemma of_error (failed : result = .error failure) : allowed failure := by
  subst failed
  exact ensures

end

end Ensures

def readAll {γ : Type} (read : α → List γ → Except ε (β × List γ)) :
    List α → List γ → Except ε (List β × List γ)
  | [], stream => .ok ([], stream)
  | item :: rest, stream => do
    let (value, stream) ← read item stream
    let (values, stream) ← readAll read rest stream
    .ok (value :: values, stream)

end TonNode.Lib
