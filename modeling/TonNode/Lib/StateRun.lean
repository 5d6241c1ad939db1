import Mathlib

/-! Pre- and postconditions of computations with a state that survives an error. -/

namespace TonNode.Lib

open List

variable {ε σ α β : Type}

/-- Run from `start`, the computation returns a value and a state that are `good`, or fails with an
error and a state that are `bad`. -/
def Runs (action : EStateM ε σ α) (start : σ) (good : α → σ → Prop) (bad : ε → σ → Prop) : Prop :=
  match action start with
  | .ok value finish => good value finish
  | .error error finish => bad error finish

namespace Runs

variable {start : σ} {good : α → σ → Prop} {bad : ε → σ → Prop} {value : α}

lemma pure (holds : good value start) : Runs (Pure.pure value : EStateM ε σ α) start good bad :=
  holds

lemma throw {error : ε} (holds : bad error start) : Runs (MonadExcept.throw error : EStateM ε σ α) start good bad :=
  holds

lemma modify {change : σ → σ} {good : PUnit → σ → Prop} (holds : good ⟨⟩ (change start)) :
    Runs (modify change : EStateM ε σ PUnit) start good bad :=
  holds

lemma set {state : σ} {good : PUnit → σ → Prop} (holds : good ⟨⟩ state) :
    Runs (MonadStateOf.set state : EStateM ε σ PUnit) start good bad :=
  holds

variable {action : EStateM ε σ α} {items : List β} {better : α → σ → Prop}

lemma bind {next : α → EStateM ε σ β} {good : β → σ → Prop}
    (first : Runs action start (fun value middle => Runs (next value) middle good bad) bad) :
    Runs (action >>= next) start good bad := by
  unfold Runs at first ⊢
  show match EStateM.bind action next start with
    | .ok value finish => good value finish
    | .error error finish => bad error finish
  unfold EStateM.bind
  cases ran : action start with
  | ok value middle => simpa only [ran] using first
  | error error middle => simpa only [ran] using first

lemma get_bind {next : σ → EStateM ε σ α} (run : Runs (next start) start good bad) :
    Runs (MonadState.get >>= next) start good bad :=
  run

lemma mono {worse : ε → σ → Prop} (run : Runs action start better worse)
    (goodFrom : ∀ value finish, better value finish → good value finish)
    (badFrom : ∀ error finish, worse error finish → bad error finish) : Runs action start good bad := by
  unfold Runs at run ⊢
  cases ran : action start with
  | ok value finish =>
    rw [ran] at run
    exact goodFrom value finish run
  | error error finish =>
    rw [ran] at run
    exact badFrom error finish run

lemma imp (run : Runs action start better bad)
    (goodFrom : ∀ value finish, better value finish → good value finish) : Runs action start good bad :=
  run.mono goodFrom fun _ _ holds => holds

/-- A loop keeps what its rounds keep; the invariant may speak about the items passed. -/
lemma foldlM {body : α → β → EStateM ε σ α} {invariant : List β → α → σ → Prop} (initial : invariant [] value start)
    (round : ∀ (passed : List β) (item : β) (value : α) (state : σ), passed ++ [item] <+: items → invariant passed value state →
        Runs (body value item) state (invariant (passed ++ [item])) bad) :
    Runs (items.foldlM body value) start (invariant items) bad := by
  suffices all : ∀ (passed rest : List β) (value : α) (state : σ), passed ++ rest = items →
      invariant passed value state → Runs (rest.foldlM body value) state (invariant items) bad from
    all [] items value start rfl initial
  intro passed rest
  induction rest generalizing passed with
  | nil =>
    intro value state whole holds
    rw [append_nil] at whole
    subst whole
    exact pure holds
  | cons item rest ih =>
    intro value state whole holds
    rw [foldlM_cons]
    apply bind
    have seen : passed ++ [item] <+: items := ⟨rest, by rw [← whole, append_assoc]; rfl⟩
    apply (round passed item value state seen holds).imp
    intro next middle kept
    exact ih (passed ++ [item]) next middle (by rw [← whole, append_assoc]; rfl) kept

lemma forM {body : β → EStateM ε σ PUnit} {invariant : List β → σ → Prop} (initial : invariant [] start)
    (round : ∀ (passed : List β) (item : β) (state : σ), passed ++ [item] <+: items →
      invariant passed state → Runs (body item) state (fun _ => invariant (passed ++ [item])) bad) :
    Runs (items.forM body) start (fun _ => invariant items) bad := by
  have asFold : items.forM body = items.foldlM (fun _ item => body item) ⟨⟩ := by
    clear round
    induction items with
    | nil => rfl
    | cons item rest ih => rw [forM_eq_forM, forM_cons, ← forM_eq_forM, ih]; rfl
  rw [asFold]
  exact @foldlM _ _ _ _ _ _ _ _ _ (fun passed _ => invariant passed) initial fun passed item _ state => round passed item state

lemma mapM {body : β → EStateM ε σ α} {invariant : σ → Prop} (initial : invariant start)
    (round : ∀ item ∈ items, ∀ state, invariant state → Runs (body item) state (fun _ => invariant) bad) :
    Runs (items.mapM body) start (fun values state => values.length = items.length ∧ invariant state) bad := by
  induction items generalizing start with
  | nil =>
    rw [mapM_nil]
    exact pure ⟨rfl, initial⟩
  | cons item rest ih =>
    rw [mapM_cons]
    apply bind
    apply (round item mem_cons_self start initial).imp
    intro value middle kept
    apply bind
    apply (ih kept (forall_mem_cons.mp round).2).imp
    intro values finish holds
    exact pure ⟨congrArg (· + 1) holds.1, holds.2⟩

end Runs

end TonNode.Lib
