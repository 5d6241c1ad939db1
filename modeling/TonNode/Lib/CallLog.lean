import TonNode.Lib.ExceptBind

/-!
# Computations that call a function of their caller

Such a computation may fail. The calls made so far are its state, which a failure keeps, and the
function may answer differently after different calls.
-/

namespace TonNode.Lib

abbrev CallM (ε Call : Type) : Type → Type := ExceptT ε (StateM (List Call))

variable {ε Call α β : Type}

/-- The function is called with the calls before this one. -/
def call (func : List Call → Call → Except ε α) (args : Call) : CallM ε Call α := do
  let log ← get
  set (log ++ [args])
  liftM (func log args)

/-- After the calls in `log` the computation makes some more and ends with a result that `holds`. -/
def Logs (computation : CallM ε Call α) (log : List Call) (holds : Except ε α → List Call → Prop) : Prop :=
  ∃ result calls, computation.run.run log = (result, log ++ calls) ∧ holds result calls

lemma call_run (func : List Call → Call → Except ε α) (args : Call) (log : List Call) :
    (call func args).run.run log = (func log args, log ++ [args]) := rfl

lemma lift_ok_bind (value : α) (next : α → CallM ε Call β) :
    (liftM (Except.ok value : Except ε α) : CallM ε Call α) >>= next = next value := rfl

lemma lift_bind_pure (result : Except ε α) (after : α → β) :
    ((liftM result : CallM ε Call α) >>= fun value => pure (after value)) =
      liftM (result >>= fun value => pure (after value)) := by
  cases result <;> rfl

namespace Logs

variable {holds : Except ε α → List Call → Prop} {log : List Call} {result : Except ε α} {next : α → CallM ε Call β}
variable {then_ : Except ε β → List Call → Prop}

lemma lift (satisfied : holds result []) : Logs (liftM result : CallM ε Call α) log holds :=
  ⟨result, [], by rw [List.append_nil]; rfl, satisfied⟩

lemma bind {first : CallM ε Call α} (firstLogs : Logs first log holds)
    (fails : ∀ failure calls, holds (.error failure) calls → then_ (.error failure) calls)
    (nextLogs : ∀ value calls, holds (.ok value) calls →
      Logs (next value) (log ++ calls) fun result more => then_ result (calls ++ more)) : Logs (first >>= next) log then_ := by
  obtain ⟨result, calls, ran, satisfied⟩ := firstLogs
  cases result with
  | error failure =>
    refine ⟨.error failure, calls, ?_, fails failure calls satisfied⟩
    rw [ExceptT.run_bind, StateT.run_bind, ran]
    rfl
  | ok value =>
    obtain ⟨result, more, ranNext, satisfiedNext⟩ := nextLogs value calls satisfied
    refine ⟨result, calls ++ more, ?_, satisfiedNext⟩
    rw [ExceptT.run_bind, StateT.run_bind, ran, ← List.append_assoc]
    exact ranNext

lemma lift_bind {allowed : ε → Prop} {returned : α → Prop} (ensures : Ensures allowed result returned)
    (fails : ∀ failure, allowed failure → then_ (.error failure) [])
    (nextLogs : ∀ value, returned value → Logs (next value) log then_) :
    Logs ((liftM result : CallM ε Call α) >>= next) log then_ := by
  cases result with
  | error failure => exact ⟨.error failure, [], by rw [List.append_nil]; rfl, fails failure ensures⟩
  | ok value => exact nextLogs value ensures

end Logs

variable {func : List Call → Call → Except ε Bool} {log items : List Call}

def callWhile (func : List Call → Call → Except ε Bool) : List Call → CallM ε Call Bool
  | [] => pure true
  | args :: rest => call func args <&&> callWhile func rest

lemma callWhile_append (func : List Call → Call → Except ε Bool) (first second : List Call) :
    callWhile func (first ++ second) = (callWhile func first <&&> callWhile func second) := by
  induction first with
  | nil => rfl
  | cons args rest ih =>
    simp only [List.cons_append, callWhile, ih, andM, bind_assoc]
    refine bind_congr fun answer => ?_
    cases answer with
    | false => simp [toBool]
    | true => rfl

lemma callWhile_singleton (func : List Call → Call → Except ε Bool) (args : Call) : callWhile func [args] = call func args := by
  refine Eq.trans (bind_congr fun answer => ?_) (bind_pure (call func args))
  cases answer <;> rfl

def Accepts (func : List Call → Call → Except ε Bool) (log calls : List Call) : Prop :=
  ∀ before args after, calls = before ++ args :: after → func (log ++ before) args = .ok true

lemma Accepts.cons {args : Call} (accepted : func log args = .ok true)
    (rest : Accepts func (log ++ [args]) items) : Accepts func log (args :: items) := by
  intro before other after split
  cases before with
  | nil =>
    cases split
    rw [List.append_nil]
    exact accepted
  | cons head before =>
    cases split
    simpa using rest before other after rfl

lemma Accepts.nil : Accepts func log [] := by
  intro before args after split
  cases before <;> cases split

private lemma callWhile_cons_run (func : List Call → Call → Except ε Bool) (args : Call)
    (rest log : List Call) :
    (callWhile func (args :: rest)).run.run log =
      match func log args with
      | .ok true => (callWhile func rest).run.run (log ++ [args])
      | answer => (answer, log ++ [args]) := by
  have ran := call_run func args log
  rw [callWhile, andM, ExceptT.run_bind, StateT.run_bind, ran]
  cases func log args with
  | error failure => rfl
  | ok answer => cases answer <;> rfl

lemma callWhile_run (func : List Call → Call → Except ε Bool) (items log : List Call) :
    (callWhile func items).run.run log = (.ok true, log ++ items) ∧ Accepts func log items ∨
    ∃ before args after, items = before ++ args :: after ∧ Accepts func log before ∧ func (log ++ before) args ≠ .ok true ∧
      (callWhile func items).run.run log = (func (log ++ before) args, log ++ before ++ [args]) := by
  induction items generalizing log with
  | nil => exact .inl ⟨by rw [List.append_nil]; rfl, .nil⟩
  | cons args rest ih =>
    rw [callWhile_cons_run]
    by_cases accepted : func log args = .ok true
    · rw [accepted]
      cases ih (log ++ [args]) with
      | inl all => exact .inl ⟨by simpa using all.1, all.2.cons accepted⟩
      | inr some =>
        obtain ⟨before, other, after, rfl, accepts, refused, stopped⟩ := some
        exact .inr ⟨args :: before, other, after, rfl, accepts.cons accepted, by simpa using refused, by simpa using stopped⟩
    · refine .inr ⟨[], args, rest, rfl, .nil, by rwa [List.append_nil], ?_⟩
      rw [List.append_nil]
      split
      · contradiction
      · rfl

end TonNode.Lib
