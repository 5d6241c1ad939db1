import TonNode.Lib.ExceptBind

/-!
# Gas of virtual machines and their children

`RUNVM` puts a child in the place of a VM, which waits as its parent. Of an instruction only what
it does to gas and to the counter of signature checks is modelled; which instructions are executed
is arbitrary. A computation fails when the VM it ends in is out of gas.
-/

namespace TonNode.Vm

open Lib List

structure GasLimits where
  gasMax : Int
  gasLimit : Int
  gasCredit : Int
  gasRemaining : Int
  gasBase : Int

namespace GasLimits

def infty : Int := 2 ^ 63 - 1

def ofLimit (limit max credit : Int) : GasLimits :=
  ⟨max, limit, credit, limit + credit, limit + credit⟩

def gasConsumed (gas : GasLimits) : Int := gas.gasBase - gas.gasRemaining

def changeBase (gas : GasLimits) (base : Int) : GasLimits :=
  { gas with gasRemaining := gas.gasRemaining + (base - gas.gasBase), gasBase := base }

def changeLimit (gas : GasLimits) (limit : Int) : GasLimits :=
  let limit := min (max limit 0) gas.gasMax
  { gas with gasCredit := 0, gasLimit := limit }.changeBase limit

def consume (gas : GasLimits) (amount : Int) : GasLimits :=
  { gas with gasRemaining := gas.gasRemaining - amount }

end GasLimits

structure VmState where
  globalVersion : Nat
  gas : GasLimits
  chksgnCounter : Nat
  freeGasConsumed : Int

/-- A VM with its parents, the nearest one first. `checks` is the number of signature checks that
have been performed. -/
structure Execution extends VmState where
  parents : List VmState
  checks : Nat

namespace Execution

def checkGas (vm : Execution) : Except Execution Execution :=
  if vm.gas.gasRemaining < 0 then .error vm else .ok vm

def consumeGas (amount : Int) (vm : Execution) : Except Execution Execution :=
  let vm := { vm with gas := vm.gas.consume amount }
  if 4 ≤ vm.globalVersion then vm.checkGas else .ok vm

def consumeFreeGas (amount : Int) (vm : Execution) : Execution :=
  { vm with freeGasConsumed := vm.freeGasConsumed + amount }

def consumeStackGas (stackDepth : Nat) (vm : Execution) : Except Execution Execution :=
  vm.consumeGas (max stackDepth 32 - 32 : Nat)

def registerChksgnCall (vm : Execution) : Except Execution Execution :=
  if 4 ≤ vm.globalVersion then
    let vm := { vm with chksgnCounter := vm.chksgnCounter + 1 }
    if 10 < vm.chksgnCounter then vm.consumeGas 4000 else .ok (vm.consumeFreeGas 4000)
  else .ok vm

/-- A signature is checked unless the registration of the check runs out of gas. -/
def checkSignature (vm : Execution) : Except Execution Execution := do
  let vm ← vm.registerChksgnCall
  return { vm with checks := vm.checks + 1 }

/-- `ACCEPT` and `SETGASLIMIT`. -/
def setGasGeneric (newGasLimit : Int) (vm : Execution) : Except Execution Execution :=
  if newGasLimit < vm.gas.gasConsumed then .error vm
  else .ok { vm with gas := vm.gas.changeLimit newGasLimit }

/-- With isolated gas the checks that were free are charged, and counting starts again. -/
def isolate (vm : Execution) : Bool → Except Execution Execution
  | false => .ok vm
  | true => do
    let vm ← vm.consumeGas vm.freeGasConsumed
    return { vm with chksgnCounter := 0, freeGasConsumed := 0 }

def runChildVm (gas : GasLimits) (isolateGas : Bool) (vm : Execution) : Except Execution Execution := do
  let vm ← vm.isolate isolateGas
  let remaining := vm.gas.gasRemaining
  return { vm with
    gas := if 10 ≤ vm.globalVersion then
        .ofLimit (min gas.gasLimit remaining) (min gas.gasMax remaining) 0
      else gas
    parents := vm.toVmState :: vm.parents }

/-- `gasMax` and `gasLimit` are on the stack if the mode says so. -/
def runvmCommon (gasMax gasLimit : Option Nat) (stackSize : Nat) (isolateGas : Bool)
    (vm : Execution) : Except Execution Execution := do
  let vm ← vm.consumeGas 40
  let limit : Int := gasLimit.elim GasLimits.infty fun limit => limit
  let top : Int := gasMax.elim limit fun top => max top limit
  let vm ← vm.consumeStackGas stackSize
  let remaining := vm.gas.gasRemaining
  vm.runChildVm (.ofLimit (min limit remaining) (min top remaining) 0) isolateGas

def restored (child : Execution) (parent : VmState) (parents : List VmState) : Execution :=
  { child with globalVersion := parent.globalVersion, gas := parent.gas, parents }

def restoreParentVm (parent : VmState) (parents : List VmState) (retCnt : Nat) (child : Execution) :
    Except Execution Execution := do
  let vm := child.restored parent parents
  let vm ← vm.consumeGas (min child.gas.gasConsumed (child.gas.gasLimit + 1))
  vm.consumeStackGas retCnt

/-- The end of a VM, and of its parents as long as they are out of gas. It fails when no parent is
left. -/
def leave (vm : Execution) : List VmState → Nat → Except Execution Execution
  | [], _ => .error vm
  | parent :: parents, retCnt =>
    match vm.restoreParentVm parent parents retCnt with
    | .ok vm => .ok vm
    | .error vm => vm.leave parents 1

end Execution

inductive Effect where
  | consumeGas (amount : Nat)
  | consumeFreeGas (amount : Nat)
  | checkSignature
  | setGas (newGasLimit : Int)
  | runvm (gasMax gasLimit : Option Nat) (stackSize : Nat) (isolateGas : Bool)

namespace Execution

def exec (vm : Execution) : Effect → Except Execution Execution
  | .consumeGas amount => vm.consumeGas amount
  | .consumeFreeGas amount => .ok (vm.consumeFreeGas amount)
  | .checkSignature => vm.checkSignature
  | .setGas newGasLimit => vm.setGasGeneric newGasLimit >>= checkGas
  | .runvm gasMax gasLimit stackSize isolateGas =>
    vm.runvmCommon gasMax gasLimit stackSize isolateGas

/-- An effect, or the end of the VM with the number of values it returns. -/
def step (vm : Execution) : Effect ⊕ Nat → Except Execution Execution
  | .inl effect =>
    match vm.exec effect with
    | .ok vm => .ok vm
    | .error vm => vm.leave vm.parents 1
  | .inr retCnt => vm.leave vm.parents retCnt

def start (globalVersion : Nat) (gasLimit gasMax gasCredit : Int) : Execution :=
  ⟨⟨globalVersion, .ofLimit gasLimit gasMax gasCredit, 0, 0⟩, [], 0⟩

end Execution

/-- What a VM and its parents will have been charged when they have ended. -/
def charged (gas : GasLimits) : List VmState → Int
  | [] => gas.gasConsumed
  | parent :: parents => min gas.gasConsumed (gas.gasLimit + 1) + charged parent.gas parents

structure Nested (gas : GasLimits) (parent : VmState) : Prop where
  base : gas.gasBase = gas.gasLimit
  limit : gas.gasLimit ≤ gas.gasMax
  top : gas.gasMax ≤ parent.gas.gasRemaining
  version : 10 ≤ parent.globalVersion
  solvent : 0 ≤ parent.gas.gasRemaining

def Chain (gas : GasLimits) : List VmState → Prop
  | [] => True
  | parent :: parents => Nested gas parent ∧ Chain parent.gas parents

def freeGas (counter : Nat) : Int := 4000 * min (counter : Int) 10

/-- Every check has been charged, except those that are still free. -/
structure Accounted (vm : Execution) : Prop where
  version : 10 ≤ vm.globalVersion
  chain : Chain vm.gas vm.parents
  free : freeGas vm.chksgnCounter ≤ vm.freeGasConsumed
  checks : 4000 * (vm.checks : Int) ≤ charged vm.gas vm.parents + freeGas vm.chksgnCounter

structure Running (vm : Execution) : Prop extends Accounted vm where
  solvent : vm.parents ≠ [] → 0 ≤ vm.gas.gasRemaining

variable {vm : Execution} {gas : GasLimits} {parent : VmState} {parents : List VmState}
variable {amount : Int}

lemma charged_le_consume (gas : GasLimits) (parents : List VmState) (nonneg : 0 ≤ amount) :
    charged gas parents ≤ charged (gas.consume amount) parents := by
  cases parents <;> simp only [charged, GasLimits.consume, GasLimits.gasConsumed] <;> omega

namespace Chain

lemma consume (chain : Chain gas parents) (amount : Int) : Chain (gas.consume amount) parents := by
  cases parents with
  | nil => trivial
  | cons parent parents => exact ⟨{ chain.1 with }, chain.2⟩

variable (chain : Chain gas parents) (solvent : parents ≠ [] → 0 ≤ gas.gasRemaining)
include chain solvent

lemma charged_consume (atMost : parents ≠ [] → amount ≤ gas.gasRemaining + 1) :
    charged (gas.consume amount) parents = charged gas parents + amount := by
  cases parents with
  | nil =>
    simp only [charged, GasLimits.consume, GasLimits.gasConsumed]
    omega
  | cons parent parents =>
    have base := chain.1.base
    have left := solvent (cons_ne_nil _ _)
    have less := atMost (cons_ne_nil _ _)
    simp only [charged, GasLimits.consume, GasLimits.gasConsumed]
    omega

lemma changeLimit {limit : Int} (enough : gas.gasConsumed ≤ limit) : Chain (gas.changeLimit limit) parents ∧
      charged (gas.changeLimit limit) parents = charged gas parents := by
  simp only [GasLimits.changeLimit, GasLimits.changeBase, GasLimits.gasConsumed] at enough ⊢
  cases parents with
  | nil =>
    simp only [charged, GasLimits.gasConsumed]
    exact ⟨trivial, by omega⟩
  | cons parent parents =>
    obtain ⟨nested, chain⟩ := chain
    have base := nested.base
    have within := nested.limit
    have left := solvent (cons_ne_nil _ _)
    refine ⟨⟨{ nested with base := rfl, limit := min_le_right _ _ }, chain⟩, ?_⟩
    simp only [charged, GasLimits.gasConsumed]
    omega

end Chain

lemma ensures_checkGas (vm : Execution) : Ensures (· = vm) vm.checkGas fun next => next = vm ∧ 0 ≤ vm.gas.gasRemaining := by
  unfold Execution.checkGas
  split
  · exact Ensures.error rfl
  next enough => exact Ensures.ok ⟨rfl, by omega⟩

lemma ensures_consumeGas (version : 10 ≤ vm.globalVersion) (amount : Int) :
    Ensures (· = { vm with gas := vm.gas.consume amount }) (vm.consumeGas amount) fun next =>
      next = { vm with gas := vm.gas.consume amount } ∧ amount ≤ vm.gas.gasRemaining := by
  unfold Execution.consumeGas
  rw [if_pos (show 4 ≤ vm.globalVersion by omega)]
  apply (ensures_checkGas _).imp
  rintro _ ⟨rfl, enough⟩
  exact ⟨rfl, Int.sub_nonneg.mp enough⟩

lemma Accounted.consume (accounted : Accounted vm) (nonneg : 0 ≤ amount) : Accounted { vm with gas := vm.gas.consume amount } :=
  { accounted with
    chain := accounted.chain.consume amount
    checks := le_trans accounted.checks (Int.add_le_add_right (charged_le_consume vm.gas vm.parents nonneg) _) }

namespace Running

variable (running : Running vm)
include running

lemma consumeGas (nonneg : 0 ≤ amount) :
    Ensures Accounted (vm.consumeGas amount) fun next => Running next ∧
      next = { vm with gas := vm.gas.consume amount } ∧ 0 ≤ next.gas.gasRemaining ∧
      charged next.gas next.parents = charged vm.gas vm.parents + amount := by
  have spec := ensures_consumeGas running.version amount
  apply (spec.weaken ?_).imp
  · rintro _ ⟨rfl, enough⟩
    have left := Int.sub_nonneg.mpr enough
    exact ⟨⟨running.toAccounted.consume nonneg, fun _ => left⟩, rfl, left,
      running.chain.charged_consume running.solvent fun _ => by omega⟩
  · rintro _ rfl
    exact running.toAccounted.consume nonneg

/-- A check is counted while it is free, or charged before it is performed. -/
lemma checkSignature : Ensures Accounted vm.checkSignature Running := by
  have version := running.version
  have free := running.free
  have checks := running.checks
  unfold Execution.checkSignature Execution.registerChksgnCall
  rw [if_pos (show 4 ≤ vm.globalVersion by omega)]
  simp only
  split
  next many =>
    have same : freeGas (vm.chksgnCounter + 1) = freeGas vm.chksgnCounter := by
      unfold freeGas
      omega
    have counted : Running { vm with chksgnCounter := vm.chksgnCounter + 1 } :=
      { running with
        free := same.trans_le free
        checks := le_trans checks (Int.add_le_add_left same.ge _) }
    apply (counted.consumeGas (show 0 ≤ 4000 by decide)).bind
    rintro next ⟨running, isNext, _, paid⟩
    refine Ensures.ok { running with checks := ?_ }
    have before := counted.checks
    subst isNext
    simp only at paid before ⊢
    omega
  next few =>
    have more : freeGas (vm.chksgnCounter + 1) = freeGas vm.chksgnCounter + 4000 := by
      unfold freeGas
      omega
    refine Ensures.ok { running with free := ?_, checks := ?_ }
    all_goals
      simp only [Execution.consumeFreeGas]
      omega

lemma isolate (enough : 0 ≤ vm.gas.gasRemaining) (isolateGas : Bool) : Ensures Accounted (vm.isolate isolateGas) fun next =>
      Running next ∧ 0 ≤ next.gas.gasRemaining := by
  cases isolateGas with
  | false => exact Ensures.ok ⟨running, enough⟩
  | true =>
    have free := running.free
    have checks := running.checks
    have nonneg : 0 ≤ freeGas vm.chksgnCounter := by
      unfold freeGas
      omega
    apply (running.consumeGas (le_trans nonneg free)).bind
    rintro _ ⟨next, rfl, enough, paid⟩
    refine Ensures.ok ⟨{ next with free := le_rfl, checks := ?_ }, enough⟩
    have none : freeGas 0 = 0 := rfl
    simp only at paid ⊢
    omega

lemma runChildVm (enough : 0 ≤ vm.gas.gasRemaining) (nonneg : 0 ≤ gas.gasLimit)
    (ordered : gas.gasLimit ≤ gas.gasMax) (isolateGas : Bool) : Ensures Accounted (vm.runChildVm gas isolateGas) Running := by
  apply (running.isolate enough isolateGas).bind
  rintro next ⟨running, enough⟩
  have checks := running.checks
  simp only [if_pos running.version]
  refine Ensures.ok { running with chain := ?_, checks := ?_, solvent := fun _ => ?_ }
  · exact ⟨⟨Int.add_zero _, min_le_min_right _ ordered, min_le_right _ _, running.version, enough⟩, running.chain⟩
  · simp only [charged, GasLimits.ofLimit, GasLimits.gasConsumed]
    omega
  · simp only [GasLimits.ofLimit]
    omega

lemma runvmCommon (gasMax gasLimit : Option Nat) (stackSize : Nat) (isolateGas : Bool) :
    Ensures Accounted (vm.runvmCommon gasMax gasLimit stackSize isolateGas) Running := by
  apply (running.consumeGas (show 0 ≤ 40 by decide)).bind
  rintro _ ⟨running, _⟩
  apply (running.consumeGas (Int.natCast_nonneg _)).bind
  rintro next ⟨running, _, enough, _⟩
  have limit : 0 ≤ gasLimit.elim GasLimits.infty fun limit => (limit : Int) := by
    cases gasLimit with
    | none => decide
    | some limit => exact Int.natCast_nonneg limit
  apply running.runChildVm enough
  · exact le_min limit enough
  · apply min_le_min_right
    cases gasMax with
    | none => exact le_rfl
    | some top => exact le_max_right _ _

lemma setGasGeneric (newGasLimit : Int) : Ensures Accounted (vm.setGasGeneric newGasLimit >>= Execution.checkGas) Running := by
  unfold Execution.setGasGeneric
  split
  · exact Ensures.error running.toAccounted
  next enough =>
    obtain ⟨chain, same⟩ := running.chain.changeLimit running.solvent (Int.not_lt.mp enough)
    have accounted : Accounted { vm with gas := vm.gas.changeLimit newGasLimit } :=
      { running with chain, checks := le_trans running.checks (Int.add_le_add_right same.ge _) }
    apply ((ensures_checkGas _).weaken ?_).imp
    · rintro _ ⟨rfl, left⟩
      exact ⟨accounted, fun _ => left⟩
    · rintro _ rfl
      exact accounted

lemma exec (effect : Effect) : Ensures Accounted (vm.exec effect) Running := by
  cases effect with
  | consumeGas amount =>
    exact (running.consumeGas (Int.natCast_nonneg amount)).imp fun _ next => next.1
  | consumeFreeGas amount =>
    exact Ensures.ok { running with
      free := le_trans running.free (Int.le_add_of_nonneg_right (Int.natCast_nonneg amount)) }
  | checkSignature => exact running.checkSignature
  | setGas newGasLimit => exact running.setGasGeneric newGasLimit
  | runvm gasMax gasLimit stackSize isolateGas =>
    exact running.runvmCommon gasMax gasLimit stackSize isolateGas

end Running

/-- A child spends at most what its parent has left, so nothing of what it is charged is lost. -/
lemma Accounted.restoreParentVm (accounted : Accounted vm) (isParent : vm.parents = parent :: parents) (retCnt : Nat) :
    Ensures (fun next => Accounted next ∧ next.parents = parents) (vm.restoreParentVm parent parents retCnt) Running := by
  have chain := accounted.chain
  have checks := accounted.checks
  rw [isParent] at chain checks
  obtain ⟨nested, chain⟩ := chain
  have limit := nested.limit
  have top := nested.top
  unfold Execution.restoreParentVm
  simp only [charged] at checks ⊢
  generalize isCharge : min vm.gas.gasConsumed (vm.gas.gasLimit + 1) = charge at checks ⊢
  have paid := @Chain.charged_consume _ _ charge chain (fun _ => nested.solvent) fun _ => by omega
  have restored : Accounted { vm.restored parent parents with gas := parent.gas.consume charge } :=
    ⟨nested.version, chain.consume charge, accounted.free, by simp only [Execution.restored]; omega⟩
  have spec := @ensures_consumeGas (vm.restored parent parents) nested.version charge
  apply (spec.weaken ?_).bind
  · rintro _ ⟨rfl, _⟩
    have nonneg := Int.natCast_nonneg (max retCnt 32 - 32)
    apply ((ensures_consumeGas restored.version _).weaken ?_).imp
    · rintro _ ⟨rfl, enough⟩
      exact ⟨restored.consume nonneg, fun _ => Int.sub_nonneg.mpr enough⟩
    · rintro _ rfl
      exact ⟨restored.consume nonneg, rfl⟩
  · rintro _ rfl
    exact ⟨restored, rfl⟩

def Ended (vm : Execution) : Prop := Accounted vm ∧ vm.parents = []

lemma Accounted.leave (accounted : Accounted vm) (areParents : vm.parents = parents)
    (retCnt : Nat) : Ensures Ended (vm.leave parents retCnt) Running := by
  induction parents generalizing vm retCnt with
  | nil => exact ⟨accounted, areParents⟩
  | cons parent parents ih =>
    have restored := accounted.restoreParentVm areParents retCnt
    unfold Execution.leave
    split
    next next ran => exact restored.of_ok ran
    next next ran =>
      obtain ⟨accounted, same⟩ := restored.of_error ran
      exact ih accounted same 1

lemma Running.step (running : Running vm) (step : Effect ⊕ Nat) : Ensures Ended (vm.step step) Running := by
  cases step with
  | inl effect =>
    have ran := running.exec effect
    simp only [Execution.step]
    split
    next next isNext => exact ran.of_ok isNext
    next next isNext => exact (ran.of_error isNext).leave rfl 1
  | inr retCnt => exact running.toAccounted.leave rfl retCnt

lemma Running.run (running : Running vm) (steps : List (Effect ⊕ Nat)) :
    Ensures Ended (steps.foldlM Execution.step vm) Running := by
  induction steps generalizing vm with
  | nil => exact running
  | cons step steps ih => exact (running.step step).bind fun _ next => ih next

/-- Ten signature checks are free in a whole execution; all others are charged to its first VM. -/
theorem signature_checks_charged (globalVersion : Nat) (recent : 10 ≤ globalVersion)
    (gasLimit gasMax gasCredit : Int) (steps : List (Effect ⊕ Nat)) (final : Execution)
    (ended : steps.foldlM Execution.step (.start globalVersion gasLimit gasMax gasCredit) = .error final) :
    4000 * ((final.checks : Int) - 10) ≤ final.gas.gasConsumed := by
  have start : Running (.start globalVersion gasLimit gasMax gasCredit) :=
    { version := recent
      chain := trivial
      free := le_rfl
      checks := by simp [Execution.start, charged, GasLimits.ofLimit, GasLimits.gasConsumed, freeGas]
      solvent := fun nested => absurd rfl nested }
  obtain ⟨accounted, last⟩ := (start.run steps).of_error ended
  have checks := accounted.checks
  rw [last, charged, freeGas] at checks
  omega

/-- Six signature checks, six more in an isolated child, and one after the child has ended. -/
def childRun : List (Effect ⊕ Nat) :=
  List.replicate 6 (.inl .checkSignature) ++ .inl (.runvm none none 0 true) :: List.replicate 6 (.inl .checkSignature) ++
    [.inr 0, .inl .checkSignature, .inr 0]

theorem signature_checks_charged_child :
    ∃ final, childRun.foldlM Execution.step (.start 10 100000 100000 0) = .error final ∧
      final.checks = 13 ∧
      12000 ≤ final.gas.gasConsumed := by
  refine ⟨_, rfl, rfl, ?_⟩
  have bound := signature_checks_charged 10 (by decide) 100000 100000 0 childRun _ rfl
  exact bound

end TonNode.Vm
