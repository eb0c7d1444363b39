import Mathlib.Logic.Relation

/-! # Labelled transition systems

A system starts in one of its initial states and moves by labelled steps. A
property that holds initially and is kept by every step holds in every
reachable state. Restricting the steps by a condition on the state before the
step and its label gives the runs all of whose steps meet that condition.
-/

namespace Library.Transition

structure System (State Label : Type*) where
  init : State → Prop
  step : State → Label → State → Prop

namespace System

variable {State Label : Type*}

/-- The states that finite runs reach. -/
inductive Reachable (system : System State Label) : State → Prop
  | init {state : State} (hinit : system.init state) : Reachable system state
  | step {state next : State} {label : Label} (hreach : Reachable system state)
      (hstep : system.step state label next) : Reachable system next

/-- The same system, taking only the steps that meet `condition`. -/
def restrict (system : System State Label) (condition : State → Label → Prop) :
    System State Label where
  init := system.init
  step state label next := condition state label ∧ system.step state label next

/-- The same system from one state on. -/
def startAt (system : System State Label) (state : State) : System State Label where
  init start := start = state
  step := system.step

/-- A run of restricted steps is a run. -/
theorem Reachable.of_restrict {system : System State Label} {condition : State → Label → Prop}
    {state : State} (hreach : (system.restrict condition).Reachable state) :
    system.Reachable state := by
  induction hreach with
  | init hinit => exact .init hinit
  | step _ hstep ih => exact .step ih hstep.2

/-- A predicate that holds initially and is preserved by each step. -/
structure Inductive (system : System State Label) (invariant : State → Prop) : Prop where
  init : ∀ state, system.init state → invariant state
  step : ∀ state label next, invariant state → system.step state label next → invariant next

theorem Reachable.invariant {system : System State Label} {invariant : State → Prop}
    (hinductive : system.Inductive invariant) {state : State}
    (hreach : system.Reachable state) : invariant state := by
  induction hreach with
  | init hinit => exact hinductive.init _ hinit
  | step _ hstep ih => exact hinductive.step _ _ _ ih hstep

end System

end Library.Transition
