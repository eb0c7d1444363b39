import PKernel.Library.Transition

/-! # Traces and refinement

A trace is the list of the labels of a run, first one first. One system refines
another with the same labels if a relation between their states holds initially
and each step of the first is matched by a step of the second. Every trace of
the first is then one of the second, and leads to related states.
-/

namespace Library.Transition

namespace System

variable {State Abstract Label : Type*}

/-- The labels of a run and the state it ends in. -/
inductive Trace (system : System State Label) : List Label → State → Prop
  | init {state : State} (hinit : system.init state) : Trace system [] state
  | step {labels : List Label} {state next : State} {label : Label}
      (htrace : Trace system labels state) (hstep : system.step state label next) :
      Trace system (labels ++ [label]) next

theorem Trace.reachable {system : System State Label} {labels : List Label} {state : State}
    (htrace : system.Trace labels state) : system.Reachable state := by
  induction htrace with
  | init hinit => exact .init hinit
  | step _ hstep ih => exact .step ih hstep

/-- Each step of the concrete system is matched by one of the abstract system. -/
structure Simulation (concrete : System State Label) (abstract : System Abstract Label)
    (related : State → Abstract → Prop) : Prop where
  init : ∀ state, concrete.init state → ∃ view, abstract.init view ∧ related state view
  step : ∀ state view label next, related state view → concrete.step state label next →
    ∃ after, abstract.step view label after ∧ related next after

/-- Traces are carried along. -/
theorem Simulation.trace {concrete : System State Label} {abstract : System Abstract Label}
    {related : State → Abstract → Prop} (hsimulation : Simulation concrete abstract related)
    {labels : List Label} {state : State} (htrace : concrete.Trace labels state) :
    ∃ view, abstract.Trace labels view ∧ related state view := by
  induction htrace with
  | init hinit =>
      obtain ⟨view, hview, hrelated⟩ := hsimulation.init _ hinit
      exact ⟨view, .init hview, hrelated⟩
  | step _ hstep ih =>
      obtain ⟨view, hview, hrelated⟩ := ih
      obtain ⟨after, hafter, hrelated⟩ := hsimulation.step _ view _ _ hrelated hstep
      exact ⟨after, hview.step hafter, hrelated⟩

/-- The system with one initial state whose steps are given by a function. -/
def ofFunction (start : Abstract) (apply : Abstract → Label → Abstract) :
    System Abstract Label where
  init state := state = start
  step state label next := next = apply state label

theorem trace_ofFunction {start state : Abstract} {apply : Abstract → Label → Abstract}
    {labels : List Label} (htrace : (ofFunction start apply).Trace labels state) :
    state = labels.foldl apply start := by
  induction htrace with
  | init hinit => exact hinit
  | step _ hstep ih =>
      rw [List.foldl_append, ← ih]
      exact hstep

/-- A system with an invariant, seen through a function of its states. If the
view of each step is what a function makes of the view before it, the view of
every state is the fold of that function over the trace. -/
theorem Trace.view_eq {system : System State Label} {invariant : State → Prop}
    (hinductive : system.Inductive invariant) {view : State → Abstract} {start : Abstract}
    {apply : Abstract → Label → Abstract}
    (hinit : ∀ state, system.init state → view state = start)
    (hstep : ∀ state label next, invariant state → system.step state label next →
      view next = apply (view state) label)
    {labels : List Label} {state : State} (htrace : system.Trace labels state) :
    view state = labels.foldl apply start := by
  have hsimulation : Simulation system (ofFunction start apply) fun state abstract =>
      invariant state ∧ view state = abstract := by
    constructor
    case init =>
      intro state hstart
      exact ⟨start, rfl, hinductive.init state hstart, hinit state hstart⟩
    case step =>
      rintro state abstract label next ⟨hinvariant, rfl⟩ hnext
      exact ⟨_, rfl, hinductive.step state label next hinvariant hnext,
        hstep state label next hinvariant hnext⟩
  obtain ⟨abstract, habstract, _, rfl⟩ := hsimulation.trace htrace
  exact trace_ofFunction habstract

end System

end Library.Transition
