import PKernel.Processes.Kernel
import PKernel.Signals.SignalTable

/-! # Timers

`timer.c` with the handlers that the kernel gives to its timers: the one of
`syscall_alarm`, the one of `syscall_nanosleep`, and that of the blinking cursor. The
list of timers is a list, latest first. A handler that frees its timer leaves the
record as it was, and `timers_update` still finds the next timer in it.
-/

namespace PKernel.Timers

open Processes (Kernel)
open Signals (SignalTable queueSize)

/-- `timer_state_t`. -/
inductive TimerState where
  | waiting
  | running
deriving DecidableEq, Repr

/-- The handler of a timer with its cookie. -/
inductive Handler where
  /-- `alarm_timer_handler`, and the process that is its cookie. -/
  | alarm (process : Nat)
  /-- `nanosleep_timer_handler`, and the event that is its cookie. -/
  | nanosleep (place : Nat)
  /-- `timer_handler` of the VGA terminal. -/
  | blink
deriving DecidableEq, Repr

/-- `timer_t`. -/
structure Timer where
  id : Nat
  state : TimerState
  currentTicks : Nat
  startTicks : Nat
  intervalTicks : Nat
  handler : Handler
deriving DecidableEq, Repr

structure State where
  kernel : Kernel
  /-- The signal table of every process. -/
  signals : Nat → SignalTable
  timers : List Timer
  /-- The number of timers made so far. -/
  nextTimer : Nat

/-! ## Ticks -/

/-- `TIMER_TICK_US`. -/
def timerTickUs : Nat := 54925

/-- `TIMER_NS_TO_TICKS`. -/
def nsToTicks (ns : Nat) : Nat := ns / 1000 / timerTickUs

/-- `TIMER_MS_TO_TICKS`: a thousand nanoseconds for a millisecond. -/
def msToTicks (ms : Nat) : Nat := nsToTicks (u64 (1000 * ms))

/-- `TIMER_S_TO_TICKS`. -/
def sToTicks (seconds : Nat) : Nat := msToTicks (u64 (1000 * seconds))

/-! ## The list of timers -/

/-- `timer_init`. -/
def timerInit (state : State) (handler : Handler) (startTicks intervalTicks : Nat) : State :=
  { state with
    timers := ⟨state.nextTimer, .waiting, 0, startTicks, intervalTicks, handler⟩ :: state.timers
    nextTimer := state.nextTimer + 1 }

/-- `timer_free`. -/
def timerFree (state : State) (id : Nat) : State :=
  { state with timers := state.timers.filter fun timer => timer.id ≠ id }

section Handlers

-- `SIG_ALARM`.
variable (sigAlarm : Nat)

/-- `signal_table_invoke` with a valid signal, up to the interruption of a thread; no thread
here is in an interruptable wait. -/
def queueSignal (table : SignalTable) (sig : Nat) : SignalTable :=
  if table.signalQueueSize = queueSize then table else table.push sig

/-- `alarm_timer_handler`, up to its `timer_free`. -/
def alarmTimerHandler (state : State) (pid : Nat) : Except Fault State := do
  let _ ← state.kernel.process pid
  return { state with
    signals := Function.update state.signals pid (queueSignal (state.signals pid) sigAlarm) }

/-- `nanosleep_timer_handler`, up to its `timer_free`. -/
def nanosleepTimerHandler (state : State) (place : Nat) : Except Fault State := do
  let kernel ← state.kernel.eventInvoke (.other place)
  return { state with kernel }

/-- The call of a handler: whether it freed its timer, and the state. -/
def Handler.run (state : State) : Handler → Except Fault (Bool × State)
  | alarm pid => do return (true, ← alarmTimerHandler sigAlarm state pid)
  | nanosleep place => do return (true, ← nanosleepTimerHandler state place)
  | blink => return (false, state)

/-- What is left of a timer behind its handler. -/
def Timer.after (timer : Timer) (freed : Bool) (ticks : Nat) : Option Timer :=
  if freed then none else some { timer with currentTicks := u64 (timer.currentTicks + 2 ^ 64 - ticks) }

/-- `timer_update`: the timer if it is still there, and the state. -/
def timerUpdate (state : State) (timer : Timer) : Except Fault (Option Timer × State) := do
  let timer := { timer with currentTicks := u64 (timer.currentTicks + 1) }
  match timer.state with
  | .waiting =>
      if timer.startTicks ≤ timer.currentTicks then
        let (freed, state) ← timer.handler.run sigAlarm state
        return ({ timer with state := .running }.after freed timer.startTicks, state)
      else return (some timer, state)
  | .running =>
      if timer.intervalTicks ≠ 0 ∧ timer.intervalTicks ≤ timer.currentTicks then
        let (freed, state) ← timer.handler.run sigAlarm state
        return (timer.after freed timer.intervalTicks, state)
      else return (some timer, state)

/-- The loop of `timers_update`: the timers that are left, and the state. -/
def updateTimers : State → List Timer → Except Fault (List Timer × State)
  | state, [] => return ([], state)
  | state, timer :: rest => do
      let (left, state) ← timerUpdate sigAlarm state timer
      let (rest, state) ← updateTimers state rest
      return (left.toList ++ rest, state)

/-- `timers_update`. -/
def timersUpdate (state : State) : Except Fault State := do
  let (timers, state) ← updateTimers sigAlarm state state.timers
  return { state with timers }

end Handlers

/-! ## System calls -/

/-- `syscall_alarm`. The process is not looked at. -/
def syscallAlarm (state : State) (seconds : Nat) : Except Fault State := do
  let pid ← state.kernel.processOf (← state.kernel.currentThread)
  return timerInit state (.alarm pid) (sToTicks seconds) 0

/-- `syscall_nanosleep`, up to its `scheduler_await`, with a new event. -/
def syscallNanosleep (state : State) (nanos place : Nat) : State :=
  let kernel := state.kernel.eventInit (.other place)
  timerInit { state with kernel } (.nanosleep place) (nsToTicks nanos) 0

/-! ## Whose handlers a tick runs -/

/-- The next `timer_update` runs the handler. -/
def Timer.due (timer : Timer) : Bool :=
  match timer.state with
  | .waiting => timer.startTicks ≤ u64 (timer.currentTicks + 1)
  | .running => timer.intervalTicks ≠ 0 && timer.intervalTicks ≤ u64 (timer.currentTicks + 1)

variable {sigAlarm pid : Nat} {state next : State} {timer : Timer} {left : Option Timer}

/-- `timer_update` in one of its two ways. -/
theorem timerUpdate_ok (hcall : timerUpdate sigAlarm state timer = .ok (left, next)) :
    (∀ after ∈ left, after.handler = timer.handler) ∧
      ((timer.due = false ∧ next = state) ∨
        (timer.due = true ∧ ∃ freed, timer.handler.run sigAlarm state = .ok (freed, next))) := by
  unfold timerUpdate at hcall
  simp only at hcall
  split at hcall
  all_goals
    rename_i hstate
    split at hcall
    next hdue =>
      obtain ⟨⟨freed, ran⟩, hrun, hcall⟩ := bind_eq_ok.mp hcall
      cases hcall
      refine ⟨?_, .inr ⟨by simpa [Timer.due, hstate] using hdue, freed, hrun⟩⟩
      intro after hafter
      cases freed with
      | true => simp [Timer.after] at hafter
      | false =>
          simp only [Timer.after, Bool.false_eq_true, if_false, Option.mem_some_iff] at hafter
          exact hafter ▸ rfl
    next hnot =>
      cases hcall
      refine ⟨?_, .inl ⟨by simpa [Timer.due, hstate] using hnot, rfl⟩⟩
      intro after hafter
      rw [Option.mem_some_iff] at hafter
      exact hafter ▸ rfl

end PKernel.Timers
