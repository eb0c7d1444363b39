import PKernel.Library.ListFamily
import PKernel.Machine

/-! # Threads, events and the scheduler

`thread.c`, `event.c` and `scheduler.c` with one core. Threads and waiters are cells
with `next` and `prev` pointers; the heads and tails of the run queues are threads, and
those of an event's waiter list are waiters. The task state records are not modelled.
Calls run with interrupts off, so that each is one step.
-/

namespace PKernel.Scheduling

open Library.LinkedList
open Function (update)

/-- `thread_level_t`. -/
inductive ThreadLevel where
  | user
  | kernel
deriving DecidableEq, Repr

/-- `thread_state_t`. -/
inductive ThreadState where
  | running
  | stopped
  | waiting
  | uninterruptableWait
  | interruptableWait
  | interrupted
  | dead
deriving DecidableEq, Repr

/-- `thread_priority_t`. -/
inductive ThreadPriority where
  | critical
  | high
  | medium
  | low
deriving DecidableEq, Repr

/-- The priorities in the order of their values. -/
def ThreadPriority.all : List ThreadPriority := [.critical, .high, .medium, .low]

/-- The error codes of the calls that have some. Their numbers belong to the headers of the
system calls, which are no part of the kernel. -/
inductive Refusal where
  | interrupted
  | uninterruptable
  | noSig
  | sigFull
  | sigEmpty
deriving DecidableEq, Repr

/-- `thread_t` without its list pointers. -/
structure Thread where
  process : Option Nat
  level : ThreadLevel
  state : ThreadState
  priority : ThreadPriority
  twin : Option Nat
  waiter : Option Nat
deriving DecidableEq, Repr

/-- The threads, waiters and events in memory. An event is its `has_signal`; its waiters
lie between its two sentinels. -/
structure Memory where
  threads : Store Thread
  waiters : Store Nat
  events : Nat → Option Bool

/-- The memory with the `current_thread` of the core. -/
structure Scheduler where
  memory : Memory
  current : Option Nat

/-- `scheduler_queues[i].head`. -/
def queueHead : ThreadPriority → Nat
  | .critical => 1
  | .high => 2
  | .medium => 3
  | .low => 4

/-- `scheduler_queues[i].tail`. -/
def queueTail : ThreadPriority → Nat
  | .critical => 5
  | .high => 6
  | .medium => 7
  | .low => 8

/-- `&event->waiter_head`. -/
def waiterHead (event : Nat) : Nat := event + 8

/-- `&event->waiter_tail`. -/
def waiterTail (event : Nat) : Nat := event + 32

/-! ## Memory accesses -/

section Cells

variable {α : Type}

def readCell (store : Store α) (place : Nat) : Except Fault (Cell α) :=
  match store place with
  | some cell => .ok cell
  | none => .error .badPointer

def writeCell (store : Store α) (place : Nat) (change : Cell α → Cell α) :
    Except Fault (Store α) := do
  let cell ← readCell store place
  return update store place (some (change cell))

/-- A cell gets its place between the last of a list and the tail. -/
def linkLast (store : Store α) (tail place : Nat) : Except Fault (Store α) := do
  let last := (← readCell store tail).prev
  let store ← writeCell store place fun cell => { cell with prev := last, next := tail }
  let store ← writeCell store last fun cell => { cell with next := place }
  writeCell store tail fun cell => { cell with prev := place }

end Cells

namespace Memory

def readThread (memory : Memory) (thread : Nat) : Except Fault Thread := do
  return (← readCell memory.threads thread).value

def setThread (memory : Memory) (thread : Nat) (change : Thread → Thread) :
    Except Fault Memory := do
  let threads ← writeCell memory.threads thread fun cell => { cell with value := change cell.value }
  return { memory with threads }

/-- `thread->state = state`. -/
def setState (memory : Memory) (thread : Nat) (state : ThreadState) : Except Fault Memory :=
  memory.setThread thread fun record => { record with state }

def hasSignal (memory : Memory) (event : Nat) : Except Fault Bool :=
  match memory.events event with
  | some signal => .ok signal
  | none => .error .badPointer

def setSignal (memory : Memory) (event : Nat) (signal : Bool) : Memory :=
  { memory with events := update memory.events event (some signal) }

end Memory

/-- A pointer that is followed is not `NULL`. -/
def follow (pointer : Option Nat) : Except Fault Nat :=
  match pointer with
  | some place => .ok place
  | none => .error .badPointer

/-! ## Creation -/

/-- `scheduler_init`: no threads but the sentinels of the queues. -/
def schedulerInit : Scheduler where
  memory := {
    threads := fun place =>
      let sentinel : Thread := ⟨none, .user, .running, .critical, none, none⟩
      if place = 0 then none
      else if place ≤ 4 then some ⟨sentinel, place + 4, 0⟩
      else if place ≤ 8 then some ⟨sentinel, 0, place - 4⟩
      else none
    waiters := fun _ => none
    events := fun _ => none }
  current := none

/-- `thread_create_user`, with its kernel twin from `thread_create_kernel`. -/
def threadCreateUser (process user kernel : Nat) (memory : Memory) : Memory :=
  { memory with
    threads := update
      (update memory.threads kernel
        (some ⟨⟨some process, .kernel, .stopped, .medium, some user, none⟩, 0, 0⟩))
      user (some ⟨⟨some process, .user, .stopped, .medium, some kernel, none⟩, 0, 0⟩) }

/-- `event_init`. -/
def eventInit (event : Nat) (memory : Memory) : Memory :=
  { memory with
    events := update memory.events event (some false)
    waiters := update
      (update memory.waiters (waiterHead event) (some ⟨0, waiterTail event, 0⟩))
      (waiterTail event) (some ⟨0, 0, waiterHead event⟩) }

/-- `event_free`. -/
def eventFree (event : Nat) (memory : Memory) : Memory :=
  { memory with
    events := update memory.events event none
    waiters := update (update memory.waiters (waiterHead event) none)
      (waiterTail event) none }

/-! ## Queues -/

/-- `scheduler_queue`. The count of the queued threads, for a debug print, is left out. -/
def schedulerQueue (thread : Nat) (memory : Memory) : Except Fault Memory := do
  let record ← memory.readThread thread
  if record.state = .running ∨ record.state = .dead then
    let threads ← linkLast memory.threads (queueTail record.priority) thread
    return { memory with threads }
  else return memory

/-- `thread_run`. -/
def threadRun (thread : Nat) (memory : Memory) : Except Fault Memory := do
  let record ← memory.readThread thread
  if record.state ≠ .running then
    let memory ← memory.setState thread .running
    schedulerQueue thread memory
  else return memory

/-- `thread_kill`. -/
def threadKill (thread : Nat) (memory : Memory) : Except Fault Memory := do
  let record ← memory.readThread thread
  let memory ← if record.state ≠ .running then schedulerQueue thread memory else pure memory
  memory.setState thread .dead

/-- `waiter_free`. -/
def waiterFree (waiter : Nat) (memory : Memory) : Except Fault Memory := do
  let cell ← readCell memory.waiters waiter
  let waiters ← writeCell memory.waiters cell.next fun next => { next with prev := cell.prev }
  let cell ← readCell waiters waiter
  let waiters ← writeCell waiters cell.prev fun prev => { prev with next := cell.next }
  return { memory with waiters := update waiters waiter none }

/-- `thread_free` behind its call for the twin. -/
def threadRelease (thread : Nat) (memory : Memory) : Except Fault Memory := do
  let record ← memory.readThread thread
  let memory ←
    if record.state = .uninterruptableWait then do waiterFree (← follow record.waiter) memory
    else pure memory
  return { memory with threads := update memory.threads thread none }

/-- `thread_free`. The twin has no twin any more when it is freed. -/
def threadFree (thread : Nat) (memory : Memory) : Except Fault Memory := do
  let record ← memory.readThread thread
  match record.twin with
  | none => threadRelease thread memory
  | some twin =>
      let memory ← memory.setThread twin fun other => { other with twin := none }
      let memory ← threadRelease twin memory
      threadRelease thread memory

/-- What `thread_interrupt` does to a thread in an interruptable wait. -/
def interruptWait (thread : Nat) (memory : Memory) : Except Fault Memory := do
  let record ← memory.readThread thread
  let memory ← waiterFree (← follow record.waiter) memory
  let memory ← memory.setThread thread fun record => { record with waiter := none }
  let twin ← follow record.twin
  let memory ← memory.setThread twin fun record => { record with waiter := none }
  let memory ← memory.setState thread .interrupted
  schedulerQueue thread memory

/-- `thread_interrupt`, which returns an error or zero. -/
def threadInterrupt (thread : Nat) (memory : Memory) : Except Fault (Option Refusal × Memory) := do
  match (← memory.readThread thread).state with
  | .uninterruptableWait => return (some .uninterruptable, memory)
  | .interruptableWait => return (none, ← interruptWait thread memory)
  | _ => return (none, memory)

/-- `event_invoke`. -/
def eventInvoke (event : Nat) (memory : Memory) : Except Fault Memory := do
  let _ ← memory.hasSignal event
  let waiter := (← readCell memory.waiters (waiterHead event)).next
  if waiter ≠ waiterTail event then
    let thread := (← readCell memory.waiters waiter).value
    let memory ← waiterFree waiter memory
    let memory ← memory.setThread thread fun record => { record with waiter := none }
    threadRun thread memory
  else return memory.setSignal event true

/-! ## The core -/

/-- The first thread of a queue is taken out of it. -/
def dequeue (thread : Nat) (memory : Memory) : Except Fault Memory := do
  let cell ← readCell memory.threads thread
  let threads ← writeCell memory.threads cell.prev fun prev => { prev with next := cell.next }
  let cell ← readCell threads thread
  let threads ← writeCell threads cell.next fun next => { next with prev := cell.prev }
  return { memory with threads }

/-- The loop of `scheduler_yield` over one queue, up to a thread that can be resumed or the
end of the queue. -/
def pickFrom (priority : ThreadPriority) : Nat → Memory → Except Fault (Option Nat × Memory)
  | 0, _ => .error .nontermination
  | fuel + 1, memory => do
      let thread := (← readCell memory.threads (queueHead priority)).next
      if thread = queueTail priority then return (none, memory)
      let memory ← dequeue thread memory
      match (← memory.readThread thread).state with
      | .running | .interrupted => return (some thread, memory)
      | .waiting | .interruptableWait | .uninterruptableWait | .stopped => pickFrom priority fuel memory
      | .dead =>
          let memory ← threadFree thread memory
          pickFrom priority fuel memory

/-- The loop of `scheduler_yield` over the queues. -/
def pick (fuel : Nat) : List ThreadPriority → Memory → Except Fault (Option Nat × Memory)
  | [], memory => return (none, memory)
  | priority :: rest, memory => do
      match ← pickFrom priority fuel memory with
      | (some thread, memory) => return (some thread, memory)
      | (none, memory) => pick fuel rest memory

/-- The current thread goes back to its queue. -/
def requeue (scheduler : Scheduler) : Except Fault Memory :=
  match scheduler.current with
  | some thread => schedulerQueue thread scheduler.memory
  | none => .ok scheduler.memory

/-- `scheduler_yield`, up to the thread that it resumes. With none it waits for an
interrupt, whose handler ends with a call of its own. -/
def schedulerYield (fuel : Nat) (scheduler : Scheduler) : Except Fault Scheduler := do
  let memory ← requeue scheduler
  let (current, memory) ← pick fuel ThreadPriority.all memory
  return ⟨memory, current⟩

/-- `scheduler_await`, with the waiter from the heap. `store_tsr_and_yield` ends in
`scheduler_yield`. -/
def schedulerAwait (fuel event waiter : Nat) (scheduler : Scheduler) : Except Fault Scheduler := do
  let memory := scheduler.memory
  if ← memory.hasSignal event then return { scheduler with memory := memory.setSignal event false }
  let thread ← follow scheduler.current
  let memory ← memory.setState thread .uninterruptableWait
  let waiters := update memory.waiters waiter (some ⟨thread, 0, 0⟩)
  let waiters ← linkLast waiters (waiterTail event) waiter
  let memory ← { memory with waiters }.setThread thread fun record =>
    { record with waiter := some waiter }
  schedulerYield fuel { scheduler with memory }

/-- `scheduler_await_interruptable` up to its `store_tsr_and_yield`, for an event without a
signal. -/
def enterInterruptableWait (event waiter : Nat) (scheduler : Scheduler) : Except Fault Memory := do
  let thread ← follow scheduler.current
  let memory ← scheduler.memory.setState thread .interruptableWait
  let waiters := update memory.waiters waiter (some ⟨thread, 0, 0⟩)
  let waiters ← linkLast waiters (waiterTail event) waiter
  let cell ← readCell memory.threads thread
  let threads ← writeCell memory.threads cell.next fun next => { next with prev := cell.prev }
  let cell ← readCell threads thread
  let threads ← writeCell threads cell.prev fun prev => { prev with next := cell.next }
  { memory with threads, waiters }.setThread thread fun record =>
    { record with waiter := some waiter }

/-- `scheduler_await_interruptable`. -/
def schedulerAwaitInterruptable (fuel event waiter : Nat) (scheduler : Scheduler) :
    Except Fault Scheduler := do
  let memory := scheduler.memory
  if ← memory.hasSignal event then return { scheduler with memory := memory.setSignal event false }
  let memory ← enterInterruptableWait event waiter scheduler
  schedulerYield fuel { scheduler with memory }

/-- What `scheduler_await_interruptable` returns to a thread that slept in it and is resumed. -/
def awaitResult (record : Thread) : Option Refusal :=
  if record.state = .interrupted then some .interrupted else none

/-- `scheduler_start_twin`. -/
def schedulerStartTwin (scheduler : Scheduler) : Except Fault Scheduler := do
  let thread ← follow scheduler.current
  let memory ← scheduler.memory.setState thread .waiting
  let twin ← follow (← memory.readThread thread).twin
  let memory ← threadRun twin memory
  return ⟨memory, none⟩

/-- `scheduler_return_twin0`, and `scheduler_return_twin1`, which does the same to the lists
and leaves its value in the task state record of the twin. -/
def schedulerReturnTwin (fuel : Nat) (scheduler : Scheduler) : Except Fault Scheduler := do
  let thread ← follow scheduler.current
  let memory ← scheduler.memory.setState thread .stopped
  let twin ← follow (← memory.readThread thread).twin
  let record ← memory.readThread twin
  let memory ← if record.state = .dead then schedulerQueue twin memory else threadRun twin memory
  schedulerYield fuel ⟨memory, none⟩

/-- `syscall_signalret` behind `pop_tsr`. -/
def syscallSignalret (fuel : Nat) (scheduler : Scheduler) : Except Fault Scheduler := do
  let kernThread ← follow scheduler.current
  let thread ← follow (← scheduler.memory.readThread kernThread).twin
  let memory ← scheduler.memory.setState kernThread .stopped
  let memory ← threadRun thread memory
  schedulerYield fuel { scheduler with memory }

end PKernel.Scheduling
