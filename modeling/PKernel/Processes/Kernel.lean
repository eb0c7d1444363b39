import Mathlib.Logic.Function.Basic
import PKernel.Library.Transition
import PKernel.Library.WaitQueue
import PKernel.Scheduler.Operations

/-! # Processes, their threads, and the scheduler

`process.c`, `thread.c`, `event.c` and `scheduler.c` with the linked lists as lists. Every
thread has priority `TP_MEDIUM`, so that one run queue is enough. A user thread and its kernel
twin share a number. Numbers and process ids are never used again, so that a pointer to
something freed stays recognisable. No thread is in an interruptable wait.
-/

namespace PKernel.Processes

open Library Scheduling
open Function (update)

/-- A thread by its number and its level. -/
abbrev Name := Nat × ThreadLevel

/-- `twin_thread`. -/
def Name.twin : Name → Name
  | (number, .user) => (number, .kernel)
  | (number, .kernel) => (number, .user)

/-- An event: `child_finished` of a process, or another. -/
inductive Event where
  | childFinished (pid : Nat)
  | other (place : Nat)
deriving DecidableEq, Repr

/-- `thread_t`. The process is pointed to by its id, and the event is the one that the
thread's waiter is in the list of. -/
structure Thread where
  process : Option Nat
  state : ThreadState
  event : Option Event
deriving DecidableEq, Repr

/-- `process_t`, with the numbers of its user threads. Its event goes by its id. -/
structure Process where
  parentId : Nat
  threads : List Nat
deriving DecidableEq, Repr

structure Kernel where
  threads : Name → Option Thread
  /-- The number of pairs of threads made so far. -/
  nextThread : Nat
  /-- What `process_lookup` finds in the list of all processes. -/
  processes : Nat → Option Process
  currentPid : Nat
  events : Event → Option (WaitQueue Name)
  queue : List Name
  current : Option Name

namespace Kernel

/-! ## Memory accesses -/

def thread (kernel : Kernel) (name : Name) : Except Fault Thread :=
  match kernel.threads name with
  | some record => .ok record
  | none => .error .badPointer

def process (kernel : Kernel) (pid : Nat) : Except Fault Process :=
  match kernel.processes pid with
  | some process => .ok process
  | none => .error .badPointer

def event (kernel : Kernel) (event : Event) : Except Fault (WaitQueue Name) :=
  match kernel.events event with
  | some queue => .ok queue
  | none => .error .badPointer

/-- The current thread, where the source follows the pointer to it. -/
def currentThread (kernel : Kernel) : Except Fault Name :=
  match kernel.current with
  | some name => .ok name
  | none => .error .badPointer

def setThread (kernel : Kernel) (name : Name) (record : Thread) : Kernel :=
  { kernel with threads := update kernel.threads name (some record) }

def setEvent (kernel : Kernel) (event : Event) (queue : WaitQueue Name) : Kernel :=
  { kernel with events := update kernel.events event (some queue) }

def setState (kernel : Kernel) (name : Name) (state : ThreadState) : Except Fault Kernel := do
  return kernel.setThread name { ← kernel.thread name with state }

/-- The process that a thread points to. -/
def processOf (kernel : Kernel) (name : Name) : Except Fault Nat := do
  follow (← kernel.thread name).process

/-! ## Threads and events -/

/-- `scheduler_queue`. -/
def schedulerQueue (kernel : Kernel) (name : Name) : Except Fault Kernel := do
  let record ← kernel.thread name
  if record.state = .running ∨ record.state = .dead then
    return { kernel with queue := kernel.queue ++ [name] }
  else return kernel

/-- `thread_run`. -/
def threadRun (kernel : Kernel) (name : Name) : Except Fault Kernel := do
  let record ← kernel.thread name
  if record.state ≠ .running then (← kernel.setState name .running).schedulerQueue name
  else return kernel

/-- `thread_kill`. -/
def threadKill (kernel : Kernel) (name : Name) : Except Fault Kernel := do
  let record ← kernel.thread name
  let kernel ← if record.state ≠ .running then kernel.schedulerQueue name else pure kernel
  kernel.setState name .dead

/-- `event_init`. -/
def eventInit (kernel : Kernel) (event : Event) : Kernel := kernel.setEvent event .empty

/-- `event_free`. -/
def eventFree (kernel : Kernel) (event : Event) : Kernel :=
  { kernel with events := update kernel.events event none }

/-- `event_invoke`. -/
def eventInvoke (kernel : Kernel) (event : Event) : Except Fault Kernel := do
  let (woken, queue) := (← kernel.event event).invoke
  let kernel := kernel.setEvent event queue
  match woken with
  | some name =>
      let kernel := kernel.setThread name { ← kernel.thread name with event := none }
      kernel.threadRun name
  | none => return kernel

/-- `waiter_free` of the waiter of a thread. -/
def waiterFree (kernel : Kernel) (name : Name) (event : Event) : Except Fault Kernel := do
  let queue ← kernel.event event
  return kernel.setEvent event { queue with waiters := queue.waiters.erase name }

/-- `thread_free` behind its call for the twin. -/
def threadRelease (kernel : Kernel) (name : Name) : Except Fault Kernel := do
  let record ← kernel.thread name
  let kernel ←
    if record.state = .uninterruptableWait then
      match record.event with
      | some event => kernel.waiterFree name event
      | none => throw .badPointer
    else pure kernel
  return { kernel with threads := update kernel.threads name none }

/-- `thread_free`. -/
def threadFree (kernel : Kernel) (name : Name) : Except Fault Kernel := do
  (← kernel.threadRelease name.twin).threadRelease name

/-! ## The scheduler -/

/-- The loop of `scheduler_yield` over the run queue. The thread that is picked becomes the
current one and is resumed; with none the core waits for an interrupt. -/
def pick : List Name → Kernel → Except Fault Kernel
  | [], kernel => return { kernel with queue := [], current := none }
  | name :: rest, kernel => do
      match (← kernel.thread name).state with
      | .running | .interrupted => return { kernel with queue := rest, current := some name }
      | .waiting | .interruptableWait | .uninterruptableWait | .stopped => pick rest kernel
      | .dead => pick rest (← kernel.threadFree name)

/-- The current thread goes back to the queue. -/
def requeue (kernel : Kernel) : Except Fault Kernel :=
  match kernel.current with
  | some name => { kernel with current := none }.schedulerQueue name
  | none => .ok kernel

/-- `scheduler_yield`. -/
def schedulerYield (kernel : Kernel) : Except Fault Kernel := do
  let kernel ← kernel.requeue
  pick kernel.queue kernel

/-- `scheduler_await` by the current thread. -/
def schedulerAwait (kernel : Kernel) (event : Event) : Except Fault Kernel := do
  let name ← kernel.currentThread
  let (sleeps, queue) := (← kernel.event event).await name
  let kernel := kernel.setEvent event queue
  if sleeps then
    let record ← kernel.thread name
    (kernel.setThread name { record with
      state := .uninterruptableWait, event := some event }).schedulerYield
  else return kernel

/-- `scheduler_start_twin` for the current thread, behind `scheduler_load_tsr`. -/
def schedulerStartTwin (kernel : Kernel) (name : Name) : Except Fault Kernel := do
  let kernel ← kernel.setState name .waiting
  { kernel with current := none }.threadRun name.twin

/-- `scheduler_return_twin1` for the current thread, up to its `scheduler_yield`. -/
def schedulerReturnTwin (kernel : Kernel) (name : Name) : Except Fault Kernel := do
  let kernel ← kernel.setState name .stopped
  let kernel := { kernel with current := none }
  let twin ← kernel.thread name.twin
  if twin.state = .dead then kernel.schedulerQueue name.twin else kernel.threadRun name.twin

/-- `syscall_signalret` by the current thread, up to its `scheduler_yield`. Its `pop_tsr`
follows the user thread's pointer to its process. -/
def syscallSignalret (kernel : Kernel) (name : Name) : Except Fault Kernel := do
  let pid ← kernel.processOf name.twin
  let _ ← kernel.process pid
  let kernel ← kernel.setState name .stopped
  kernel.threadRun name.twin

/-! ## Processes -/

/-- `process_create`, with the id of the parent that `process_create_fork` sets. -/
def processCreate (kernel : Kernel) (parentId : Nat) : Kernel :=
  { kernel with
    processes := update kernel.processes kernel.currentPid (some ⟨parentId, []⟩)
    currentPid := kernel.currentPid + 1 }.eventInit (.childFinished kernel.currentPid)

/-- `thread_create_user` or `thread_create_fork`, with `process_add_thread`. -/
def processAddThread (kernel : Kernel) (pid : Nat) : Except Fault Kernel := do
  let process ← kernel.process pid
  let kernel := kernel.setThread (kernel.nextThread, .kernel) ⟨some pid, .stopped, none⟩
  let kernel := kernel.setThread (kernel.nextThread, .user) ⟨some pid, .stopped, none⟩
  return { kernel with
    nextThread := kernel.nextThread + 1
    processes := update kernel.processes pid
      (some { process with threads := process.threads ++ [kernel.nextThread] }) }

/-- The loop of `process_kill` over the threads. -/
def killThreads : List Nat → Kernel → Except Fault Kernel
  | [], kernel => return kernel
  | number :: rest, kernel => do
      let record ← kernel.thread (number, .user)
      let kernel := kernel.setThread (number, .user) { record with process := none }
      killThreads rest (← kernel.threadKill (number, .user))

/-- The loop of `process_free` over the threads. -/
def clearThreads : List Nat → Kernel → Except Fault Kernel
  | [], kernel => return kernel
  | number :: rest, kernel => do
      let record ← kernel.thread (number, .user)
      clearThreads rest (kernel.setThread (number, .user) { record with process := none, state := .dead })

/-- `process_free`. `SIG_CHILD` is queued with the parent and interrupts none of its threads. -/
def processFree (kernel : Kernel) (pid : Nat) : Except Fault Kernel := do
  let process ← kernel.process pid
  let kernel := { kernel with processes := update kernel.processes pid none }
  let kernel ← match kernel.processes process.parentId with
    | some _ => kernel.eventInvoke (.childFinished process.parentId)
    | none => pure kernel
  let kernel ← clearThreads process.threads kernel
  return kernel.eventFree (.childFinished pid)

/-- `process_kill`. -/
def processKill (kernel : Kernel) (pid : Nat) : Except Fault Kernel := do
  let process ← kernel.process pid
  (← killThreads process.threads kernel).processFree pid

/-- `syscall_kill`: without such a process it only returns. -/
def syscallKill (kernel : Kernel) (pid : Nat) : Except Fault Kernel :=
  match kernel.processes pid with
  | some _ => kernel.processKill pid
  | none => .ok kernel

/-- `syscall_fork`, with `process_create_fork`. -/
def syscallFork (kernel : Kernel) (parent : Nat) : Except Fault Kernel := do
  let _ ← kernel.process parent
  let pid := kernel.currentPid
  let number := kernel.nextThread
  (← (kernel.processCreate parent).processAddThread pid).threadRun (number, .user)

/-- `syscall_thread`. -/
def syscallThread (kernel : Kernel) (pid : Nat) : Except Fault Kernel := do
  let number := kernel.nextThread
  (← kernel.processAddThread pid).threadRun (number, .user)

end Kernel

/-! ## Runs -/

/-- What happens next. A current user thread makes a system call, is interrupted, or loses its
process to a page fault or a signal. A current kernel thread goes on with its call, up to its
end or its sleep. Interrupts and drivers make, invoke and free events. -/
inductive Op where
  | syscall
  | fault
  | interrupt
  | await (place : Nat)
  | wait
  | fork
  | thread
  | exit
  | kill (pid : Nat)
  | signalret
  | return
  | eventInit (place : Nat)
  | eventInvoke (place : Nat)
  | eventFree (place : Nat)
deriving DecidableEq, Repr

/-- The level of the thread that takes part in a step; an interrupt comes to a user thread or
to the idle core. -/
def Op.Possible (kernel : Kernel) : Op → Prop
  | .syscall | .fault => ∃ number, kernel.current = some (number, .user)
  | .interrupt => ∀ number, kernel.current ≠ some (number, .kernel)
  | .await _ | .wait | .fork | .thread | .exit | .kill _ | .signalret | .return =>
      ∃ number, kernel.current = some (number, .kernel)
  | .eventInit place => kernel.events (.other place) = none
  | .eventInvoke _ | .eventFree _ => True

namespace Kernel

def perform (kernel : Kernel) : Op → Except Fault Kernel
  | .syscall => do (← kernel.schedulerStartTwin (← kernel.currentThread)).schedulerYield
  | .fault => do
      let pid ← kernel.processOf (← kernel.currentThread)
      (← kernel.processKill pid).schedulerYield
  | .interrupt => kernel.schedulerYield
  | .await place => kernel.schedulerAwait (.other place)
  | .wait => do
      let pid ← kernel.processOf (← kernel.currentThread)
      let _ ← kernel.process pid
      kernel.schedulerAwait (.childFinished pid)
  | .fork => do kernel.syscallFork (← kernel.processOf (← kernel.currentThread))
  | .thread => do kernel.syscallThread (← kernel.processOf (← kernel.currentThread))
  | .exit => do
      let name ← kernel.currentThread
      let kernel ← kernel.processKill (← kernel.processOf name)
      (← kernel.schedulerReturnTwin name).schedulerYield
  | .kill pid => do
      let name ← kernel.currentThread
      let kernel ← kernel.syscallKill pid
      (← kernel.schedulerReturnTwin name).schedulerYield
  | .signalret => do (← kernel.syscallSignalret (← kernel.currentThread)).schedulerYield
  | .return => do (← kernel.schedulerReturnTwin (← kernel.currentThread)).schedulerYield
  | .eventInit place => return kernel.eventInit (.other place)
  | .eventInvoke place => kernel.eventInvoke (.other place)
  | .eventFree place => return kernel.eventFree (.other place)

end Kernel

/-- The first process with its thread in the run queue. -/
def bootKernel : Kernel where
  threads := fun name => match name with
    | (0, .user) => some ⟨some 0, .running, none⟩
    | (0, .kernel) => some ⟨some 0, .stopped, none⟩
    | _ => none
  nextThread := 1
  processes := fun pid => if pid = 0 then some ⟨0, [0]⟩ else none
  currentPid := 1
  events := fun event => if event = .childFinished 0 then some .empty else none
  queue := [(0, .user)]
  current := none

/-- All runs of one core. -/
def system : Transition.System Kernel Op where
  init kernel := kernel = bootKernel
  step kernel op next := op.Possible kernel ∧ kernel.perform op = .ok next

end PKernel.Processes
