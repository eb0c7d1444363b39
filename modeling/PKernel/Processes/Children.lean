import PKernel.Library.Transition
import PKernel.Library.WaitQueue

/-! # Processes and their children

What `process.c` does at a fork and at a termination, with `SYSCALL_WAIT`. A process is
known by its id, which `current_pid` never gives out twice, and a thread by its place in the
list of all threads made so far, each a user thread together with its kernel twin. Calls run
with interrupts off up to their end or to the `scheduler_await` that puts their thread to
sleep. The signal table is left out: a child's `SIG_CHILD` is queued there, and nobody is in
a wait that it could interrupt.
-/

namespace PKernel.Children

open Library

/-- What a thread does: it is outside `SYSCALL_WAIT`, sleeps there, or was woken and is in a
run queue. -/
inductive Activity where
  | free
  | asleep
  | woken
deriving DecidableEq, Repr

/-- A thread with the id of its process. -/
structure Thread where
  process : Nat
  activity : Activity
deriving DecidableEq, Repr

/-- `process_t` with the ids that relate it to its parent. -/
structure Process where
  id : Nat
  parentId : Nat
deriving DecidableEq, Repr

structure Kernel where
  /-- The list from `process_head` to `process_tail`. -/
  processes : List Process
  currentPid : Nat
  /-- The events that `child_finished` points to, by the ids of their processes. -/
  childFinished : Nat → WaitQueue Nat
  threads : List Thread

namespace Kernel

/-- `process_lookup`. -/
def processLookup (kernel : Kernel) (pid : Nat) : Option Process :=
  kernel.processes.find? fun process => process.id = pid

/-- `process_create`, of a process whose `parent_id` is set behind it. -/
def processCreate (kernel : Kernel) (parentId : Nat) : Kernel :=
  { kernel with
    processes := ⟨kernel.currentPid, parentId⟩ :: kernel.processes
    currentPid := kernel.currentPid + 1
    childFinished := Function.update kernel.childFinished kernel.currentPid .empty }

/-- `process_add_thread`, with the thread from `thread_create_user` or `thread_create_fork`. -/
def processAddThread (kernel : Kernel) (pid : Nat) : Kernel :=
  { kernel with threads := kernel.threads ++ [⟨pid, .free⟩] }

/-- `process_create_fork`. -/
def processCreateFork (kernel : Kernel) (parent : Nat) : Kernel :=
  (kernel.processCreate parent).processAddThread kernel.currentPid

/-- A thread goes on to do something else. -/
def setActivity (kernel : Kernel) (thread : Nat) (activity : Activity) : Kernel :=
  { kernel with threads := kernel.threads.modify thread fun record => { record with activity } }

/-- `event_invoke` of the event of a process, with `thread_run` of the thread it wakes. -/
def eventInvoke (kernel : Kernel) (pid : Nat) : Kernel :=
  let (woken, queue) := (kernel.childFinished pid).invoke
  let kernel := { kernel with childFinished := Function.update kernel.childFinished pid queue }
  match woken with
  | some thread => kernel.setActivity thread .woken
  | none => kernel

/-- The list of the processes without one. -/
def unlink (kernel : Kernel) (process : Process) : Kernel :=
  { kernel with processes := kernel.processes.filter fun other => other.id ≠ process.id }

/-- The parent that `process_free` finds. -/
def parentOf? (kernel : Kernel) (process : Process) : Option Process :=
  (kernel.unlink process).processLookup process.parentId

/-- `process_free`: the process is unlinked before its parent is looked up. -/
def processFree (kernel : Kernel) (process : Process) : Kernel :=
  match kernel.parentOf? process with
  | some parent => (kernel.unlink process).eventInvoke parent.id
  | none => kernel.unlink process

/-- `scheduler_await` on the event of a process; the flag says whether the thread sleeps. -/
def schedulerAwait (kernel : Kernel) (pid thread : Nat) : Bool × Kernel :=
  let (sleeps, queue) := (kernel.childFinished pid).await thread
  let kernel := { kernel with childFinished := Function.update kernel.childFinished pid queue }
  (sleeps, if sleeps then kernel.setActivity thread .asleep else kernel)

/-- The process on whose behalf a thread makes a call: it is outside any other call, and its
process lives. -/
def caller? (kernel : Kernel) (thread : Nat) : Option Nat :=
  match kernel.threads[thread]? with
  | some ⟨pid, .free⟩ => (kernel.processLookup pid).map Process.id
  | _ => none

end Kernel

/-- What happens next. A process is killed by `SYSCALL_EXIT`, by `SYSCALL_KILL`, or by a
signal or a page fault. -/
inductive Op where
  | fork (thread : Nat)
  | thread (thread : Nat)
  | wait (thread : Nat)
  | resume (thread : Nat)
  | kill (pid : Nat)
deriving DecidableEq, Repr

/-- What is to be counted: the wait calls of a process that return, and the terminations of
the children of a process that lives. -/
inductive Outcome where
  | nothing
  | returned (pid : Nat)
  | terminated (parent : Nat)
deriving DecidableEq, Repr

/-- One call up to its end or its sleep, or nothing where it cannot be made. -/
def Kernel.perform (kernel : Kernel) : Op → Option (Outcome × Kernel)
  | .fork thread => do
      let parent ← kernel.caller? thread
      return (.nothing, kernel.processCreateFork parent)
  | .thread thread => do
      let pid ← kernel.caller? thread
      return (.nothing, kernel.processAddThread pid)
  | .wait thread => do
      let pid ← kernel.caller? thread
      let (sleeps, kernel) := kernel.schedulerAwait pid thread
      return (if sleeps then .nothing else .returned pid, kernel)
  | .resume thread =>
      match kernel.threads[thread]? with
      | some ⟨pid, .woken⟩ => some (.returned pid, kernel.setActivity thread .free)
      | _ => none
  | .kill pid => do
      let process ← kernel.processLookup pid
      let outcome := match kernel.parentOf? process with
        | some parent => .terminated parent.id
        | none => .nothing
      return (outcome, kernel.processFree process)

/-- The first process, whose own id is that of its parent, with its thread. -/
def bootKernel : Kernel :=
  (Kernel.processCreate ⟨[], 0, fun _ => .empty, []⟩ 0).processAddThread 0

/-- The kernel with the numbers, for each process, of the terminations of its children and of
its wait calls that returned. -/
structure World where
  kernel : Kernel
  terminated : Nat → Nat
  returned : Nat → Nat

/-- The counts after an outcome. -/
def World.after (world : World) (outcome : Outcome) (kernel : Kernel) : World :=
  match outcome with
  | .nothing => { world with kernel }
  | .returned pid =>
      { world with kernel, returned := Function.update world.returned pid (world.returned pid + 1) }
  | .terminated pid =>
      { world with
        kernel, terminated := Function.update world.terminated pid (world.terminated pid + 1) }

/-- All interleavings of the calls of all threads. -/
def system : Transition.System World Op where
  init world := world = ⟨bootKernel, fun _ => 0, fun _ => 0⟩
  step world op next := ∃ outcome kernel,
    world.kernel.perform op = some (outcome, kernel) ∧ next = world.after outcome kernel

end PKernel.Children
