import PKernel.Library.Transition
import PKernel.Scheduler.InterruptableWait

/-! # Runs of the scheduler

From `scheduler_init` on, the calls of the threads and of the interrupt handlers follow each
other in any order. Each of them returns and keeps the lists in order. Without interruptable
waits no thread is lost.
-/

namespace PKernel.Scheduling

open Library.LinkedList Library.Transition

/-- The calls. New threads, events and waiters come with their places. -/
inductive Call where
  | threadCreateUser (process user kernel : Nat)
  | eventInit (event : Nat)
  | eventFree (event : Nat)
  | threadRun (thread : Nat)
  | threadKill (thread : Nat)
  | threadInterrupt (thread : Nat)
  | eventInvoke (event : Nat)
  | schedulerYield
  | schedulerAwait (event waiter : Nat)
  | schedulerAwaitInterruptable (event waiter : Nat)
  | schedulerStartTwin
  | schedulerReturnTwin
  | syscallSignalret
deriving DecidableEq, Repr

namespace Call

def perform (fuel : Nat) (scheduler : Scheduler) : Call → Except Fault Scheduler
  | threadCreateUser process user kernel =>
      return { scheduler with
        memory := Scheduling.threadCreateUser process user kernel scheduler.memory }
  | eventInit event => return { scheduler with memory := Scheduling.eventInit event scheduler.memory }
  | eventFree event => return { scheduler with memory := Scheduling.eventFree event scheduler.memory }
  | threadRun thread => do
      return { scheduler with memory := ← Scheduling.threadRun thread scheduler.memory }
  | threadKill thread => do
      return { scheduler with memory := ← Scheduling.threadKill thread scheduler.memory }
  | threadInterrupt thread => do
      return { scheduler with memory := (← Scheduling.threadInterrupt thread scheduler.memory).2 }
  | eventInvoke event => do
      return { scheduler with memory := ← Scheduling.eventInvoke event scheduler.memory }
  | schedulerYield => Scheduling.schedulerYield fuel scheduler
  | schedulerAwait event waiter => Scheduling.schedulerAwait fuel event waiter scheduler
  | schedulerAwaitInterruptable event waiter =>
      Scheduling.schedulerAwaitInterruptable fuel event waiter scheduler
  | schedulerStartTwin => Scheduling.schedulerStartTwin scheduler
  | schedulerReturnTwin => Scheduling.schedulerReturnTwin fuel scheduler
  | syscallSignalret => Scheduling.syscallSignalret fuel scheduler

end Call

/-- A thread that is stopped or waits for its twin. -/
def Memory.AtRest (memory : Memory) (thread : Nat) (record : Thread) : Prop :=
  memory.HasThread thread record ∧ (record.state = .stopped ∨ record.state = .waiting)

/-- How the calls are used. The heap hands out unused places. `thread_run` is for a thread
whose twin is not run, an event is freed when nobody waits for it, and a dead thread is not
killed again. -/
def Call.Allowed (scheduler : Scheduler) : Call → Prop
  | .threadCreateUser _ user kernel =>
      scheduler.memory.Unused user ∧ scheduler.memory.Unused kernel ∧ user ≠ kernel
  | .eventInit event => scheduler.memory.events event = none ∧
      scheduler.memory.waiters (waiterHead event) = none ∧
      scheduler.memory.waiters (waiterTail event) = none
  | .eventFree event => scheduler.memory.HasEvent event ∧
      (scheduler.memory.waiters (waiterHead event)).map Cell.next = some (waiterTail event)
  | .threadRun thread => ∃ record twin other, scheduler.memory.AtRest thread record ∧
      record.twin = some twin ∧ scheduler.memory.AtRest twin other
  | .threadKill thread => ∃ record, scheduler.memory.HasThread thread record ∧ record.state ≠ .dead
  | .threadInterrupt thread => ∃ record, scheduler.memory.HasThread thread record
  | .eventInvoke event => scheduler.memory.HasEvent event
  | .schedulerYield => True
  | .schedulerAwait event waiter | .schedulerAwaitInterruptable event waiter =>
      scheduler.current.isSome = true ∧ scheduler.memory.HasEvent event ∧
        scheduler.memory.waiters waiter = none
  | .schedulerStartTwin | .schedulerReturnTwin | .syscallSignalret => scheduler.current.isSome = true

/-- The scheduler with all of its calls. -/
def system : System Scheduler Call where
  init scheduler := scheduler = schedulerInit
  step scheduler call next := call.Allowed scheduler ∧ ∃ fuel, call.perform fuel scheduler = .ok next

/-- A call that has nothing to do with interruptable waits. -/
def Call.Uninterruptable : Call → Prop
  | .schedulerAwaitInterruptable _ _ | .threadInterrupt _ => False
  | _ => True

variable {lossy : Prop} {scheduler : Scheduler} {layout : Layout} {memory : Memory}
  {current : Option Nat} {thread : Nat} {record : Thread}

namespace Sound

/-- A thread at rest is in no spot. -/
theorem idle_of_atRest (hsound : Sound lossy memory current layout)
    (hrest : memory.AtRest thread record) : layout.spot thread = .idle := by
  have hfits := hsound.fits thread record hrest.1
  cases hspot : layout.spot thread with
  | idle => rfl
  | _ =>
      rw [hspot] at hfits
      rcases hrest.2 with hstate | hstate <;> simp [Spot.Fits, hstate] at hfits

/-- What a call without a loop does to memory. -/
theorem settles_of_memory {call : Except Fault Memory}
    (hcall : ∃ memory' layout', call = .ok memory' ∧ Sound lossy memory' current layout') :
    Settles lossy fun _ => do return ⟨← call, current⟩ := by
  obtain ⟨memory', layout', hcall, hsound⟩ := hcall
  rw [hcall]
  exact .of_ok hsound

/-- Each call returns and keeps the lists in order. Threads can be lost only where a thread
gets into an interruptable wait. -/
theorem perform_ok (hsound : Sound lossy scheduler.memory scheduler.current layout) {call : Call}
    (hallowed : call.Allowed scheduler) (hlossy : call.Uninterruptable ∨ lossy) :
    Settles lossy fun fuel => call.perform fuel scheduler := by
  obtain ⟨memory, current⟩ := scheduler
  cases call
  case threadCreateUser process user kernel =>
    obtain ⟨huser, hkernel, hne⟩ := hallowed
    exact .of_ok (hsound.threadCreateUser_ok process huser hkernel hne)
  case eventInit event => exact .of_ok (hsound.eventInit_ok hallowed.1 hallowed.2.1 hallowed.2.2)
  case eventFree event => exact .of_ok (hsound.eventFree_ok hallowed.1 hallowed.2)
  case threadRun thread =>
    obtain ⟨record, twin, other, hrest, htwin, hrestTwin⟩ := hallowed
    have halone : layout.Alone record := by
      intro twin' htwin'
      cases htwin.symm.trans htwin'
      exact hsound.idle_of_atRest hrestTwin
    obtain ⟨memory', hrun, hsound', -⟩ :=
      hsound.threadRun_idle hrest.1 (hsound.idle_of_atRest hrest) halone
    exact settles_of_memory ⟨memory', _, hrun, hsound'⟩
  case threadKill thread =>
    obtain ⟨record, hthread, hdead⟩ := hallowed
    obtain ⟨memory', hkill, hsound'⟩ := hsound.kill hthread hdead
    exact settles_of_memory ⟨memory', layout, hkill, hsound'⟩
  case threadInterrupt thread =>
    obtain ⟨record, hthread⟩ := hallowed
    obtain ⟨result, memory', layout', hinterrupt, hsound'⟩ : ∃ result memory' layout',
        Scheduling.threadInterrupt thread memory = .ok (result, memory') ∧
          Sound lossy memory' current layout' := by
      by_cases hstate : record.state = .interruptableWait
      · obtain ⟨memory', layout', hinterrupt, hsound', -⟩ := hsound.interrupt_ok hthread hstate
        exact ⟨none, memory', layout', hinterrupt, hsound'⟩
      · obtain ⟨result, hinterrupt⟩ := threadInterrupt_of_other hthread hstate
        exact ⟨result, memory, layout, hinterrupt, hsound⟩
    simp only [Call.perform, hinterrupt, ok_bind]
    exact .of_ok hsound'
  case eventInvoke event => exact settles_of_memory (hsound.eventInvoke_ok hallowed)
  case schedulerYield => exact hsound.schedulerYield_ok
  case schedulerAwait event waiter =>
    obtain ⟨hcurrent, hevent, hfresh⟩ := hallowed
    obtain ⟨thread, rfl⟩ := Option.isSome_iff_exists.mp hcurrent
    exact hsound.schedulerAwait_ok hevent hfresh
  case schedulerAwaitInterruptable event waiter =>
    obtain ⟨hcurrent, hevent, hfresh⟩ := hallowed
    obtain ⟨thread, rfl⟩ := Option.isSome_iff_exists.mp hcurrent
    exact hsound.schedulerAwaitInterruptable_ok (hlossy.resolve_left id) hevent hfresh
  case schedulerStartTwin =>
    obtain ⟨thread, rfl⟩ := Option.isSome_iff_exists.mp hallowed
    exact hsound.schedulerStartTwin_ok
  case schedulerReturnTwin =>
    obtain ⟨thread, rfl⟩ := Option.isSome_iff_exists.mp hallowed
    exact hsound.schedulerReturnTwin_ok
  case syscallSignalret =>
    obtain ⟨thread, rfl⟩ := Option.isSome_iff_exists.mp hallowed
    exact hsound.syscallSignalret_ok

theorem step (hsound : Sound lossy scheduler.memory scheduler.current layout) {call : Call}
    {next : Scheduler} (hstep : system.step scheduler call next)
    (hlossy : call.Uninterruptable ∨ lossy) :
    ∃ layout, Sound lossy next.memory next.current layout := by
  obtain ⟨hallowed, fuel, hperform⟩ := hstep
  rcases (hsound.perform_ok hallowed hlossy).2 fuel with hstuck | ⟨next', layout', hnext, hsound'⟩
  · simp [hperform] at hstuck
  · cases hperform.symm.trans hnext
    exact ⟨layout', hsound'⟩

end Sound

/-- In every run the lists are in order. -/
theorem sound_of_reachable (hreach : system.Reachable scheduler) :
    ∃ layout, Sound True scheduler.memory scheduler.current layout := by
  have hinductive : system.Inductive fun scheduler =>
      ∃ layout, Sound True scheduler.memory scheduler.current layout := by
    constructor
    case init =>
      rintro _ rfl
      exact ⟨Layout.empty, sound_schedulerInit⟩
    case step =>
      rintro scheduler call next ⟨layout, hsound⟩ hstep
      exact hsound.step hstep (.inr trivial)
  exact hreach.invariant hinductive

/-- The runs without interruptable waits. -/
def uninterruptable : System Scheduler Call := system.restrict fun _ call => call.Uninterruptable

/-- In a run without interruptable waits no thread is dropped. -/
theorem sound_of_uninterruptable (hreach : uninterruptable.Reachable scheduler) :
    ∃ layout, Sound False scheduler.memory scheduler.current layout := by
  have hinductive : uninterruptable.Inductive fun scheduler =>
      ∃ layout, Sound False scheduler.memory scheduler.current layout := by
    constructor
    case init =>
      rintro _ rfl
      exact ⟨Layout.empty, sound_schedulerInit⟩
    case step =>
      rintro scheduler call next ⟨layout, hsound⟩ ⟨hcall, hstep⟩
      exact hsound.step hstep (.inl hcall)
  exact hreach.invariant hinductive

/-! ## The integrity of the queues -/

/-- The run queues hold the threads in `queue`, and the events have the waiters in `waiters`. -/
structure Intact (scheduler : Scheduler) (queue : ThreadPriority → List Nat)
    (waiters : Nat → List Nat) : Prop where
  /-- The queues are doubly linked lists. -/
  linked : ∀ priority,
    Strung scheduler.memory.threads (queueHead priority) (queueTail priority) (queue priority)
  /-- So are the waiter lists. -/
  waitersLinked : ∀ event, scheduler.memory.HasEvent event →
    Strung scheduler.memory.waiters (waiterHead event) (waiterTail event) (waiters event)
  /-- No thread is in the queues twice. -/
  once : (ThreadPriority.all.flatMap queue).Nodup
  /-- The current thread is in none. -/
  currentOut : ∀ thread, scheduler.current = some thread → ∀ priority, thread ∉ queue priority
  /-- A running thread is the current one or in the queue of its priority. -/
  running : ∀ thread record, scheduler.memory.HasThread thread record → record.state = .running →
    scheduler.current = some thread ∨ thread ∈ queue record.priority
  /-- A thread that waits for an event has one waiter in the lists of all events. -/
  waits : ∀ thread record, scheduler.memory.HasThread thread record →
    record.state = .uninterruptableWait → ∃ event waiter, ∀ event' waiter',
      (scheduler.memory.HasEvent event' ∧ waiter' ∈ waiters event' ∧
        (scheduler.memory.waiters waiter').map Cell.value = some thread) ↔
      event' = event ∧ waiter' = waiter
  /-- No thread in a queue waits or is stopped. -/
  queued : ∀ priority, ∀ thread ∈ queue priority, ∃ record,
    scheduler.memory.HasThread thread record ∧ record.state ≠ .uninterruptableWait ∧
      record.state ≠ .stopped ∧ record.state ≠ .waiting

theorem Sound.intact (hsound : Sound False scheduler.memory scheduler.current layout) :
    Intact scheduler layout.queue layout.waiters where
  linked priority := hsound.queues.strung priority trivial
  waitersLinked event hevent := hsound.lists.strung event hevent
  once := by
    rw [List.nodup_flatMap]
    refine ⟨fun priority _ => ?_, ?_⟩
    · have hnodup := (hsound.queues.strung priority trivial).nodup
      exact ((List.nodup_append.mp (List.nodup_cons.mp hnodup).2)).1
    · have hpriorities : ThreadPriority.all.Nodup := by decide
      refine hpriorities.imp fun {first second} hne thread hfirst hsecond => hne ?_
      exact hsound.queues.eq_of_mem trivial trivial (List.mem_cons_of_mem _ (List.mem_append_left _ hfirst))
        (List.mem_cons_of_mem _ (List.mem_append_left _ hsecond))
  currentOut thread hcurrent priority hqueued := by
    rw [hsound.queued_iff, (hsound.current_iff thread).mp hcurrent] at hqueued
    simp at hqueued
  running thread record hthread hstate := by
    have hfits := hsound.fits thread record hthread
    cases hspot : layout.spot thread with
    | idle => simp [hspot, Spot.Fits, hstate] at hfits
    | current => exact .inl ((hsound.current_iff thread).mpr hspot)
    | queued priority =>
        rw [hspot] at hfits
        obtain ⟨rfl, -⟩ := hfits
        exact .inr ((hsound.queued_iff _ thread).mpr hspot)
    | waiting event waiter => simp [hspot, Spot.Fits, hstate] at hfits
    | dropped => simp [hspot, Spot.Fits] at hfits
  waits thread record hthread hstate := by
    have hfits := hsound.fits thread record hthread
    cases hspot : layout.spot thread with
    | waiting event waiter =>
        refine ⟨event, waiter, fun event' waiter' => ?_⟩
        rw [← hsound.waiting_iff, hspot, Spot.waiting.injEq, eq_comm, @eq_comm _ waiter]
    | _ => simp [hspot, Spot.Fits, hstate] at hfits
  queued priority thread hqueued := by
    have hspot := (hsound.queued_iff priority thread).mp hqueued
    obtain ⟨record, hthread⟩ := hsound.placed thread (by simp [hspot])
    have hfits := hsound.fits thread record hthread
    rw [hspot] at hfits
    refine ⟨record, hthread, ?_⟩
    rcases hfits.2.1 with hstate | hstate <;> simp [hstate]

/-- In every run without interruptable waits the queues are intact, and each call that comes
next returns. -/
theorem queues_intact (hreach : uninterruptable.Reachable scheduler) :
    (∃ queue waiters, Intact scheduler queue waiters) ∧
      ∀ call : Call, call.Uninterruptable → call.Allowed scheduler →
        ∃ fuel next, call.perform fuel scheduler = .ok next := by
  obtain ⟨layout, hsound⟩ := sound_of_uninterruptable hreach
  refine ⟨⟨layout.queue, layout.waiters, hsound.intact⟩, fun call hcall hallowed => ?_⟩
  obtain ⟨⟨bound, hbound⟩, hreturns⟩ := hsound.perform_ok hallowed (.inl hcall)
  obtain ⟨next, -, hnext, -⟩ := (hreturns bound).resolve_left (hbound bound le_rfl)
  exact ⟨bound, next, hnext⟩

/-- A kernel thread sleeps. -/
theorem queues_intact_after_await : ∃ scheduler, uninterruptable.Reachable scheduler ∧
    scheduler.memory.thread? 300 =
      some ⟨some 0, .kernel, .uninterruptableWait, .medium, some 200, some 400⟩ ∧
    ∃ queue waiters, Intact scheduler queue waiters := by
  have hstep {scheduler next : Scheduler} (hreach : uninterruptable.Reachable scheduler)
      (call : Call) (hcall : call.Uninterruptable) (hallowed : call.Allowed scheduler)
      (hperform : call.perform 2 scheduler = .ok next) : uninterruptable.Reachable next :=
    hreach.step ⟨hcall, hallowed, 2, hperform⟩
  have hinit : uninterruptable.Reachable schedulerInit := .init rfl
  have hevent := hstep hinit (.eventInit 100) trivial ⟨rfl, rfl, rfl⟩ rfl
  have hcreate := hstep hevent (.threadCreateUser 0 200 300) trivial
    ⟨⟨by decide, rfl⟩, ⟨by decide, rfl⟩, by decide⟩ rfl
  have hrun := hstep hcreate (.threadRun 200) trivial
    ⟨_, 300, _, ⟨⟨by simp [sentinel], rfl⟩, .inl rfl⟩, rfl, ⟨⟨by simp [sentinel], rfl⟩, .inl rfl⟩⟩ rfl
  have hyield := hstep hrun .schedulerYield trivial trivial rfl
  have hstart := hstep hyield .schedulerStartTwin trivial rfl rfl
  have hyield := hstep hstart .schedulerYield trivial trivial rfl
  have hawait := hstep hyield (.schedulerAwait 100 400) trivial ⟨rfl, rfl, rfl⟩ rfl
  exact ⟨_, hawait, rfl, (queues_intact hawait).1⟩

end PKernel.Scheduling
