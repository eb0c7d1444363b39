import PKernel.Scheduler.Runs
import PKernel.Signals.SignalTable

/-! # Interruptable waits

What `thread_interrupt`, `signal_table_invoke` and `scheduler_await_interruptable` do to the
lists in every state that the scheduler reaches. A thread that is interrupted leaves its waiter
list and gets into no queue, and one that goes to sleep may take the whole queue with it.
-/

namespace PKernel.Scheduling

open Library.LinkedList Library.Transition Signals

variable {memory : Memory} {current : Option Nat} {layout : Layout} {lossy : Prop} {thread : Nat}
  {record : Thread} {priority : ThreadPriority}

/-- A thread is in a run queue. -/
def Memory.Queued (memory : Memory) (priority : ThreadPriority) (thread : Nat) : Prop :=
  ∃ places, Strung memory.threads (queueHead priority) (queueTail priority) places ∧ thread ∈ places

/-- A waiter of a thread is in the list of an event. -/
def Memory.Waits (memory : Memory) (event thread : Nat) : Prop :=
  memory.HasEvent event ∧ ∃ places waiter,
    Strung memory.waiters (waiterHead event) (waiterTail event) places ∧ waiter ∈ places ∧
      (memory.waiters waiter).map Cell.value = some thread

/-- A thread sleeps in `scheduler_await_interruptable`. -/
def Memory.Blocked (memory : Memory) (thread : Nat) : Prop :=
  ∃ record, memory.HasThread thread record ∧ record.state = .interruptableWait

/-- `thread_interrupt` does what it is for: the thread leaves its waiter list, and is in its
queue, to find that it was interrupted. -/
def InterruptResumes (thread : Nat) (memory : Memory) : Prop :=
  ∃ memory' record, threadInterrupt thread memory = .ok (none, memory') ∧
    memory'.HasThread thread record ∧ awaitResult record = some .interrupted ∧
    (∀ event, ¬ memory'.Waits event thread) ∧ memory'.Queued record.priority thread

/-- `signal_table_invoke` interrupts a thread of the process. -/
def SignalInterrupts (sigCount : Nat) (process : Process) (sig : Nat) (memory : Memory) : Prop :=
  ∃ thread ∈ process.threads, memory.Blocked thread ∧ ∃ process' memory',
    signalTableInvoke sigCount process sig memory = .ok (none, process', memory') ∧
      threadInterrupt thread memory = .ok (none, memory')

/-- The thread that goes to sleep leaves the queues as they are. -/
def EnterKeeps (event waiter : Nat) (scheduler : Scheduler) : Prop :=
  ∃ memory', enterInterruptableWait event waiter scheduler = .ok memory' ∧
    ∀ priority other, scheduler.memory.Queued priority other → memory'.Queued priority other

namespace Sound

theorem mem_queue_iff (hsound : Sound lossy memory current layout) :
    memory.Queued priority thread ↔ thread ∈ layout.queue priority := by
  have hstrung := hsound.queues.strung priority trivial
  constructor
  · rintro ⟨places, hplaces, hmem⟩
    rwa [hplaces.unique hstrung] at hmem
  · exact fun hmem => ⟨_, hstrung, hmem⟩

theorem waits_iff (hsound : Sound lossy memory current layout) {event : Nat} :
    memory.Waits event thread ↔ ∃ waiter, layout.spot thread = .waiting event waiter := by
  constructor
  · rintro ⟨hevent, places, waiter, hplaces, hmem, hvalue⟩
    rw [hplaces.unique (hsound.lists.strung event hevent)] at hmem
    exact ⟨waiter, (hsound.waiting_iff event waiter thread).mpr ⟨hevent, hmem, hvalue⟩⟩
  · rintro ⟨waiter, hspot⟩
    obtain ⟨hevent, hmem, hvalue⟩ := (hsound.waiting_iff event waiter thread).mp hspot
    exact ⟨hevent, _, waiter, hsound.lists.strung event hevent, hmem, hvalue⟩

/-- A thread that is interrupted is in no list. -/
theorem interrupted_lost (hsound : Sound lossy memory current layout)
    (hblocked : memory.Blocked thread) :
    ∃ memory' record, threadInterrupt thread memory = .ok (none, memory') ∧
      memory'.HasThread thread record ∧ record.state = .interrupted ∧
      (∀ event, ¬ memory'.Waits event thread) ∧ ∀ priority, ¬ memory'.Queued priority thread := by
  obtain ⟨record, hthread, hstate⟩ := hblocked
  obtain ⟨memory', layout', hinterrupt, hsound', hspot, hthread'⟩ :=
    hsound.interrupt_ok hthread hstate
  refine ⟨memory', _, hinterrupt, hthread', rfl, fun event hwaits => ?_, fun priority hqueued => ?_⟩
  · obtain ⟨waiter, hwaits⟩ := hsound'.waits_iff.mp hwaits
    simp [hspot] at hwaits
  · rw [hsound'.mem_queue_iff, hsound'.queued_iff, hspot] at hqueued
    simp at hqueued

theorem not_interruptResumes (hsound : Sound lossy memory current layout)
    (hblocked : memory.Blocked thread) : ¬ InterruptResumes thread memory := by
  rintro ⟨memory', record, hinterrupt, -, -, -, hqueued⟩
  obtain ⟨memory'', -, hinterrupt', -, -, -, hout⟩ := hsound.interrupted_lost hblocked
  rw [hinterrupt] at hinterrupt'
  simp only [Except.ok.injEq, Prod.mk.injEq, true_and] at hinterrupt'
  subst hinterrupt'
  exact hout _ hqueued

/-- No thread that runs was interrupted. -/
theorem awaitResult_none (hsound : Sound lossy memory current layout)
    (hcurrent : current = some thread) (hthread : memory.HasThread thread record) :
    awaitResult record = none := by
  have hfits := hsound.fits thread record hthread
  rw [(hsound.current_iff thread).mp hcurrent] at hfits
  rcases hfits.1 with hstate | hstate <;> simp [awaitResult, hstate]

/-- The loop over the threads finds the last when all wait, and none otherwise. -/
theorem signalTarget_ok {threads : List Nat}
    (hthreads : ∀ thread ∈ threads, ∃ record, memory.HasThread thread record) (last : Option Nat) :
    ∃ target, signalTarget memory last threads = .ok target ∧
      ((∀ thread ∈ threads, memory.Blocked thread) → target = threads.getLast?.or last) ∧
      ((¬ ∀ thread ∈ threads, memory.Blocked thread) → target = none) := by
  induction threads generalizing last with
  | nil => exact ⟨last, rfl, by simp, by simp⟩
  | cons first rest ih =>
      obtain ⟨record, hfirst⟩ := hthreads first List.mem_cons_self
      rw [signalTarget, Memory.readThread_of_eq hfirst.2, ok_bind]
      have hblocked_iff : memory.Blocked first ↔ record.state = .interruptableWait := by
        constructor
        · rintro ⟨record', hrecord', hstate⟩
          rwa [Option.some.inj (hfirst.2.symm.trans hrecord'.2)]
        · exact fun hstate => ⟨record, hfirst, hstate⟩
      by_cases hstate : record.state = .interruptableWait
      · obtain ⟨target, htarget, hall, hsome⟩ :=
          ih (fun thread hthread => hthreads thread (List.mem_cons_of_mem _ hthread)) (some first)
        refine ⟨target, by simpa [hstate] using htarget, fun hblocked => ?_, fun hblocked => ?_⟩
        · rw [hall fun thread hthread => hblocked thread (List.mem_cons_of_mem _ hthread),
            List.getLast?_cons]
          cases rest.getLast? <;> rfl
        · refine hsome fun hrest => hblocked ?_
          simpa [hblocked_iff, hstate] using hrest
      · refine ⟨none, by simp [hstate], fun hblocked => ?_, fun _ => rfl⟩
        exact absurd (hblocked_iff.mp (hblocked first List.mem_cons_self)) hstate

/-- A signal interrupts a thread exactly when it is accepted and all threads wait. -/
theorem signalInterrupts_iff (hsound : Sound lossy memory current layout) {sigCount sig : Nat}
    {process : Process}
    (hthreads : ∀ thread ∈ process.threads, ∃ record, memory.HasThread thread record)
    (hsome : ∃ thread ∈ process.threads, memory.Blocked thread) :
    SignalInterrupts sigCount process sig memory ↔
      sig < sigCount ∧ process.signalTable.signalQueueSize ≠ queueSize ∧
        ∀ thread ∈ process.threads, memory.Blocked thread := by
  obtain ⟨target, htarget, hall, hnone⟩ := signalTarget_ok hthreads none
  constructor
  · rintro ⟨thread, hmem, hblocked, process', memory', hinvoke, hinterrupt⟩
    have hsig : sig < sigCount := by
      by_contra hsig
      rw [signalTableInvoke, if_pos (Nat.not_lt.mp hsig)] at hinvoke
      simp at hinvoke
    rw [signalTableInvoke, if_neg (Nat.not_le.mpr hsig)] at hinvoke
    have hroom : process.signalTable.signalQueueSize ≠ queueSize := by
      intro hfull
      simp [hfull] at hinvoke
    refine ⟨hsig, hroom, ?_⟩
    by_contra hother
    -- no thread is interrupted, while an interruption changes the state of a thread
    simp only [if_neg hroom, htarget, hnone hother, ok_bind, pure_eq_ok, Except.ok.injEq,
      Prod.mk.injEq] at hinvoke
    obtain ⟨-, -, rfl⟩ := hinvoke
    obtain ⟨memory', record, hinterrupt', hrecord, hstate, -⟩ := hsound.interrupted_lost hblocked
    rw [hinterrupt] at hinterrupt'
    simp only [Except.ok.injEq, Prod.mk.injEq, true_and] at hinterrupt'
    subst hinterrupt'
    obtain ⟨record', hrecord', hstate'⟩ := hblocked
    cases hrecord.2.symm.trans hrecord'.2
    simp [hstate'] at hstate
  · rintro ⟨hsig, hroom, hblocked⟩
    obtain ⟨first, hfirst, -⟩ := hsome
    obtain ⟨thread, hlast⟩ : ∃ thread, process.threads.getLast? = some thread :=
      ⟨_, List.getLast?_eq_some_getLast (List.ne_nil_of_mem hfirst)⟩
    have hmem := List.mem_of_getLast? hlast
    obtain ⟨memory', -, hinterrupt, -⟩ := hsound.interrupted_lost (hblocked thread hmem)
    refine ⟨thread, hmem, hblocked thread hmem,
      { process with signalTable := process.signalTable.push sig }, memory', ?_, hinterrupt⟩
    rw [signalTableInvoke, if_neg (Nat.not_le.mpr hsig), if_neg hroom]
    simp only [htarget, hall hblocked, hlast, Option.some_or, hinterrupt, ok_bind, pure_eq_ok]

/-- Going to sleep leaves the queues as they are exactly when the thread had one behind it, or
no thread is in its queue. -/
theorem enterKeeps_iff (hsound : Sound True memory (some thread) layout) {cell : Cell Thread}
    (hcell : memory.threads thread = some cell) {event waiter : Nat} (hevent : memory.HasEvent event)
    (hfresh : memory.waiters waiter = none) :
    EnterKeeps event waiter ⟨memory, some thread⟩ ↔
      cell.next ≠ queueTail cell.value.priority ∨
        ∀ other, ¬ memory.Queued cell.value.priority other := by
  have hspot := (hsound.current_iff thread).mp rfl
  obtain ⟨record, hthread⟩ := hsound.placed thread (by simp [hspot])
  have hvalue : cell.value = record := by
    have hsame := hthread.2
    rw [Memory.thread?, hcell] at hsame
    exact Option.some.inj hsame
  obtain ⟨asleep, layout', henter, hsound', hqueue, -⟩ :=
    hsound.enter_ok hthread hcell hevent hfresh
  obtain ⟨hprev, hnext, -⟩ := hsound.cursor_cells hthread hcell
  rw [hprev] at henter
  rw [hvalue]
  have hkeeps (hfirst : (layout.queue record.priority ++ [queueTail record.priority]).head? =
      some cell.next) : EnterKeeps event waiter ⟨memory, some thread⟩ := by
    rw [← hqueue] at hfirst
    rw [hsound'.enter_keeps hfirst] at henter
    refine ⟨asleep, henter, fun priority other hqueued => ?_⟩
    rw [hsound'.mem_queue_iff, hqueue]
    exact hsound.mem_queue_iff.mp hqueued
  constructor
  · rintro ⟨memory', henter', hkept⟩
    cases henter.symm.trans henter'
    by_contra hlost
    obtain ⟨hlast, hsome⟩ := not_or.mp hlost
    obtain ⟨other, hqueued⟩ := not_forall_not.mp hsome
    rw [not_not.mp hlast] at hkept
    have hcleared := hsound'.clear trivial record.priority
    have hmem := hcleared.mem_queue_iff.mp (hkept record.priority other hqueued)
    simp [Layout.cleared] at hmem
  · rintro (hbehind | hempty)
    · exact hkeeps (hnext.resolve_left hbehind)
    · rcases hnext with hlast | hfirst
      · have hnil : layout.queue record.priority = [] :=
          List.eq_nil_iff_forall_not_mem.mpr fun other hmem =>
            hempty other (hsound.mem_queue_iff.mpr hmem)
        exact hkeeps (by rw [hnil, hlast]; rfl)
      · exact hkeeps hfirst

end Sound

/-- In every state that the scheduler reaches, no thread that is blocked is resumed by its
interruption, and no await of a thread returns an interruption. A signal interrupts a thread of
a process in which one is blocked exactly when it is accepted and all of its threads are. A
thread that goes to sleep leaves the queues as they are exactly when it had a thread behind it,
or its queue is empty. -/
theorem interruptable_waits {scheduler : Scheduler} (hreach : system.Reachable scheduler) :
    (∀ thread, scheduler.memory.Blocked thread → ¬ InterruptResumes thread scheduler.memory) ∧
    (∀ thread record, scheduler.current = some thread →
      scheduler.memory.HasThread thread record → awaitResult record = none) ∧
    (∀ sigCount process sig,
      (∀ thread ∈ process.threads, ∃ record, scheduler.memory.HasThread thread record) →
      (∃ thread ∈ process.threads, scheduler.memory.Blocked thread) →
      (SignalInterrupts sigCount process sig scheduler.memory ↔
        sig < sigCount ∧ process.signalTable.signalQueueSize ≠ queueSize ∧
          ∀ thread ∈ process.threads, scheduler.memory.Blocked thread)) ∧
    ∀ event waiter thread cell, scheduler.current = some thread →
      scheduler.memory.threads thread = some cell → scheduler.memory.HasEvent event →
      scheduler.memory.waiters waiter = none →
      (EnterKeeps event waiter scheduler ↔
        cell.next ≠ queueTail cell.value.priority ∨
          ∀ other, ¬ scheduler.memory.Queued cell.value.priority other) := by
  obtain ⟨layout, hsound⟩ := sound_of_reachable hreach
  obtain ⟨memory, current⟩ := scheduler
  refine ⟨fun thread => hsound.not_interruptResumes, fun thread record => hsound.awaitResult_none,
    fun sigCount process sig => hsound.signalInterrupts_iff, ?_⟩
  rintro event waiter thread cell rfl hcell hevent hfresh
  exact hsound.enterKeeps_iff hcell hevent hfresh

theorem reachable_call {scheduler next : Scheduler} (hreach : system.Reachable scheduler)
    (call : Call) (hallowed : call.Allowed scheduler)
    (hperform : call.perform 2 scheduler = .ok next) : system.Reachable next :=
  hreach.step ⟨hallowed, 2, hperform⟩

/-- A user thread has started its kernel thread, which runs. -/
def twinRuns : Scheduler :=
  ([Call.eventInit 100, .threadCreateUser 0 200 300, .threadRun 200, .schedulerYield,
    .schedulerStartTwin, .schedulerYield].foldlM (fun scheduler (call : Call) =>
      call.perform 2 scheduler) schedulerInit).toOption.getD schedulerInit

theorem reachable_twinRuns : system.Reachable twinRuns := by
  have hinit : system.Reachable schedulerInit := .init rfl
  have hevent := reachable_call hinit (.eventInit 100) ⟨rfl, rfl, rfl⟩ rfl
  have hcreate := reachable_call hevent (.threadCreateUser 0 200 300)
    ⟨⟨by decide, rfl⟩, ⟨by decide, rfl⟩, by decide⟩ rfl
  have hrun := reachable_call hcreate (.threadRun 200)
    ⟨_, 300, _, ⟨⟨by simp [sentinel], rfl⟩, .inl rfl⟩, rfl, ⟨⟨by simp [sentinel], rfl⟩, .inl rfl⟩⟩ rfl
  have hyield := reachable_call hrun .schedulerYield trivial rfl
  have hstart := reachable_call hyield .schedulerStartTwin rfl rfl
  exact reachable_call hstart .schedulerYield trivial rfl

/-- A kernel thread sleeps, and its interruption leaves it in no queue. -/
theorem interrupt_loses_thread : ∃ scheduler, system.Reachable scheduler ∧
    scheduler.memory.Blocked 300 ∧ ¬ InterruptResumes 300 scheduler.memory := by
  have hawait := reachable_call reachable_twinRuns (.schedulerAwaitInterruptable 100 400) ⟨rfl, rfl, rfl⟩ rfl
  obtain ⟨scheduler, hreach, hblocked⟩ : ∃ scheduler, system.Reachable scheduler ∧
      scheduler.memory.Blocked 300 := ⟨_, hawait, _, ⟨by simp [sentinel], rfl⟩, rfl⟩
  obtain ⟨layout, hsound⟩ := sound_of_reachable hreach
  exact ⟨scheduler, hreach, hblocked, hsound.not_interruptResumes hblocked⟩

/-- A second user thread gets behind the kernel thread, and is dropped when that goes to
sleep. -/
theorem interruptable_waits_before_sleep : ∃ scheduler, system.Reachable scheduler ∧
    scheduler.current = some 300 ∧ scheduler.memory.Queued .medium 201 ∧
    ¬ EnterKeeps 100 400 scheduler := by
  have hcreate := reachable_call reachable_twinRuns (.threadCreateUser 0 201 301)
    ⟨⟨by decide, rfl⟩, ⟨by decide, rfl⟩, by decide⟩ rfl
  have hrun := reachable_call hcreate (.threadRun 201)
    ⟨_, 301, _, ⟨⟨by simp [sentinel], rfl⟩, .inl rfl⟩, rfl, ⟨⟨by simp [sentinel], rfl⟩, .inl rfl⟩⟩ rfl
  obtain ⟨scheduler, hreach, hcurrent, hevent, hfresh, cell, hcell, hlast, hpriority, hqueued⟩ :
      ∃ scheduler, system.Reachable scheduler ∧ scheduler.current = some 300 ∧
        scheduler.memory.HasEvent 100 ∧ scheduler.memory.waiters 400 = none ∧
        ∃ cell, scheduler.memory.threads 300 = some cell ∧ cell.next = 7 ∧
          cell.value.priority = .medium ∧ scheduler.memory.Queued .medium 201 :=
    ⟨_, hrun, rfl, rfl, rfl, _, rfl, rfl, rfl, [201],
      ⟨.cons_cons ⟨rfl, rfl⟩ (.cons_cons ⟨rfl, rfl⟩ (.singleton _)), by decide⟩, by decide⟩
  refine ⟨scheduler, hreach, hcurrent, hqueued, fun hkeeps => ?_⟩
  have hlost := ((interruptable_waits hreach).2.2.2 100 400 300 cell hcurrent hcell hevent
    hfresh).mp hkeeps
  rw [hpriority] at hlost
  exact hlost.elim (fun hbehind => hbehind hlast) fun hempty => hempty 201 hqueued

end PKernel.Scheduling
