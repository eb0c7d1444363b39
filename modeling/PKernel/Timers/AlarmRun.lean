import PKernel.Processes.ProcessTable
import PKernel.Timers.Timer

/-! # Alarms and the processes that set them

`process_free` leaves the timers of a process in the list, with the process as their
cookie. In runs in which no process goes before its alarms, `alarm_timer_handler` is
only given processes that live.
-/

namespace PKernel.Timers

open Library.Transition
open Processes (Kernel Op Name bootKernel)
open Signals (SignalTable)

variable {sigAlarm pid : Nat} {state next : State} {timer : Timer} {timers left : List Timer}

/-- The processes that the next tick gives to `alarm_timer_handler`. -/
def alarmsDue (timers : List Timer) : List Nat :=
  timers.filterMap fun timer =>
    match timer.handler with
    | .alarm pid => if timer.due then some pid else none
    | .nanosleep _ | .blink => none

/-- The processes that the next tick gives to `alarm_timer_handler` live. -/
def AlarmsLive (state : State) : Prop :=
  ∀ pid ∈ alarmsDue state.timers, state.kernel.processes pid ≠ none

/-- The processes of all alarms live. -/
def AlarmsOwned (state : State) : Prop :=
  ∀ timer ∈ state.timers, ∀ pid, timer.handler = .alarm pid → state.kernel.processes pid ≠ none

theorem mem_alarmsDue : pid ∈ alarmsDue timers ↔
    ∃ timer ∈ timers, timer.handler = .alarm pid ∧ timer.due = true := by
  simp only [alarmsDue, List.mem_filterMap]
  constructor
  · rintro ⟨timer, hmem, hpid⟩
    refine ⟨timer, hmem, ?_⟩
    split at hpid
    next owner howner =>
      by_cases hdue : timer.due = true
      · obtain rfl : owner = pid := by simpa [hdue] using hpid
        exact ⟨howner, hdue⟩
      · simp [hdue] at hpid
    all_goals simp at hpid
  · rintro ⟨timer, hmem, howner, hdue⟩
    exact ⟨timer, hmem, by simp [howner, hdue]⟩

theorem AlarmsOwned.live (howned : AlarmsOwned state) : AlarmsLive state := by
  intro pid hpid
  obtain ⟨timer, hmem, howner, _⟩ := mem_alarmsDue.mp hpid
  exact howned timer hmem pid howner

/-! ## One tick -/

theorem run_processes {handler : Handler} {freed : Bool}
    (hcall : handler.run sigAlarm state = .ok (freed, next)) :
    next.kernel.processes = state.kernel.processes := by
  cases handler with
  | alarm pid =>
      obtain ⟨ran, hran, hcall⟩ := bind_eq_ok.mp hcall
      obtain ⟨process, _, hran⟩ := bind_eq_ok.mp hran
      simp only [pure_eq_ok, Except.ok.injEq, Prod.mk.injEq] at hcall hran
      rw [← hcall.2, ← hran]
  | nanosleep place =>
      obtain ⟨ran, hran, hcall⟩ := bind_eq_ok.mp hcall
      obtain ⟨kernel, hinvoked, hran⟩ := bind_eq_ok.mp hran
      simp only [pure_eq_ok, Except.ok.injEq, Prod.mk.injEq] at hcall hran
      rw [← hcall.2, ← hran]
      exact Kernel.eventInvoke_processes hinvoked
  | blink =>
      simp only [Handler.run, pure_eq_ok, Except.ok.injEq, Prod.mk.injEq] at hcall
      rw [← hcall.2]

/-- A handler that returned was not given a process that is gone. -/
theorem run_alarm {freed : Bool} (hcall : (Handler.alarm pid).run sigAlarm state = .ok (freed, next)) :
    state.kernel.processes pid ≠ none := by
  obtain ⟨ran, hran, _⟩ := bind_eq_ok.mp hcall
  obtain ⟨process, hprocess, _⟩ := bind_eq_ok.mp hran
  intro hnone
  simp [Kernel.process, hnone] at hprocess

/-- What a tick does, along the list of timers. -/
theorem updateTimers_ok (hcall : updateTimers sigAlarm state timers = .ok (left, next)) :
    next.kernel.processes = state.kernel.processes ∧
      (∀ after ∈ left, ∃ timer ∈ timers, after.handler = timer.handler) ∧
        ∀ pid ∈ alarmsDue timers, state.kernel.processes pid ≠ none := by
  induction timers generalizing state left with
  | nil =>
      simp only [updateTimers, pure_eq_ok, Except.ok.injEq, Prod.mk.injEq] at hcall
      obtain ⟨rfl, rfl⟩ := hcall
      exact ⟨rfl, by simp, by simp [alarmsDue]⟩
  | cons timer rest ih =>
      obtain ⟨⟨kept, updated⟩, hupdate, hcall⟩ := bind_eq_ok.mp hcall
      obtain ⟨⟨others, final⟩, hrest, hcall⟩ := bind_eq_ok.mp hcall
      cases hcall
      obtain ⟨hhandler, hways⟩ := timerUpdate_ok hupdate
      obtain ⟨hprocesses, hothers, hdue⟩ := ih hrest
      have hupdated : updated.kernel.processes = state.kernel.processes := by
        rcases hways with ⟨_, rfl⟩ | ⟨_, freed, hrun⟩
        · rfl
        · exact run_processes hrun
      refine ⟨hprocesses.trans hupdated, ?_, ?_⟩
      · intro after hafter
        rcases List.mem_append.mp hafter with hfirst | hlater
        · exact ⟨timer, List.mem_cons_self, hhandler after (Option.mem_toList.mp hfirst)⟩
        · obtain ⟨found, hfound, heq⟩ := hothers after hlater
          exact ⟨found, List.mem_cons_of_mem _ hfound, heq⟩
      · intro pid hpid
        obtain ⟨found, hfound, howner, hfoundDue⟩ := mem_alarmsDue.mp hpid
        rcases List.mem_cons.mp hfound with rfl | hlater
        · rcases hways with ⟨hnot, _⟩ | ⟨_, freed, hrun⟩
          · simp [hnot] at hfoundDue
          · rw [howner] at hrun
            exact run_alarm hrun
        · rw [← hupdated]
          exact hdue pid (mem_alarmsDue.mpr ⟨found, hlater, howner, hfoundDue⟩)

/-! ## Runs -/

/-- What happens next: a step of the processes and the scheduler, after which the signal
tables are what programs and the kernel made of them; a system call that sets a timer; the
terminal's timer; or a tick. -/
inductive Action where
  | kernel (op : Op) (signals : Nat → SignalTable)
  | alarm (seconds : Nat)
  | nanosleep (nanos place : Nat)
  | blink (startTicks intervalTicks : Nat)
  | unblink (id : Nat)
  | tick

def Action.Possible (state : State) : Action → Prop
  | kernel op _ => op.Possible state.kernel
  | alarm _ => ∃ number, state.kernel.current = some (number, .kernel)
  | nanosleep _ place => (∃ number, state.kernel.current = some (number, .kernel)) ∧
      state.kernel.events (.other place) = none
  | blink _ _ => True
  | unblink id => ∀ timer ∈ state.timers, timer.id = id → timer.handler = .blink
  | tick => ∀ number, state.kernel.current ≠ some (number, .kernel)

def Action.perform (sigAlarm : Nat) (state : State) : Action → Except Fault State
  | kernel op signals => do
      let kernel ← state.kernel.perform op
      return { state with kernel, signals }
  | alarm seconds => syscallAlarm state seconds
  | nanosleep nanos place => return syscallNanosleep state nanos place
  | blink startTicks intervalTicks => return timerInit state .blink startTicks intervalTicks
  | unblink id => return timerFree state id
  | tick => do
      let state ← timersUpdate sigAlarm state
      let kernel ← state.kernel.schedulerYield
      return { state with kernel }

/-- All runs of one core. -/
def alarmSystem (sigAlarm : Nat) : System State Action where
  init state := state.kernel = bootKernel ∧ state.timers = []
  step state action next := action.Possible state ∧ action.perform sigAlarm state = .ok next

/-- The steps that leave an alarm without its process: a process is killed while an alarm of it
is in the list, or `syscall_alarm` goes on for a process that was killed before it. -/
def Outliving (state : State) : Action → Prop
  | .kernel op _ => ∃ timer ∈ state.timers, ∃ pid,
      timer.handler = .alarm pid ∧ op.kills? state.kernel = some pid
  | .alarm _ => ∃ name pid, state.kernel.currentThread = .ok name ∧
      state.kernel.processOf name = .ok pid ∧ state.kernel.processes pid = none
  | _ => False

variable {action : Action}

theorem alarmsOwned_kernel {op : Op} {kernel : Kernel} (signals : Nat → SignalTable)
    (howned : AlarmsOwned state) (hcall : state.kernel.perform op = .ok kernel) :
    AlarmsOwned { state with kernel, signals } ↔ ¬ Outliving state (.kernel op signals) := by
  have houtlives := Processes.perform_outlives hcall
  constructor
  · rintro hnext ⟨timer, hmem, pid, howner, hkills⟩
    exact hnext timer hmem pid howner (houtlives.killed pid hkills)
  · intro hnot timer hmem pid howner
    refine houtlives.kept pid (howned timer hmem pid howner) ?_
    intro hkills
    exact hnot ⟨timer, hmem, pid, howner, hkills⟩

theorem alarmsOwned_alarm {seconds : Nat} (howned : AlarmsOwned state)
    (hcall : syscallAlarm state seconds = .ok next) :
    AlarmsOwned next ↔ ¬ Outliving state (.alarm seconds) := by
  obtain ⟨name, hname, hcall⟩ := bind_eq_ok.mp hcall
  obtain ⟨pid, hpid, hcall⟩ := bind_eq_ok.mp hcall
  cases hcall
  constructor
  · rintro hnext ⟨found, owner, hfound, howner, hnone⟩
    obtain rfl : name = found := Except.ok.inj (hname.symm.trans hfound)
    obtain rfl : pid = owner := Except.ok.inj (hpid.symm.trans howner)
    exact hnext _ List.mem_cons_self pid rfl hnone
  · intro hnot timer hmem owner howner
    rcases List.mem_cons.mp hmem with rfl | hold
    · obtain rfl : pid = owner := Handler.alarm.inj howner
      intro hnone
      exact hnot ⟨name, pid, hname, hpid, hnone⟩
    · exact howned timer hold owner howner

/-- Timers without a process do not matter. -/
theorem alarmsOwned_init {handler : Handler} {startTicks intervalTicks : Nat}
    (howned : AlarmsOwned state) (hother : ∀ pid, handler ≠ .alarm pid) :
    AlarmsOwned (timerInit state handler startTicks intervalTicks) := by
  intro timer hmem pid howner
  rcases List.mem_cons.mp hmem with rfl | hold
  · exact absurd howner (hother pid)
  · exact howned timer hold pid howner

theorem alarmsOwned_tick (howned : AlarmsOwned state)
    (hcall : Action.tick.perform sigAlarm state = .ok next) : AlarmsOwned next := by
  obtain ⟨updated, hupdated, hcall⟩ := bind_eq_ok.mp hcall
  obtain ⟨kernel, hyield, hcall⟩ := bind_eq_ok.mp hcall
  cases hcall
  obtain ⟨⟨timers, ran⟩, hran, hupdated⟩ := bind_eq_ok.mp hupdated
  cases hupdated
  obtain ⟨hprocesses, hleft, _⟩ := updateTimers_ok hran
  intro after hafter pid howner
  obtain ⟨timer, hmem, heq⟩ := hleft after hafter
  have hyielded : kernel.processes = ran.kernel.processes := Kernel.schedulerYield_processes hyield
  have hlive := howned timer hmem pid (heq.symm.trans howner)
  rwa [← hprocesses, ← hyielded] at hlive

/-- One step. -/
theorem step_alarmsOwned (howned : AlarmsOwned state)
    (hstep : (alarmSystem sigAlarm).step state action next) :
    AlarmsOwned next ↔ ¬ Outliving state action := by
  obtain ⟨_, hcall⟩ := hstep
  cases action with
  | kernel op signals =>
      obtain ⟨kernel, hkernel, hcall⟩ := bind_eq_ok.mp hcall
      cases hcall
      exact alarmsOwned_kernel signals howned hkernel
  | alarm seconds => exact alarmsOwned_alarm howned hcall
  | nanosleep nanos place =>
      cases hcall
      have hevent : AlarmsOwned { state with kernel := state.kernel.eventInit (.other place) } :=
        howned
      exact iff_of_true (alarmsOwned_init hevent nofun) not_false
  | blink startTicks intervalTicks =>
      cases hcall
      exact iff_of_true (alarmsOwned_init howned nofun) not_false
  | unblink id =>
      cases hcall
      refine iff_of_true ?_ not_false
      intro timer hmem pid howner
      exact howned timer (List.mem_filter.mp hmem).1 pid howner
  | tick => exact iff_of_true (alarmsOwned_tick howned hcall) not_false

/-- As long as no process goes before its alarms, the handler is given processes that live; a
step with which one does leaves an alarm whose process is gone. -/
theorem alarms_live
    (hreach : ((alarmSystem sigAlarm).restrict fun state action =>
      ¬ Outliving state action).Reachable state) :
    AlarmsLive state ∧ ∀ action next, (alarmSystem sigAlarm).step state action next →
      (AlarmsOwned next ↔ ¬ Outliving state action) := by
  have howned : AlarmsOwned state := by
    apply hreach.invariant
    constructor
    · rintro state ⟨_, hnone⟩ timer hmem
      simp [hnone] at hmem
    · rintro state action next howned ⟨hnot, hstep⟩
      exact (step_alarmsOwned howned hstep).mpr hnot
  exact ⟨howned.live, fun action next hstep => step_alarmsOwned howned hstep⟩

/-! ## One alarm -/

def emptyTable : SignalTable := ⟨fun _ => ⟨.actTerminate, 0⟩, 0, 0, 0, fun _ => 0⟩

/-- The first process, before any timer. -/
def bootState : State := ⟨bootKernel, fun _ => emptyTable, [], 0⟩

theorem run_step (hreach : (alarmSystem sigAlarm).Reachable state) (action : Action)
    (hpossible : action.Possible state) (hcall : action.perform sigAlarm state = .ok next) :
    (alarmSystem sigAlarm).Reachable next :=
  hreach.step ⟨hpossible, hcall⟩

theorem run_step_meeting
    (hreach : ((alarmSystem sigAlarm).restrict fun state action =>
      ¬ Outliving state action).Reachable state) (action : Action)
    (hnot : ¬ Outliving state action) (hpossible : action.Possible state)
    (hcall : action.perform sigAlarm state = .ok next) :
    ((alarmSystem sigAlarm).restrict fun state action => ¬ Outliving state action).Reachable next :=
  hreach.step ⟨hnot, hpossible, hcall⟩

theorem not_outliving_kernel {op : Op} (hkills : op.kills? state.kernel = none)
    (signals : Nat → SignalTable) : ¬ Outliving state (.kernel op signals) := by
  rintro ⟨timer, _, pid, _, hpid⟩
  simp [hkills] at hpid

/-- The first process sets an alarm of one second. -/
theorem alarms_live_first : ∃ state, state.timers = [⟨0, .waiting, 0, 0, 0, .alarm 0⟩] ∧
    AlarmsLive state ∧ ∀ action next, (alarmSystem 1).step state action next →
      (AlarmsOwned next ↔ ¬ Outliving state action) := by
  have hboot : ((alarmSystem 1).restrict fun state action => ¬ Outliving state action).Reachable
      bootState := .init ⟨rfl, rfl⟩
  have hstart := run_step_meeting hboot (.kernel .interrupt fun _ => emptyTable)
    (not_outliving_kernel rfl _) nofun rfl
  have hcalls := run_step_meeting hstart (.kernel .syscall fun _ => emptyTable)
    (not_outliving_kernel rfl _) ⟨0, rfl⟩ rfl
  refine ⟨_, rfl, alarms_live (run_step_meeting hcalls (.alarm 1) ?_ ⟨0, rfl⟩ rfl)⟩
  rintro ⟨name, pid, hname, hpid, hnone⟩
  obtain rfl : (0, Scheduling.ThreadLevel.kernel) = name := Except.ok.inj hname
  obtain rfl : 0 = pid := Except.ok.inj hpid
  exact absurd hnone nofun

/-- It sets the alarm and exits: the next tick gives the process that is gone to the handler. -/
theorem alarm_outlives_process : ∃ state, (alarmSystem 1).Reachable state ∧
    Action.tick.Possible state ∧ alarmsDue state.timers = [0] ∧
      state.kernel.processes 0 = none ∧ timersUpdate 1 state = .error .badPointer ∧
        ¬ AlarmsLive state := by
  have hboot : (alarmSystem 1).Reachable bootState := .init ⟨rfl, rfl⟩
  have hstart := run_step hboot (.kernel .interrupt fun _ => emptyTable) nofun rfl
  have hcalls := run_step hstart (.kernel .syscall fun _ => emptyTable) ⟨0, rfl⟩ rfl
  have hsets := run_step hcalls (.alarm 1) ⟨0, rfl⟩ rfl
  have hexits := run_step hsets (.kernel .exit fun _ => emptyTable) ⟨0, rfl⟩ rfl
  refine ⟨_, hexits, nofun, rfl, rfl, rfl, ?_⟩
  intro hlive
  exact hlive 0 (by decide) rfl

end PKernel.Timers
