import PKernel.Processes.KillRun

/-! # The list of all processes

What each call does to the list that `process_lookup` walks, in any state of the
kernel: only `process_free` takes a process out of it, and the process that a step
kills is not in it afterwards.
-/

namespace PKernel.Processes

open Library Scheduling
open Function (update update_idem update_self)

variable {kernel next : Kernel} {name : Name} {pid number : Nat} {event : Event} {op : Op}

namespace Kernel

/-! ## Calls that leave the list as it is -/

/-- A thread's state is no part of the list. -/
theorem setState_processes {state : ThreadState} (hcall : kernel.setState name state = .ok next) :
    next.processes = kernel.processes := by
  obtain ⟨record, _, hcall⟩ := bind_eq_ok.mp hcall
  exact Except.ok.inj hcall ▸ rfl

theorem schedulerQueue_processes (hcall : kernel.schedulerQueue name = .ok next) :
    next.processes = kernel.processes := by
  obtain ⟨record, _, hcall⟩ := bind_eq_ok.mp hcall
  split at hcall <;> exact Except.ok.inj hcall ▸ rfl

theorem threadRun_processes (hcall : kernel.threadRun name = .ok next) :
    next.processes = kernel.processes := by
  obtain ⟨record, _, hcall⟩ := bind_eq_ok.mp hcall
  split at hcall
  next =>
    obtain ⟨running, hrunning, hqueue⟩ := bind_eq_ok.mp hcall
    exact (schedulerQueue_processes hqueue).trans (setState_processes hrunning)
  next => exact Except.ok.inj hcall ▸ rfl

/-- A killed thread keeps its place in the list of its process. -/
theorem threadKill_processes (hcall : kernel.threadKill name = .ok next) :
    next.processes = kernel.processes := by
  obtain ⟨record, _, hcall⟩ := bind_eq_ok.mp hcall
  split at hcall
  next =>
    obtain ⟨queued, hqueued, hstate⟩ := bind_eq_ok.mp hcall
    exact (setState_processes hstate).trans (schedulerQueue_processes hqueued)
  next => exact setState_processes hcall

/-- An event wakes threads only. -/
theorem eventInvoke_processes (hcall : kernel.eventInvoke event = .ok next) :
    next.processes = kernel.processes := by
  obtain ⟨queue, _, hcall⟩ := bind_eq_ok.mp hcall
  simp only at hcall
  split at hcall
  next =>
    obtain ⟨record, _, hcall⟩ := bind_eq_ok.mp hcall
    have hrun := threadRun_processes hcall
    exact hrun
  next => exact Except.ok.inj hcall ▸ rfl

theorem threadRelease_processes (hcall : kernel.threadRelease name = .ok next) :
    next.processes = kernel.processes := by
  obtain ⟨record, _, hcall⟩ := bind_eq_ok.mp hcall
  split at hcall
  next =>
    split at hcall
    next waited _ =>
      obtain ⟨freed, hfreed, hcall⟩ := bind_eq_ok.mp hcall
      obtain ⟨queue, _, hfreed⟩ := bind_eq_ok.mp hfreed
      exact Except.ok.inj hcall ▸ Except.ok.inj hfreed ▸ rfl
    next => simp at hcall
  next => exact Except.ok.inj hcall ▸ rfl

/-- The record of a dead thread is freed apart from its process. -/
theorem threadFree_processes (hcall : kernel.threadFree name = .ok next) :
    next.processes = kernel.processes := by
  obtain ⟨released, hreleased, hcall⟩ := bind_eq_ok.mp hcall
  exact (threadRelease_processes hcall).trans (threadRelease_processes hreleased)

/-- The scheduler frees dead threads on its way to the next one that can run. -/
theorem pick_processes {queue : List Name} (hcall : pick queue kernel = .ok next) :
    next.processes = kernel.processes := by
  induction queue generalizing kernel with
  | nil => exact Except.ok.inj hcall ▸ rfl
  | cons name rest ih =>
      obtain ⟨record, _, hcall⟩ := bind_eq_ok.mp hcall
      split at hcall
      case h_7 =>
        obtain ⟨freed, hfreed, hcall⟩ := bind_eq_ok.mp hcall
        exact (ih hcall).trans (threadFree_processes hfreed)
      all_goals first
        | exact ih hcall
        | exact Except.ok.inj hcall ▸ rfl

theorem schedulerYield_processes (hcall : kernel.schedulerYield = .ok next) :
    next.processes = kernel.processes := by
  obtain ⟨requeued, hrequeued, hcall⟩ := bind_eq_ok.mp hcall
  refine (pick_processes hcall).trans ?_
  unfold requeue at hrequeued
  split at hrequeued
  next =>
    have hqueued := schedulerQueue_processes hrequeued
    exact hqueued
  next => exact Except.ok.inj hrequeued ▸ rfl

theorem schedulerAwait_processes (hcall : kernel.schedulerAwait event = .ok next) :
    next.processes = kernel.processes := by
  obtain ⟨name, _, hcall⟩ := bind_eq_ok.mp hcall
  obtain ⟨queue, _, hcall⟩ := bind_eq_ok.mp hcall
  simp only at hcall
  split at hcall
  next =>
    obtain ⟨record, _, hcall⟩ := bind_eq_ok.mp hcall
    have hyielded := schedulerYield_processes hcall
    exact hyielded
  next => exact Except.ok.inj hcall ▸ rfl

/-- A system call changes between a thread and its twin in the kernel. -/
theorem schedulerStartTwin_processes (hcall : kernel.schedulerStartTwin name = .ok next) :
    next.processes = kernel.processes := by
  obtain ⟨waiting, hwaiting, hcall⟩ := bind_eq_ok.mp hcall
  have hrun := threadRun_processes hcall
  have hstate := setState_processes hwaiting
  exact hrun.trans hstate

theorem schedulerReturnTwin_processes (hcall : kernel.schedulerReturnTwin name = .ok next) :
    next.processes = kernel.processes := by
  obtain ⟨stopped, hstopped, hcall⟩ := bind_eq_ok.mp hcall
  obtain ⟨twin, _, hcall⟩ := bind_eq_ok.mp hcall
  have hstate := setState_processes hstopped
  split at hcall
  next =>
    have hqueued := schedulerQueue_processes hcall
    exact hqueued.trans hstate
  next =>
    have hrun := threadRun_processes hcall
    exact hrun.trans hstate

theorem syscallSignalret_processes (hcall : kernel.syscallSignalret name = .ok next) :
    next.processes = kernel.processes := by
  obtain ⟨pid, _, hcall⟩ := bind_eq_ok.mp hcall
  obtain ⟨process, _, hcall⟩ := bind_eq_ok.mp hcall
  obtain ⟨stopped, hstopped, hcall⟩ := bind_eq_ok.mp hcall
  exact (threadRun_processes hcall).trans (setState_processes hstopped)

/-- `process_kill` kills the threads first and takes the process out last. -/
theorem killThreads_processes {numbers : List Nat} (hcall : killThreads numbers kernel = .ok next) :
    next.processes = kernel.processes := by
  induction numbers generalizing kernel with
  | nil => exact Except.ok.inj hcall ▸ rfl
  | cons number rest ih =>
      obtain ⟨record, _, hcall⟩ := bind_eq_ok.mp hcall
      obtain ⟨killed, hkilled, hcall⟩ := bind_eq_ok.mp hcall
      have hkill := threadKill_processes hkilled
      exact (ih hcall).trans hkill

theorem clearThreads_processes {numbers : List Nat} (hcall : clearThreads numbers kernel = .ok next) :
    next.processes = kernel.processes := by
  induction numbers generalizing kernel with
  | nil => exact Except.ok.inj hcall ▸ rfl
  | cons number rest ih =>
      obtain ⟨record, _, hcall⟩ := bind_eq_ok.mp hcall
      have hrest := ih hcall
      exact hrest

/-! ## Calls that change it -/

/-- The process leaves the list whether or not its parent waits. -/
theorem processKill_processes (hcall : kernel.processKill pid = .ok next) :
    next.processes = update kernel.processes pid none := by
  obtain ⟨process, _, hcall⟩ := bind_eq_ok.mp hcall
  obtain ⟨killed, hkilled, hcall⟩ := bind_eq_ok.mp hcall
  obtain ⟨found, _, hcall⟩ := bind_eq_ok.mp hcall
  have hremoved : update killed.processes pid none =
      update kernel.processes pid none := by rw [killThreads_processes hkilled]
  simp only at hcall
  split at hcall
  next =>
    obtain ⟨invoked, hinvoked, hcall⟩ := bind_eq_ok.mp hcall
    obtain ⟨cleared, hcleared, hcall⟩ := bind_eq_ok.mp hcall
    have hevent := eventInvoke_processes hinvoked
    rw [← Except.ok.inj hcall]
    exact ((clearThreads_processes hcleared).trans hevent).trans hremoved
  next =>
    obtain ⟨invoked, hinvoked, hcall⟩ := bind_eq_ok.mp hcall
    obtain ⟨cleared, hcleared, hcall⟩ := bind_eq_ok.mp hcall
    rw [← Except.ok.inj hcall]
    have hclear := clearThreads_processes hcleared
    rw [← Except.ok.inj hinvoked] at hclear
    exact hclear.trans hremoved

/-- The record of the process is replaced by one with a thread more. -/
theorem processAddThread_processes (hcall : kernel.processAddThread pid = .ok next) :
    ∃ process, next.processes = update kernel.processes pid (some process) := by
  obtain ⟨process, _, hcall⟩ := bind_eq_ok.mp hcall
  exact ⟨{ process with threads := process.threads ++ [kernel.nextThread] },
    (congrArg Kernel.processes (Except.ok.inj hcall)).symm⟩

theorem syscallThread_processes (hcall : kernel.syscallThread pid = .ok next) :
    ∃ process, next.processes = update kernel.processes pid (some process) := by
  obtain ⟨added, hadded, hcall⟩ := bind_eq_ok.mp hcall
  obtain ⟨process, hprocesses⟩ := processAddThread_processes hadded
  exact ⟨process, (threadRun_processes hcall).trans hprocesses⟩

/-- The child gets the next number. -/
theorem syscallFork_processes (hcall : kernel.syscallFork pid = .ok next) :
    ∃ process, next.processes = update kernel.processes kernel.currentPid (some process) := by
  obtain ⟨parent, _, hcall⟩ := bind_eq_ok.mp hcall
  obtain ⟨added, hadded, hcall⟩ := bind_eq_ok.mp hcall
  obtain ⟨process, hprocesses⟩ := processAddThread_processes hadded
  refine ⟨process, (threadRun_processes hcall).trans (hprocesses.trans ?_)⟩
  exact update_idem ..

end Kernel

/-! ## One step -/

/-- Processes stay, but for the one that is killed. -/
structure Outlives (kernel : Kernel) (op : Op) (next : Kernel) : Prop where
  kept : ∀ pid, kernel.processes pid ≠ none → op.kills? kernel ≠ some pid → next.processes pid ≠ none
  killed : ∀ pid, op.kills? kernel = some pid → next.processes pid = none

namespace Outlives

/-- A step that leaves the list as it is kills nobody. -/
theorem of_same (hsame : next.processes = kernel.processes) (hkills : op.kills? kernel = none) :
    Outlives kernel op next :=
  ⟨fun _ hprocess _ => hsame ▸ hprocess, fun _ hpid => by simp [hkills] at hpid⟩

theorem of_added {process : Process}
    (hadded : next.processes = update kernel.processes pid (some process))
    (hkills : op.kills? kernel = none) : Outlives kernel op next := by
  refine ⟨fun other hprocess _ => ?_, fun _ hpid => by simp [hkills] at hpid⟩
  rw [hadded]
  by_cases heq : other = pid
  · simp [heq]
  · simpa [heq] using hprocess

theorem of_removed (hremoved : next.processes = update kernel.processes pid none)
    (hkills : op.kills? kernel = some pid) : Outlives kernel op next := by
  refine ⟨fun other hprocess hne => ?_, fun other hother => ?_⟩
  · have hother : other ≠ pid := fun heq => hne (heq ▸ hkills)
    rw [hremoved]
    simpa [hother] using hprocess
  · obtain rfl : pid = other := Option.some.inj (hkills.symm.trans hother)
    rw [hremoved, update_self]

end Outlives

/-- The process that the current thread points to. -/
theorem kills_of_current (hcurrent : kernel.currentThread = .ok name)
    (hprocess : kernel.processOf name = .ok pid) :
    (do
      let name ← kernel.current
      let record ← kernel.threads name
      record.process : Option Nat) = some pid := by
  obtain ⟨record, hrecord, hfollow⟩ := bind_eq_ok.mp hprocess
  unfold Kernel.currentThread at hcurrent
  unfold Kernel.thread at hrecord
  cases hname : kernel.current with
  | none => simp [hname] at hcurrent
  | some found =>
      simp only [hname, Except.ok.injEq] at hcurrent
      subst hcurrent
      cases hthread : kernel.threads found with
      | none => simp [hthread] at hrecord
      | some thread =>
          simp only [hthread, Except.ok.injEq] at hrecord
          subst hrecord
          unfold follow at hfollow
          cases hpid : thread.process with
          | none => simp [hpid] at hfollow
          | some owner =>
              simp only [hpid, Except.ok.injEq] at hfollow
              simp [hthread, hpid, hfollow]

/-- No step takes a process out of the list but the one that kills it. -/
theorem perform_outlives (hcall : kernel.perform op = .ok next) : Outlives kernel op next := by
  cases op with
  | syscall =>
      obtain ⟨name, _, hcall⟩ := bind_eq_ok.mp hcall
      obtain ⟨started, hstarted, hcall⟩ := bind_eq_ok.mp hcall
      exact .of_same ((Kernel.schedulerYield_processes hcall).trans
        (Kernel.schedulerStartTwin_processes hstarted)) rfl
  | fault =>
      obtain ⟨name, hname, hcall⟩ := bind_eq_ok.mp hcall
      obtain ⟨pid, hpid, hcall⟩ := bind_eq_ok.mp hcall
      obtain ⟨killed, hkilled, hcall⟩ := bind_eq_ok.mp hcall
      exact .of_removed ((Kernel.schedulerYield_processes hcall).trans
        (Kernel.processKill_processes hkilled)) (kills_of_current hname hpid)
  | interrupt => exact .of_same (Kernel.schedulerYield_processes hcall) rfl
  | await place => exact .of_same (Kernel.schedulerAwait_processes hcall) rfl
  | wait =>
      obtain ⟨name, _, hcall⟩ := bind_eq_ok.mp hcall
      obtain ⟨pid, _, hcall⟩ := bind_eq_ok.mp hcall
      obtain ⟨process, _, hcall⟩ := bind_eq_ok.mp hcall
      exact .of_same (Kernel.schedulerAwait_processes hcall) rfl
  | fork =>
      obtain ⟨name, _, hcall⟩ := bind_eq_ok.mp hcall
      obtain ⟨pid, _, hcall⟩ := bind_eq_ok.mp hcall
      obtain ⟨process, hadded⟩ := Kernel.syscallFork_processes hcall
      exact .of_added hadded rfl
  | thread =>
      obtain ⟨name, _, hcall⟩ := bind_eq_ok.mp hcall
      obtain ⟨pid, _, hcall⟩ := bind_eq_ok.mp hcall
      obtain ⟨process, hadded⟩ := Kernel.syscallThread_processes hcall
      exact .of_added hadded rfl
  | exit =>
      obtain ⟨name, hname, hcall⟩ := bind_eq_ok.mp hcall
      obtain ⟨pid, hpid, hcall⟩ := bind_eq_ok.mp hcall
      obtain ⟨killed, hkilled, hcall⟩ := bind_eq_ok.mp hcall
      obtain ⟨returned, hreturned, hcall⟩ := bind_eq_ok.mp hcall
      exact .of_removed (((Kernel.schedulerYield_processes hcall).trans
        (Kernel.schedulerReturnTwin_processes hreturned)).trans
          (Kernel.processKill_processes hkilled)) (kills_of_current hname hpid)
  | kill pid =>
      obtain ⟨name, _, hcall⟩ := bind_eq_ok.mp hcall
      obtain ⟨killed, hkilled, hcall⟩ := bind_eq_ok.mp hcall
      obtain ⟨returned, hreturned, hcall⟩ := bind_eq_ok.mp hcall
      have hrest := (Kernel.schedulerYield_processes hcall).trans
        (Kernel.schedulerReturnTwin_processes hreturned)
      unfold Kernel.syscallKill at hkilled
      split at hkilled
      next process hprocess =>
        exact .of_removed (hrest.trans (Kernel.processKill_processes hkilled))
          (by simp [Op.kills?, hprocess])
      next hnone =>
        cases hkilled
        exact .of_same hrest (by simp [Op.kills?, hnone])
  | signalret =>
      obtain ⟨name, _, hcall⟩ := bind_eq_ok.mp hcall
      obtain ⟨returned, hreturned, hcall⟩ := bind_eq_ok.mp hcall
      exact .of_same ((Kernel.schedulerYield_processes hcall).trans
        (Kernel.syscallSignalret_processes hreturned)) rfl
  | «return» =>
      obtain ⟨name, _, hcall⟩ := bind_eq_ok.mp hcall
      obtain ⟨returned, hreturned, hcall⟩ := bind_eq_ok.mp hcall
      exact .of_same ((Kernel.schedulerYield_processes hcall).trans
        (Kernel.schedulerReturnTwin_processes hreturned)) rfl
  | eventInit place =>
      cases hcall
      exact .of_same rfl rfl
  | eventInvoke place => exact .of_same (Kernel.eventInvoke_processes hcall) rfl
  | eventFree place =>
      cases hcall
      exact .of_same rfl rfl

end PKernel.Processes
