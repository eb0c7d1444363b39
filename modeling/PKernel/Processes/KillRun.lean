import PKernel.Processes.Kill

/-! # Runs with kills

While each kill finds the threads of its process where it reaches them, the current thread
always belongs to a process that lives, and what a kill leaves behind is never resumed.
-/

namespace PKernel.Processes

open Library Library.Transition Scheduling
open Function (update update_of_ne update_self)

/-- The process that a step kills. -/
def Op.kills? (kernel : Kernel) : Op → Option Nat
  | .fault | .exit => do
      let name ← kernel.current
      let record ← kernel.threads name
      record.process
  | .kill pid => (kernel.processes pid).map fun _ => pid
  | _ => none

/-- A process is killed only when its threads are settled. -/
def Reaching (kernel : Kernel) (op : Op) : Prop :=
  ∀ pid, op.kills? kernel = some pid → Settled kernel pid

namespace Kernel

/-- The pair of threads belongs to a process that lives. -/
def Belongs (kernel : Kernel) (number pid : Nat) : Prop :=
  ∃ process, kernel.processes pid = some process ∧ number ∈ process.threads

end Kernel

/-- No pair of threads that was there comes to belong to a process. -/
structure Descends (kernel next : Kernel) : Prop where
  nextThread : kernel.nextThread ≤ next.nextThread
  belongs : ∀ number pid, number < kernel.nextThread → next.Belongs number pid →
    kernel.Belongs number pid

variable {kernel next later : Kernel} {layout layout' : Layout} {number pid : Nat} {phase : Phase}
  {name : Name} {process : Process} {op : Op}

namespace Descends

theorem refl (kernel : Kernel) : Descends kernel kernel := ⟨Nat.le_refl _, fun _ _ _ h => h⟩

theorem trans (hfirst : Descends kernel next) (hsecond : Descends next later) :
    Descends kernel later where
  nextThread := Nat.le_trans hfirst.nextThread hsecond.nextThread
  belongs number pid hlt hlater :=
    hfirst.belongs number pid hlt
      (hsecond.belongs number pid (Nat.lt_of_lt_of_le hlt hfirst.nextThread) hlater)

end Descends

theorem Keeps.belongs (hkeeps : Keeps kernel next) : next.Belongs number pid ↔ kernel.Belongs number pid := by
  rw [Kernel.Belongs, hkeeps.processes, Kernel.Belongs]

theorem Keeps.descends (hkeeps : Keeps kernel next) : Descends kernel next :=
  ⟨Nat.le_of_eq hkeeps.nextThread.symm, fun _ _ _ => hkeeps.belongs.mp⟩

theorem Sound.owner_iff_belongs (hsound : Sound kernel layout) :
    layout.owner number = some pid ↔ kernel.Belongs number pid :=
  hsound.owned.owner_iff number pid

namespace Resting

/-- A step that leaves the current thread and its process. -/
theorem of_sound (hresting : Resting kernel layout) (hsound : Sound next layout')
    (hcurrent : next.current = kernel.current)
    (hbelongs : ∀ number pid, kernel.Belongs number pid → next.Belongs number pid) :
    Resting next layout' :=
  ⟨hsound, fun name hname => by
    obtain ⟨pid, howner⟩ := hresting.current_alive name (hcurrent ▸ hname)
    exact ⟨pid, hsound.owner_iff_belongs.mpr
      (hbelongs _ _ (hresting.toSound.owner_iff_belongs.mp howner))⟩⟩

/-- The current thread runs for a process that lives. -/
theorem current_phase (hresting : Resting kernel layout) {level : ThreadLevel}
    (hcurrent : kernel.current = some (number, level)) :
    ∃ pid, (kernel.threads (number, level)).bind Thread.process = some pid ∧
      layout number = some (pid, match level with | .user => .user | .kernel => .called) := by
  obtain ⟨pid, howner⟩ := hresting.current_alive _ hcurrent
  obtain ⟨phase, hat, halive⟩ := Layout.owner_eq_some.mp howner
  have hplace := (hresting.lined.placed _).mp (.inl hcurrent)
  have hthread := hresting.toSound.thread_eq hat level
  rw [Layout.place_eq hat] at hplace
  refine ⟨pid, ?_, ?_⟩
  · rw [hthread]
    cases level with
    | user => simp [Phase.record, halive]
    | kernel => rfl
  · cases level with
    | user =>
        cases phase with
        | user => exact hat
        | dying => cases halive
        | called | asleep | stuck | exiting | lost => cases hplace
    | kernel =>
        cases phase with
        | called => exact hat
        | exiting => cases halive
        | user | asleep | stuck | dying | lost => cases hplace

/-- Nobody returns to a dead thread while no kernel thread is current. -/
theorem no_exits (hsound : Sound kernel layout) (hcurrent : ∀ number, kernel.current ≠ some (number, .kernel))
    (number pid : Nat) : layout number ≠ some (pid, .exiting) :=
  fun hat => hcurrent number (hsound.exits number pid hat)

end Resting

/-! ## One step -/

/-- After a step the current thread belongs to a process that lives, no pair of threads has come
to belong to one, and the process that was killed is gone. -/
def Continues (kernel : Kernel) (op : Op) (next : Kernel) : Prop :=
  (∃ layout, Resting next layout) ∧ Descends kernel next ∧
    ∀ pid, op.kills? kernel = some pid → next.processes pid = none

/-- The rest of a step that kills nobody, behind what it did to the processes. -/
theorem continues_yield (hsound : Sound next layout) (hcurrent : next.current = none)
    (hdescends : Descends kernel next) (hkills : op.kills? kernel = none)
    (hyield : next.schedulerYield = .ok later) : Continues kernel op later := by
  obtain ⟨last, layout', hreturn, hkeeps, hresting⟩ := hsound.yield_idle hcurrent
  obtain rfl : last = later := Except.ok.inj (hreturn.symm.trans hyield)
  exact ⟨⟨layout', hresting⟩, hdescends.trans hkeeps.descends, fun pid hpid => by simp [hkills] at hpid⟩

namespace Kernel

theorem processOf_eq (hprocess : (kernel.threads name).bind Thread.process = some pid) :
    kernel.processOf name = .ok pid := by
  obtain ⟨record, hrecord, hpid⟩ := Option.bind_eq_some_iff.mp hprocess
  rw [processOf, thread_eq hrecord, ok_bind, hpid]
  rfl

theorem kills_current (hcurrent : kernel.current = some name)
    (hprocess : (kernel.threads name).bind Thread.process = some pid) :
    (do let name ← kernel.current
        let record ← kernel.threads name
        record.process) = some pid := by
  rw [hcurrent]
  exact hprocess

end Kernel

namespace Resting

theorem process_exists (hresting : Resting kernel layout) (hat : layout number = some (pid, phase))
    (halive : phase.alive = true) : ∃ process, kernel.processes pid = some process := by
  obtain ⟨process, hprocess, -⟩ := hresting.toSound.owner_iff_belongs.mp
    (Layout.owner_eq_some.mpr ⟨phase, hat, halive⟩)
  exact ⟨process, hprocess⟩

theorem step_syscall (hresting : Resting kernel layout) (hcurrent : kernel.current = some (number, .user))
    (hperform : kernel.perform .syscall = .ok next) : Continues kernel .syscall next := by
  obtain ⟨pid, -, hat⟩ := hresting.current_phase hcurrent
  obtain ⟨started, hstart, hnone, hkeeps, hsound⟩ := hresting.toSound.startTwin hcurrent hat
  rw [Kernel.perform, Kernel.currentThread_eq hcurrent, ok_bind, hstart, ok_bind] at hperform
  exact continues_yield hsound hnone hkeeps.descends rfl hperform

theorem step_return (hresting : Resting kernel layout) (hcurrent : kernel.current = some (number, .kernel))
    (hperform : kernel.perform .return = .ok next) : Continues kernel .return next := by
  obtain ⟨pid, -, hat⟩ := hresting.current_phase hcurrent
  obtain ⟨phase', returned, -, hreturn, hnone, hkeeps, hsound⟩ := hresting.toSound.returnTwin hcurrent hat
  rw [Kernel.perform, Kernel.currentThread_eq hcurrent, ok_bind, hreturn, ok_bind] at hperform
  exact continues_yield hsound hnone hkeeps.descends rfl hperform

theorem step_signalret (hresting : Resting kernel layout)
    (hcurrent : kernel.current = some (number, .kernel))
    (hperform : kernel.perform .signalret = .ok next) : Continues kernel .signalret next := by
  obtain ⟨pid, -, hat⟩ := hresting.current_phase hcurrent
  obtain ⟨running, left, hreturn, hleave, hnone, hkeeps, hsound⟩ :=
    hresting.toSound.signalret hcurrent hat
  rw [Kernel.perform, Kernel.currentThread_eq hcurrent, ok_bind, hreturn, ok_bind, hleave] at hperform
  exact continues_yield hsound hnone hkeeps.descends rfl hperform

theorem step_interrupt (hresting : Resting kernel layout)
    (hcurrent : ∀ number, kernel.current ≠ some (number, .kernel))
    (hperform : kernel.perform .interrupt = .ok next) : Continues kernel .interrupt next := by
  obtain ⟨last, layout', hreturn, hkeeps, hnext⟩ :=
    hresting.toSound.yield (no_exits hresting.toSound hcurrent)
  obtain rfl : last = next := Except.ok.inj (hreturn.symm.trans hperform)
  exact ⟨⟨layout', hnext⟩, hkeeps.descends, nofun⟩

/-- A wait of the current kernel thread, for an event that there is. -/
theorem step_await (hresting : Resting kernel layout) (hcurrent : kernel.current = some (number, .kernel))
    {event : Event} {queue : WaitQueue Name} (hevent : kernel.events event = some queue)
    (hkills : op.kills? kernel = none) (hawait : kernel.schedulerAwait event = .ok next) :
    Continues kernel op next := by
  obtain ⟨pid, -, hat⟩ := hresting.current_phase hcurrent
  cases hsignal : queue.signal with
  | true =>
      obtain ⟨hreturn, hsound⟩ := hresting.toSound.await_signal hcurrent hevent hsignal
      cases hreturn.symm.trans hawait
      refine ⟨⟨layout, hresting.of_sound hsound rfl fun _ _ h => h⟩, ⟨Nat.le_refl _, fun _ _ _ h => h⟩, ?_⟩
      intro pid hpid
      simp [hkills] at hpid
  | false =>
      obtain ⟨slept, hsleep, hnone, hkeeps, hsound⟩ :=
        hresting.toSound.await_sleep hcurrent hat hevent hsignal
      exact continues_yield hsound hnone hkeeps.descends hkills (hsleep ▸ hawait)

theorem step_wait (hresting : Resting kernel layout) (hcurrent : kernel.current = some (number, .kernel))
    (hperform : kernel.perform .wait = .ok next) : Continues kernel .wait next := by
  obtain ⟨pid, hpid, hat⟩ := hresting.current_phase hcurrent
  obtain ⟨process, hprocess⟩ := hresting.process_exists hat rfl
  obtain ⟨queue, hevent⟩ := Option.isSome_iff_exists.mp (hresting.children pid process hprocess)
  rw [Kernel.perform, Kernel.currentThread_eq hcurrent, ok_bind, Kernel.processOf_eq hpid, ok_bind,
    Kernel.process, hprocess, ok_bind] at hperform
  exact hresting.step_await hcurrent hevent rfl hperform

theorem step_event (hresting : Resting kernel layout) {place : Nat}
    (hperform : kernel.perform (.eventInvoke place) = .ok next) :
    Continues kernel (.eventInvoke place) next := by
  obtain ⟨queue, hevent⟩ : ∃ queue, kernel.events (.other place) = some queue := by
    cases hevent : kernel.events (.other place) with
    | none =>
        rw [Kernel.perform, Kernel.eventInvoke, Kernel.event, hevent] at hperform
        cases hperform
    | some queue => exact ⟨queue, rfl⟩
  obtain ⟨told, layout', hinvoke, hcurrent, hkeeps, hsound⟩ := hresting.toSound.invoke hevent
  obtain rfl : told = next := Except.ok.inj (hinvoke.symm.trans hperform)
  exact ⟨⟨layout', hresting.of_sound hsound hcurrent fun _ _ => hkeeps.belongs.mpr⟩, hkeeps.descends,
    fun _ hkills => by cases hkills⟩

/-- A thread is added to a process that lives. -/
theorem step_addThread (hresting : Resting kernel layout) (hprocess : kernel.processes pid = some process)
    (hadd : kernel.syscallThread pid = .ok next) :
    (∃ layout, Resting next layout) ∧ Descends kernel next := by
  obtain ⟨added, hreturn, hcurrent, hnextThread, hprocesses, hsound⟩ :=
    hresting.toSound.addThread hprocess
  obtain rfl : added = next := Except.ok.inj (hreturn.symm.trans hadd)
  have hmember {number other : Nat} (hbelongs : added.Belongs number other) :
      kernel.Belongs number other ∨ number = kernel.nextThread := by
    obtain ⟨found, hfound, hmem⟩ := hbelongs
    rw [hprocesses] at hfound
    by_cases hsame : other = pid
    · subst hsame
      rw [update_self, Option.some.injEq] at hfound
      rw [← hfound, List.mem_append, List.mem_singleton] at hmem
      exact hmem.imp_left fun hold => ⟨process, hprocess, hold⟩
    · rw [update_of_ne hsame] at hfound
      exact .inl ⟨found, hfound, hmem⟩
  refine ⟨⟨_, hresting.of_sound hsound hcurrent fun number other hbelongs => ?_⟩, ?_, ?_⟩
  · obtain ⟨found, hfound, hmem⟩ := hbelongs
    rw [Kernel.Belongs, hprocesses]
    by_cases hsame : other = pid
    · subst hsame
      cases hprocess.symm.trans hfound
      exact ⟨_, update_self .., List.mem_append_left _ hmem⟩
    · exact ⟨found, (update_of_ne hsame ..).trans hfound, hmem⟩
  · rw [hnextThread]
    exact Nat.le_succ _
  · intro number other hlt hbelongs
    exact (hmember hbelongs).resolve_right (Nat.ne_of_lt hlt)

theorem step_thread (hresting : Resting kernel layout) (hcurrent : kernel.current = some (number, .kernel))
    (hperform : kernel.perform .thread = .ok next) : Continues kernel .thread next := by
  obtain ⟨pid, hpid, hat⟩ := hresting.current_phase hcurrent
  obtain ⟨process, hprocess⟩ := hresting.process_exists hat rfl
  rw [Kernel.perform, Kernel.currentThread_eq hcurrent, ok_bind, Kernel.processOf_eq hpid, ok_bind] at hperform
  obtain ⟨hnext, hdescends⟩ := hresting.step_addThread hprocess hperform
  exact ⟨hnext, hdescends, nofun⟩

theorem step_fork (hresting : Resting kernel layout) (hcurrent : kernel.current = some (number, .kernel))
    (hperform : kernel.perform .fork = .ok next) : Continues kernel .fork next := by
  obtain ⟨pid, hpid, hat⟩ := hresting.current_phase hcurrent
  obtain ⟨process, hprocess⟩ := hresting.process_exists hat rfl
  have hunlisted := hresting.unlisted kernel.currentPid (Nat.le_refl _)
  have hcreated : Resting (kernel.processCreate pid) layout := by
    refine hresting.of_sound (hresting.toSound.processCreate pid) rfl fun number other hbelongs => ?_
    obtain ⟨found, hfound, hmem⟩ := hbelongs
    have hne : other ≠ kernel.currentPid := by
      rintro rfl
      cases hunlisted.symm.trans hfound
    exact ⟨found, (Kernel.processCreate_of_ne hne).trans hfound, hmem⟩
  have hdescends : Descends kernel (kernel.processCreate pid) := by
    refine ⟨Nat.le_refl _, fun number other hlt hbelongs => ?_⟩
    obtain ⟨found, hfound, hmem⟩ := hbelongs
    by_cases hsame : other = kernel.currentPid
    · rw [hsame, Kernel.processCreate_self] at hfound
      rw [← Option.some.inj hfound] at hmem
      exact absurd hmem List.not_mem_nil
    · exact ⟨found, (Kernel.processCreate_of_ne hsame).symm.trans hfound, hmem⟩
  rw [Kernel.perform, Kernel.currentThread_eq hcurrent, ok_bind, Kernel.processOf_eq hpid, ok_bind,
    Kernel.syscallFork, Kernel.process, hprocess, ok_bind] at hperform
  obtain ⟨hnext, hadded⟩ := hcreated.step_addThread (kernel.processCreate_self pid) hperform
  exact ⟨hnext, hdescends.trans hadded, fun _ hkills => by cases hkills⟩

/-! ## Kills -/

/-- A kill leaves no pair of threads to its process, and no other one changes hands. -/
theorem killed_descends (hprocesses : next.processes = update kernel.processes pid none)
    (hnextThread : next.nextThread = kernel.nextThread) : Descends kernel next := by
  refine ⟨Nat.le_of_eq hnextThread.symm, fun number other _ hbelongs => ?_⟩
  obtain ⟨found, hfound, hmem⟩ := hbelongs
  rw [hprocesses] at hfound
  by_cases hsame : other = pid
  · subst hsame
    rw [update_self] at hfound
    exact absurd hfound nofun
  · exact ⟨found, (update_of_ne hsame ..).symm.trans hfound, hmem⟩

theorem step_fault (hresting : Resting kernel layout) (hcurrent : kernel.current = some (number, .user))
    (hreaching : Reaching kernel .fault) (hperform : kernel.perform .fault = .ok next) :
    Continues kernel .fault next := by
  obtain ⟨pid, hpid, hat⟩ := hresting.current_phase hcurrent
  obtain ⟨process, hprocess⟩ := hresting.process_exists hat rfl
  have hkills : Op.fault.kills? kernel = some pid := Kernel.kills_current hcurrent hpid
  obtain ⟨killed, layout', hkill, hkept, hnextThread, hprocesses, hsound⟩ :=
    hresting.toSound.processKill hprocess (hreaching pid hkills)
  obtain ⟨last, layout'', hreturn, hkeeps, hnext⟩ := hsound.yield (no_exits hsound (by simp [hkept, hcurrent]))
  rw [Kernel.perform, Kernel.currentThread_eq hcurrent, ok_bind, Kernel.processOf_eq hpid, ok_bind,
    hkill, ok_bind] at hperform
  obtain rfl : last = next := Except.ok.inj (hreturn.symm.trans hperform)
  refine ⟨⟨layout'', hnext⟩, (killed_descends hprocesses hnextThread).trans hkeeps.descends, ?_⟩
  intro other hother
  cases hkills.symm.trans hother
  rw [hkeeps.processes, hprocesses, update_self]

/-- A kernel thread kills a process, which may be its own, and returns. -/
theorem step_killer (hresting : Resting kernel layout) (hcurrent : kernel.current = some (number, .kernel))
    (hprocess : kernel.processes pid = some process) (hsettled : Settled kernel pid) {killed : Kernel}
    (hkill : kernel.processKill pid = .ok killed) {returned : Kernel}
    (hreturn : killed.schedulerReturnTwin (number, .kernel) = .ok returned)
    (hyield : returned.schedulerYield = .ok next) :
    (∃ layout, Resting next layout) ∧ Descends kernel next ∧ next.processes pid = none := by
  obtain ⟨killed', layout', hkill', hkept, hnextThread, hprocesses, hsound⟩ :=
    hresting.toSound.processKill hprocess hsettled
  obtain rfl : killed' = killed := Except.ok.inj (hkill'.symm.trans hkill)
  have hcurrent' := hkept.trans hcurrent
  obtain ⟨⟨owner, phase⟩, hat, -⟩ := Option.bind_eq_some_iff.mp
    ((hsound.lined.placed _).mp (.inl hcurrent'))
  obtain ⟨phase', returned', -, hreturn', hnone, hkeeps, hreturned⟩ := hsound.returnTwin hcurrent' hat
  obtain rfl : returned' = returned := Except.ok.inj (hreturn'.symm.trans hreturn)
  obtain ⟨last, layout'', hlast, hkeeps', hnext⟩ := hreturned.yield_idle hnone
  obtain rfl : last = next := Except.ok.inj (hlast.symm.trans hyield)
  have hboth := hkeeps.trans hkeeps'
  refine ⟨⟨layout'', hnext⟩, (killed_descends hprocesses hnextThread).trans hboth.descends, ?_⟩
  rw [hboth.processes, hprocesses, update_self]

theorem step_exit (hresting : Resting kernel layout) (hcurrent : kernel.current = some (number, .kernel))
    (hreaching : Reaching kernel .exit) (hperform : kernel.perform .exit = .ok next) :
    Continues kernel .exit next := by
  obtain ⟨pid, hpid, hat⟩ := hresting.current_phase hcurrent
  obtain ⟨process, hprocess⟩ := hresting.process_exists hat rfl
  have hkills : Op.exit.kills? kernel = some pid := Kernel.kills_current hcurrent hpid
  rw [Kernel.perform, Kernel.currentThread_eq hcurrent, ok_bind, Kernel.processOf_eq hpid, ok_bind] at hperform
  obtain ⟨killed, hkill, hrest⟩ := bind_eq_ok.mp hperform
  obtain ⟨returned, hreturn, hyield⟩ := bind_eq_ok.mp hrest
  obtain ⟨hnext, hdescends, hgone⟩ :=
    hresting.step_killer hcurrent hprocess (hreaching pid hkills) hkill hreturn hyield
  refine ⟨hnext, hdescends, fun other hother => ?_⟩
  cases hkills.symm.trans hother
  exact hgone

theorem step_kill (hresting : Resting kernel layout) (hcurrent : kernel.current = some (number, .kernel))
    (hreaching : Reaching kernel (.kill pid)) (hperform : kernel.perform (.kill pid) = .ok next) :
    Continues kernel (.kill pid) next := by
  rw [Kernel.perform, Kernel.currentThread_eq hcurrent, ok_bind] at hperform
  obtain ⟨killed, hkill, hrest⟩ := bind_eq_ok.mp hperform
  obtain ⟨returned, hreturn, hyield⟩ := bind_eq_ok.mp hrest
  cases hprocess : kernel.processes pid with
  | none =>
      rw [Kernel.syscallKill, hprocess] at hkill
      obtain rfl : kernel = killed := Except.ok.inj hkill
      obtain ⟨owner, -, hat⟩ := hresting.current_phase hcurrent
      obtain ⟨phase', returned', -, hreturn', hnone, hkeeps, hsound⟩ :=
        hresting.toSound.returnTwin hcurrent hat
      obtain rfl : returned' = returned := Except.ok.inj (hreturn'.symm.trans hreturn)
      exact continues_yield hsound hnone hkeeps.descends (by simp [Op.kills?, hprocess]) hyield
  | some process =>
      have hkills : (Op.kill pid).kills? kernel = some pid := by simp [Op.kills?, hprocess]
      rw [Kernel.syscallKill, hprocess] at hkill
      obtain ⟨hnext, hdescends, hgone⟩ :=
        hresting.step_killer hcurrent hprocess (hreaching pid hkills) hkill hreturn hyield
      refine ⟨hnext, hdescends, fun other hother => ?_⟩
      cases hkills.symm.trans hother
      exact hgone

/-- One step, of any kind. -/
theorem step (hresting : Resting kernel layout) (hreaching : Reaching kernel op)
    (hstep : system.step kernel op next) : Continues kernel op next := by
  obtain ⟨hpossible, hperform⟩ := hstep
  cases op with
  | syscall => exact hresting.step_syscall hpossible.choose_spec hperform
  | fault => exact hresting.step_fault hpossible.choose_spec hreaching hperform
  | interrupt => exact hresting.step_interrupt hpossible hperform
  | await place =>
      cases hevent : kernel.events (.other place) with
      | none =>
          obtain ⟨number, hcurrent⟩ := hpossible
          rw [Kernel.perform, Kernel.schedulerAwait, Kernel.currentThread_eq hcurrent, ok_bind,
            Kernel.event, hevent] at hperform
          cases hperform
      | some queue => exact hresting.step_await hpossible.choose_spec hevent rfl hperform
  | wait => exact hresting.step_wait hpossible.choose_spec hperform
  | fork => exact hresting.step_fork hpossible.choose_spec hperform
  | thread => exact hresting.step_thread hpossible.choose_spec hperform
  | exit => exact hresting.step_exit hpossible.choose_spec hreaching hperform
  | kill pid => exact hresting.step_kill hpossible.choose_spec hreaching hperform
  | signalret => exact hresting.step_signalret hpossible.choose_spec hperform
  | «return» => exact hresting.step_return hpossible.choose_spec hperform
  | eventInit place =>
      cases hperform
      exact ⟨⟨layout, hresting.of_sound (hresting.toSound.eventInit hpossible) rfl fun _ _ h => h⟩,
        ⟨Nat.le_refl _, fun _ _ _ h => h⟩, fun _ hkills => by cases hkills⟩
  | eventInvoke place => exact hresting.step_event hperform
  | eventFree place =>
      cases hperform
      exact ⟨⟨_, hresting.of_sound (hresting.toSound.eventFree place) rfl fun _ _ h => h⟩,
        ⟨Nat.le_refl _, fun _ _ _ h => h⟩, fun _ hkills => by cases hkills⟩

end Resting

/-! ## Runs -/

theorem boot_resting : Resting bootKernel fun number => if number = 0 then some (0, .user) else none where
  threads := by
    rintro ⟨number, level⟩
    by_cases hzero : number = 0
    · subst hzero
      cases level <;> rfl
    · cases level <;> simp [bootKernel, hzero]
  lined := by
    refine ⟨?_, List.nodup_singleton _, fun _ hcurrent => by cases hcurrent⟩
    rintro ⟨number, level⟩
    by_cases hzero : number = 0
    · cases level <;> simp [bootKernel, Layout.place, Phase.place, hzero]
    · simp [bootKernel, Layout.place, hzero]
  awaited := by
    refine ⟨fun event queue hqueue => ?_, fun event name => ?_⟩
    · simp only [bootKernel] at hqueue
      split at hqueue
      next => exact Option.some.inj hqueue ▸ WaitQueue.sound_empty
      next => cases hqueue
    · refine iff_of_false ?_ ?_
      · rintro ⟨queue, hqueue, hmem⟩
        simp only [bootKernel] at hqueue
        split at hqueue
        next => exact absurd (Option.some.inj hqueue ▸ hmem) List.not_mem_nil
        next => cases hqueue
      · rintro ⟨-, hsleeps⟩
        by_cases hzero : name.1 = 0 <;> simp [Layout.sleeps, Phase.sleeps, hzero] at hsleeps
  owned := by
    refine ⟨fun number pid => ?_, fun pid process hprocess => ?_⟩
    · by_cases hzero : number = 0
      · by_cases hpid : pid = 0
        · simp [bootKernel, Layout.owner, Phase.alive, hzero, hpid]
        · simp [bootKernel, Layout.owner, Phase.alive, hzero, hpid, Ne.symm hpid]
      · simp [bootKernel, Layout.owner, hzero]
    · simp only [bootKernel] at hprocess
      split at hprocess
      next => exact Option.some.inj hprocess ▸ List.nodup_singleton _
      next => cases hprocess
  exits number pid hat := by
    by_cases hzero : number = 0 <;> simp [hzero] at hat
  fresh number hle := if_neg (Nat.ne_of_gt hle)
  unlisted pid hle := if_neg (Nat.ne_of_gt hle)
  children pid process hprocess := by
    simp only [bootKernel] at hprocess ⊢
    split at hprocess
    next hzero => rw [hzero]; rfl
    next => cases hprocess
  unborn pid hle := by
    have hne : pid ≠ 0 := Nat.ne_of_gt hle
    simp [bootKernel, hne]
  current_alive _ hcurrent := by cases hcurrent

theorem resting_inductive : (system.restrict Reaching).Inductive fun kernel => ∃ layout, Resting kernel layout where
  init kernel hinit := by
    obtain rfl : kernel = bootKernel := hinit
    exact ⟨_, boot_resting⟩
  step kernel op next hresting hstep := (hresting.choose_spec.step hstep.1 hstep.2).1

theorem descends_inductive (hresting : ∃ layout, Resting next layout) :
    ((system.restrict Reaching).startAt next).Inductive fun later =>
      (∃ layout, Resting later layout) ∧ Descends next later where
  init later hinit := by
    obtain rfl : later = next := hinit
    exact ⟨hresting, .refl later⟩
  step later op last hinvariant hstep := by
    obtain ⟨⟨layout, hlater⟩, hdescends⟩ := hinvariant
    obtain ⟨hlast, hstep, -⟩ := hlater.step hstep.1 hstep.2
    exact ⟨hlast, hdescends.trans hstep⟩

/-- In the runs all of whose kills find the threads settled, a kill is final: of all the threads
that are resumed at any later time, none has a pointer to the freed process in the state
after the kill, and none is a thread of that process or the twin of one. -/
theorem kills_final (hreach : (system.restrict Reaching).Reachable kernel)
    (hkills : op.kills? kernel = some pid) (hprocess : kernel.processes pid = some process)
    (hstep : (system.restrict Reaching).step kernel op next)
    (hlater : ((system.restrict Reaching).startAt next).Reachable later)
    (hcurrent : later.current = some name) :
    name.1 ∉ process.threads ∧
      ∀ record, next.threads name = some record → record.process ≠ some pid := by
  obtain ⟨layout, hresting⟩ := hreach.invariant resting_inductive
  obtain ⟨hnext, hdescends, hgone⟩ := hresting.step hstep.1 hstep.2
  obtain ⟨⟨layoutLater, hrestingLater⟩, hdescendsLater⟩ := hlater.invariant (descends_inductive hnext)
  obtain ⟨layoutNext, hrestingNext⟩ := hnext
  obtain ⟨owner, howner⟩ := hrestingLater.current_alive name hcurrent
  have hbelongs := hrestingLater.toSound.owner_iff_belongs.mp howner
  have hold (hmem : name.1 ∈ process.threads) : name.1 < kernel.nextThread := by
    obtain ⟨phase, hat, -⟩ := hresting.toSound.member hprocess hmem
    by_contra hle
    rw [hresting.fresh _ (Nat.le_of_not_lt hle)] at hat
    cases hat
  by_cases hlt : name.1 < next.nextThread
  · have hbelongsNext := hdescendsLater.belongs _ _ hlt hbelongs
    have hne : owner ≠ pid := by
      rintro rfl
      obtain ⟨found, hfound, -⟩ := hbelongsNext
      cases (hgone owner hkills).symm.trans hfound
    constructor
    · intro hmem
      have hbefore := hdescends.belongs _ _ (hold hmem) hbelongsNext
      have hboth := (hresting.toSound.owner_iff_belongs.mpr hbefore).symm.trans
        (hresting.toSound.owner_iff_belongs.mpr ⟨process, hprocess, hmem⟩)
      exact hne (Option.some.inj hboth)
    · intro record hrecord
      obtain ⟨phase, hat, halive⟩ :=
        Layout.owner_eq_some.mp (hrestingNext.toSound.owner_iff_belongs.mpr hbelongsNext)
      have hthread := hrestingNext.toSound.thread_eq hat name.2
      rw [← Option.some.inj (hthread.symm.trans hrecord)]
      cases name.2 with
      | user => simp [Phase.record, halive, hne]
      | kernel => simp [Phase.record, hne]
  · constructor
    · exact fun hmem => hlt (Nat.lt_of_lt_of_le (hold hmem) hdescends.nextThread)
    · intro record hrecord
      rw [hrestingNext.threads, hrestingNext.fresh _ (Nat.le_of_not_lt hlt)] at hrecord
      cases hrecord

/-- A step of a run, computed. -/
theorem run_perform {start : Kernel} (hreach : (system.startAt start).Reachable kernel) (op : Op)
    (hpossible : op.Possible kernel) (hperform : kernel.perform op = .ok next) :
    (system.startAt start).Reachable next :=
  hreach.step ⟨hpossible, hperform⟩

theorem run_start {start : Kernel} (_ : (system.startAt start).Reachable kernel) :
    (system.startAt kernel).Reachable kernel :=
  .init rfl

theorem run_perform_reaching (hreach : (system.restrict Reaching).Reachable kernel) (op : Op)
    (hpossible : op.Possible kernel) (hreaching : Reaching kernel op)
    (hperform : kernel.perform op = .ok next) : (system.restrict Reaching).Reachable next :=
  hreach.step ⟨hreaching, hpossible, hperform⟩

/-- The last thread of a process can always end it. -/
theorem reaching_alone (hkills : op.kills? kernel = some pid)
    (hcurrent : kernel.current = some (number, .kernel)) (hprocess : kernel.processes pid = some process)
    (halone : process.threads = [number]) : Reaching kernel op := by
  intro other hother found hfound member hmember user huser hstate
  obtain rfl : pid = other := Option.some.inj (hkills.symm.trans hother)
  obtain rfl : process = found := Option.some.inj (hprocess.symm.trans hfound)
  rw [halone, List.mem_singleton] at hmember
  exact .inl (hmember ▸ hcurrent)

/-- The first process exits, and its child goes on. -/
theorem kills_final_after_exit : ∃ (kernel next : Kernel) (process : Process) (name : Name),
    (system.restrict Reaching).Reachable kernel ∧ (system.restrict Reaching).step kernel .exit next ∧
      kernel.processes 0 = some process ∧ process.threads = [0] ∧ next.current = some name ∧
        name.1 ∉ process.threads ∧
          ∀ record, next.threads name = some record → record.process ≠ some 0 := by
  have hstart := run_perform_reaching (.init rfl) .interrupt nofun nofun rfl
  have hcalls := run_perform_reaching hstart .syscall ⟨0, rfl⟩ nofun rfl
  have hforks := run_perform_reaching hcalls .fork ⟨0, rfl⟩ nofun rfl
  refine ⟨_, _, ⟨0, [0]⟩, (1, .user), hforks, ⟨reaching_alone rfl rfl rfl rfl, ⟨0, rfl⟩, rfl⟩, rfl, rfl,
    rfl, ?_⟩
  exact @kills_final _ _ _ 0 _ ⟨0, [0]⟩ .exit hforks rfl rfl
    ⟨reaching_alone rfl rfl rfl rfl, ⟨0, rfl⟩, rfl⟩ (.init rfl) rfl

/-- A kill while the twin of the only thread of the process sleeps in a system call: when the
event comes, the twin is resumed, with a pointer to the process that is gone. -/
theorem kill_leaves_twin : ∃ (kernel next later : Kernel) (record : Thread),
    system.Reachable kernel ∧ system.step kernel (.kill 1) next ∧
      (system.startAt next).Reachable later ∧ (Op.kill 1).kills? kernel = some 1 ∧
        later.current = some (1, .kernel) ∧ next.threads (1, .kernel) = some record ∧
          record.process = some 1 ∧ next.processes 1 = none := by
  have hboot : (system.startAt bootKernel).Reachable bootKernel := .init rfl
  have hstart := run_perform hboot .interrupt nofun rfl
  have hcalls := run_perform hstart .syscall ⟨0, rfl⟩ rfl
  have hforks := run_perform hcalls .fork ⟨0, rfl⟩ rfl
  have hmakes := run_perform hforks (.eventInit 0) rfl rfl
  have hreturns := run_perform hmakes .return ⟨0, rfl⟩ rfl
  have hchild := run_perform hreturns .syscall ⟨1, rfl⟩ rfl
  have hturn := run_perform hchild .interrupt nofun rfl
  have hsleeps := run_perform hturn (.await 0) ⟨1, rfl⟩ rfl
  have hparent := run_perform hsleeps .syscall ⟨0, rfl⟩ rfl
  have hkilled := run_start (run_perform hparent (.kill 1) ⟨0, rfl⟩ rfl)
  have hwoken := run_perform hkilled (.eventInvoke 0) trivial rfl
  have hresumed := run_perform hwoken .interrupt nofun rfl
  exact ⟨_, _, _, ⟨some 1, .uninterruptableWait, some (.other 0)⟩, hparent, ⟨⟨0, rfl⟩, rfl⟩, hresumed, rfl,
    rfl, rfl, rfl, rfl⟩

end PKernel.Processes
