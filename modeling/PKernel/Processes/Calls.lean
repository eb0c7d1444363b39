import PKernel.Processes.Standing

/-! # What the calls do to the threads

From a kernel in order each part of a call returns, and the pairs of threads that it concerns
go over into other phases.
-/

namespace PKernel.Processes

open Library Scheduling
open Function (update update_apply update_eq_self_iff update_idem update_of_ne update_self)

variable {kernel next : Kernel} {layout : Layout} {number pid : Nat} {phase : Phase} {name : Name}
  {record : Thread} {event : Event} {queue : WaitQueue Name}

namespace Kernel

/-! ## Each call by itself -/

theorem thread_eq (hthread : kernel.threads name = some record) : kernel.thread name = .ok record := by
  rw [thread, hthread]

theorem currentThread_eq (hcurrent : kernel.current = some name) : kernel.currentThread = .ok name := by
  rw [currentThread, hcurrent]

theorem setState_eq (hthread : kernel.threads name = some record) (state : ThreadState) :
    kernel.setState name state = .ok (kernel.setThread name { record with state }) := by
  rw [setState, thread_eq hthread, ok_bind]
  rfl

@[simp]
theorem setThread_threads (kernel : Kernel) (name : Name) (record : Thread) (other : Name) :
    (kernel.setThread name record).threads other =
      if other = name then some record else kernel.threads other :=
  update_apply ..

theorem setThread_of_ne (hne : name.1 ≠ number) {level : ThreadLevel} :
    (kernel.setThread (number, level) record).threads name = kernel.threads name := by
  rw [setThread_threads, if_neg fun heq => hne (congrArg Prod.fst heq)]

/-- The kernel with a thread at the end of the run queue. -/
def push (kernel : Kernel) (name : Name) : Kernel := { kernel with queue := kernel.queue ++ [name] }

theorem schedulerQueue_eq (hthread : kernel.threads name = some record)
    (hstate : record.state = .running ∨ record.state = .dead) :
    kernel.schedulerQueue name = .ok (kernel.push name) := by
  rw [schedulerQueue, thread_eq hthread, ok_bind, if_pos hstate]
  rfl

theorem threadRun_eq (hthread : kernel.threads name = some record) (hstate : record.state ≠ .running) :
    kernel.threadRun name = .ok ((kernel.setThread name { record with state := .running }).push name) := by
  rw [threadRun, thread_eq hthread, ok_bind, if_pos hstate, setState_eq hthread, ok_bind]
  exact schedulerQueue_eq (setThread_threads .. ▸ if_pos rfl) (.inl rfl)

theorem event_eq (hevent : kernel.events event = some queue) : kernel.event event = .ok queue := by
  rw [Kernel.event, hevent]

theorem setEvent_isSome (hevent : kernel.events event = some queue) (other : WaitQueue Name)
    (second : Event) :
    ((kernel.setEvent event other).events second).isSome = (kernel.events second).isSome := by
  simp only [setEvent, update_apply]
  split
  next hsame => rw [hsame, hevent, Option.isSome_some, Option.isSome_some]
  next => rfl

/-- An invocation without waiters. -/
theorem eventInvoke_signal (hevent : kernel.events event = some queue) (hwaiters : queue.waiters = []) :
    kernel.eventInvoke event = .ok (kernel.setEvent event { queue with signal := true }) := by
  rw [eventInvoke, event_eq hevent, ok_bind, WaitQueue.invoke, hwaiters]
  rfl

/-- An invocation that wakes a thread. -/
theorem eventInvoke_wake (hevent : kernel.events event = some queue) {rest : List Name}
    (hwaiters : queue.waiters = name :: rest) (hthread : kernel.threads name = some record)
    (hstate : record.state ≠ .running) :
    kernel.eventInvoke event = .ok (((kernel.setEvent event { queue with waiters := rest }).setThread
      name { record with state := .running, event := none }).push name) := by
  have hread : (kernel.setEvent event { queue with waiters := rest }).threads name = some record := hthread
  rw [eventInvoke, event_eq hevent, ok_bind, WaitQueue.invoke, hwaiters]
  simp only [thread_eq hread, ok_bind]
  have hcleared := (kernel.setEvent event { queue with waiters := rest }).setThread_threads name
    { record with event := none } name
  rw [if_pos rfl] at hcleared
  rw [threadRun_eq hcleared hstate]
  simp only [setThread, update_idem]

end Kernel

/-- The processes stay as they are. -/
structure Keeps (kernel next : Kernel) : Prop where
  processes : next.processes = kernel.processes
  nextThread : next.nextThread = kernel.nextThread
  currentPid : next.currentPid = kernel.currentPid

theorem Keeps.trans {last : Kernel} (hfirst : Keeps kernel next) (hsecond : Keeps next last) :
    Keeps kernel last :=
  ⟨hsecond.processes.trans hfirst.processes, hsecond.nextThread.trans hfirst.nextThread,
    hsecond.currentPid.trans hfirst.currentPid⟩

namespace Sound

/-! ## Handing over -/

/-- The current thread gives way, and one of its pair gets in line. -/
theorem handOver (hsound : Sound kernel layout) {level level' : ThreadLevel}
    (hcurrent : kernel.current = some (number, level)) (hat : layout number = some (pid, phase))
    (phase' : Phase) (halive : phase'.alive = phase.alive) (hexits : phase' ≠ .exiting)
    (hplace : phase'.place = some level') (hsleeps : phase'.sleeps = phase.sleeps)
    (hpair : ∀ level, next.threads (number, level) = some (phase'.record pid level))
    (hothers : ∀ name, name.1 ≠ number → next.threads name = kernel.threads name)
    (hnext : next = { kernel with
      threads := next.threads, queue := kernel.queue ++ [(number, level')], current := none }) :
    Sound next (update layout number (some (pid, phase'))) := by
  rw [hnext]
  refine hsound.move hat phase' halive hexits hpair hothers ?_ ?_ (fun _ => rfl)
    (.inr ⟨level, hcurrent⟩) rfl rfl rfl
  · have hlined := hsound.lined
    rw [hcurrent] at hlined
    have hpushed := @Lined.push (number, level') _ _ _ hlined.leave (update_self ..)
    rwa [update_idem, ← hplace] at hpushed
  · have hsame : update layout.sleeps number phase'.sleeps = layout.sleeps := by
      rw [update_eq_self_iff, Layout.sleeps_eq hat, hsleeps]
    rw [hsame]
    exact hsound.awaited

/-- The current user thread waits for its twin, which runs. -/
theorem startTwin (hsound : Sound kernel layout) (hcurrent : kernel.current = some (number, .user))
    (hat : layout number = some (pid, .user)) :
    ∃ next, kernel.schedulerStartTwin (number, .user) = .ok next ∧ next.current = none ∧
      Keeps kernel next ∧ Sound next (update layout number (some (pid, .called))) := by
  have huser := hsound.thread_eq hat .user
  have hkernel := hsound.thread_eq hat .kernel
  have htwin : (kernel.setThread (number, .user)
      { Phase.user.record pid .user with state := .waiting }).threads (number, .kernel) =
        some (Phase.user.record pid .kernel) := by
    rw [Kernel.setThread_threads, if_neg nofun, hkernel]
  have hrun := @Kernel.threadRun_eq { kernel.setThread (number, .user)
    { Phase.user.record pid .user with state := .waiting } with current := none } _ _ htwin nofun
  rw [Kernel.schedulerStartTwin, Kernel.setState_eq huser, ok_bind]
  refine ⟨_, hrun, rfl, ⟨rfl, rfl, rfl⟩, hsound.handOver hcurrent hat .called rfl nofun rfl rfl ?_ ?_ rfl⟩
  · intro level
    cases level
    · exact (Kernel.setThread_threads ..).trans ((if_neg nofun).trans (update_self ..))
    · exact (Kernel.setThread_threads ..).trans (if_pos rfl)
  · intro name hne
    exact (Kernel.setThread_of_ne hne).trans (Kernel.setThread_of_ne hne)

/-- The current kernel thread has stopped, and its user thread runs again. -/
theorem runUser (hsound : Sound kernel layout) (hcurrent : kernel.current = some (number, .kernel))
    (hat : layout number = some (pid, .called)) {stopped : Kernel}
    (hstopped : stopped = { kernel.setThread (number, .kernel)
      { Phase.called.record pid .kernel with state := .stopped } with current := none }) :
    ∃ next, stopped.threadRun (number, .user) = .ok next ∧ next.current = none ∧
      Keeps kernel next ∧ Sound next (update layout number (some (pid, .user))) := by
  have huser := hsound.thread_eq hat .user
  have htwin : stopped.threads (number, .user) = some (Phase.called.record pid .user) := by
    rw [hstopped]
    exact (Kernel.setThread_threads ..).trans ((if_neg nofun).trans huser)
  refine ⟨_, Kernel.threadRun_eq htwin nofun, by rw [hstopped]; rfl,
    by rw [hstopped]; exact ⟨rfl, rfl, rfl⟩, ?_⟩
  refine hsound.handOver hcurrent hat .user rfl nofun rfl rfl ?_ ?_ (by rw [hstopped]; rfl)
  · intro level
    cases level
    · exact (Kernel.setThread_threads ..).trans (if_pos rfl)
    · rw [hstopped]
      exact (Kernel.setThread_threads ..).trans ((if_neg nofun).trans (update_self ..))
  · intro name hne
    rw [hstopped]
    exact (Kernel.setThread_of_ne hne).trans (Kernel.setThread_of_ne hne)

/-- The current kernel thread stops, and its user thread runs again or gets in line to be
freed. -/
theorem returnTwin (hsound : Sound kernel layout) (hcurrent : kernel.current = some (number, .kernel))
    (hat : layout number = some (pid, phase)) :
    ∃ phase' next, phase'.alive = phase.alive ∧
      kernel.schedulerReturnTwin (number, .kernel) = .ok next ∧ next.current = none ∧
      Keeps kernel next ∧ Sound next (update layout number (some (pid, phase'))) := by
  have hplace := (hsound.lined.placed _).mp (.inl hcurrent)
  rw [Layout.place_eq hat] at hplace
  have huser := hsound.thread_eq hat .user
  have hkernel := hsound.thread_eq hat .kernel
  generalize hstopped : ({ kernel.setThread (number, .kernel)
    { phase.record pid .kernel with state := .stopped } with current := none } : Kernel) = stopped
  have htwin : stopped.threads (number, .user) = some (phase.record pid .user) := by
    rw [← hstopped]
    exact (Kernel.setThread_threads ..).trans ((if_neg nofun).trans huser)
  rw [Kernel.schedulerReturnTwin, Kernel.setState_eq hkernel, ok_bind]
  simp only [hstopped, Name.twin, Kernel.thread_eq htwin, ok_bind]
  cases phase with
  | called =>
      rw [if_neg nofun]
      obtain ⟨next, hrun, hnone, hnext⟩ := hsound.runUser hcurrent hat hstopped.symm
      exact ⟨.user, next, rfl, hrun, hnone, hnext⟩
  | exiting =>
      have hdead : (Phase.exiting.record pid .user).state = .dead := rfl
      rw [if_pos hdead, Kernel.schedulerQueue_eq htwin (.inr rfl)]
      refine ⟨.dying, _, rfl, rfl, by rw [← hstopped]; rfl, by rw [← hstopped]; exact ⟨rfl, rfl, rfl⟩, ?_⟩
      refine hsound.handOver hcurrent hat .dying rfl nofun rfl rfl ?_ ?_ (by rw [← hstopped]; rfl)
      · intro level
        cases level
        · exact htwin
        · rw [← hstopped]
          exact (Kernel.setThread_threads ..).trans (if_pos rfl)
      · intro name hne
        rw [← hstopped]
        exact Kernel.setThread_of_ne hne
  | user | dying | asleep | stuck | lost => exact absurd hplace nofun

/-! ## Events -/

/-- An event changes without its waiters. -/
theorem setEvent (hsound : Sound kernel layout) (hevent : kernel.events event = some queue)
    {other : WaitQueue Name} (hother : other.Sound) (hwaiters : other.waiters = queue.waiters) :
    Sound (kernel.setEvent event other) layout :=
  { hsound with
    awaited := hsound.awaited.setSignal hevent hother hwaiters
    children := fun pid process hprocess =>
      (Kernel.setEvent_isSome hevent ..).trans (hsound.children pid process hprocess)
    unborn := fun pid hle => (Kernel.setEvent_isSome hevent ..).trans (hsound.unborn pid hle) }

/-- A wait that finds the signal set. -/
theorem await_signal (hsound : Sound kernel layout) (hcurrent : kernel.current = some name)
    (hevent : kernel.events event = some queue) (hsignal : queue.signal = true) :
    kernel.schedulerAwait event = .ok (kernel.setEvent event { queue with signal := false }) ∧
      Sound (kernel.setEvent event { queue with signal := false }) layout := by
  constructor
  · rw [Kernel.schedulerAwait, Kernel.currentThread_eq hcurrent]
    simp only [ok_bind, Kernel.event_eq hevent, WaitQueue.await_of_signal hsignal]
    rfl
  · exact hsound.setEvent hevent ⟨nofun, (hsound.awaited.sound event queue hevent).nodup⟩ rfl

/-- A thread that neither runs nor is dead does not go back to the queue. -/
theorem yield_leave (hcurrent : kernel.current = some name)
    (hthread : kernel.threads name = some record) (hrunning : record.state ≠ .running)
    (hdead : record.state ≠ .dead) :
    kernel.schedulerYield = Kernel.schedulerYield { kernel with current := none } := by
  have hread : ({ kernel with current := none } : Kernel).threads name = some record := hthread
  rw [Kernel.schedulerYield, Kernel.requeue, hcurrent]
  simp only [Kernel.schedulerQueue, Kernel.thread_eq hread, ok_bind]
  rw [if_neg (by simp [hrunning, hdead])]
  rfl

/-- A wait that goes to sleep. -/
theorem await_sleep (hsound : Sound kernel layout) (hcurrent : kernel.current = some (number, .kernel))
    (hat : layout number = some (pid, .called)) (hevent : kernel.events event = some queue)
    (hsignal : queue.signal = false) :
    ∃ next, kernel.schedulerAwait event = next.schedulerYield ∧ next.current = none ∧
      Keeps kernel next ∧ Sound next (update layout number (some (pid, .asleep event))) := by
  have hkernel := hsound.thread_eq hat .kernel
  generalize hslept : (kernel.setEvent event { queue with
    waiters := queue.waiters ++ [(number, .kernel)] }).setThread (number, .kernel)
      { Phase.called.record pid .kernel with state := .uninterruptableWait, event := some event } = slept
  have hawait : kernel.schedulerAwait event = slept.schedulerYield := by
    rw [Kernel.schedulerAwait, Kernel.currentThread_eq hcurrent]
    simp only [ok_bind, Kernel.event_eq hevent, WaitQueue.await_of_no_signal hsignal]
    rw [if_pos trivial, ← hslept]
    have hread : (kernel.setEvent event { queue with
        waiters := queue.waiters ++ [(number, .kernel)] }).threads (number, .kernel) =
          some (Phase.called.record pid .kernel) := hkernel
    rw [Kernel.thread_eq hread, ok_bind]
  have hasleep : slept.threads (number, .kernel) = some ⟨some pid, .uninterruptableWait, some event⟩ := by
    rw [← hslept, Kernel.setThread_threads, if_pos rfl]
    rfl
  have hleft := yield_leave (by rw [← hslept]; exact hcurrent) hasleep nofun nofun
  refine ⟨_, hawait.trans hleft, rfl, by rw [← hslept]; exact ⟨rfl, rfl, rfl⟩, ?_⟩
  refine hsound.move hat (.asleep event) rfl nofun ?pair ?others ?lined ?awaited ?events
    (.inr ⟨_, hcurrent⟩) ?_ ?_ ?_
  all_goals rw [← hslept]
  case pair =>
    intro level
    cases level
    · exact (Kernel.setThread_threads ..).trans ((if_neg nofun).trans (hsound.thread_eq hat .user))
    · exact (Kernel.setThread_threads ..).trans (if_pos rfl)
  case others => exact fun name hne => Kernel.setThread_of_ne hne
  case lined =>
    have hlined := hsound.lined
    rw [hcurrent] at hlined
    exact hlined.leave
  case awaited =>
    refine hsound.awaited.sleep hevent hsignal ?_
    rw [Layout.sleeps_eq hat]
    rfl
  case events => exact Kernel.setEvent_isSome hevent _
  all_goals rfl

/-- An invocation wakes the first waiter. -/
theorem invoke_wake (hsound : Sound kernel layout) (hevent : kernel.events event = some queue)
    {rest : List Name} (hwaiters : queue.waiters = name :: rest) :
    ∃ pid, layout name.1 = some (pid, .asleep event) ∧ name.2 = .kernel ∧
      kernel.eventInvoke event = .ok (((kernel.setEvent event { queue with waiters := rest }).setThread
        name (Phase.called.record pid .kernel)).push name) ∧
      Sound (((kernel.setEvent event { queue with waiters := rest }).setThread
        name (Phase.called.record pid .kernel)).push name)
          (update layout name.1 (some (pid, .called))) := by
  obtain ⟨number, level⟩ := name
  obtain ⟨hlevel, hsleeps⟩ :=
    (hsound.awaited.waits event (number, level)).mp ⟨queue, hevent, by simp [hwaiters]⟩
  obtain rfl : level = .kernel := hlevel
  obtain ⟨⟨pid, phase⟩, hat, hphase⟩ := Option.bind_eq_some_iff.mp hsleeps
  obtain rfl : phase = .asleep event := by
    cases phase with
    | asleep other => exact congrArg Phase.asleep (Option.some.inj hphase)
    | user | called | stuck | dying | exiting | lost => exact absurd hphase nofun
  have hkernel := hsound.thread_eq hat .kernel
  refine ⟨pid, hat, rfl, Kernel.eventInvoke_wake hevent hwaiters hkernel nofun, ?_⟩
  refine hsound.move hat .called rfl nofun ?pair ?others ?lined ?awaited ?events (.inl rfl) rfl rfl
    rfl
  case pair =>
    intro level
    cases level
    · exact (Kernel.setThread_threads ..).trans ((if_neg nofun).trans (hsound.thread_eq hat .user))
    · exact (Kernel.setThread_threads ..).trans (if_pos rfl)
  case others => exact fun name hne => Kernel.setThread_of_ne hne
  case lined =>
    refine @Lined.push (number, .kernel) _ _ _ hsound.lined ?_
    rw [Layout.place_eq hat]
    rfl
  case awaited => exact @Awaited.wake (number, .kernel) _ _ _ _ hsound.awaited hevent _ hwaiters
  case events => exact Kernel.setEvent_isSome hevent _

/-- An event is invoked. -/
theorem invoke (hsound : Sound kernel layout) (hevent : kernel.events event = some queue) :
    ∃ next layout', kernel.eventInvoke event = .ok next ∧ next.current = kernel.current ∧
      Keeps kernel next ∧ Sound next layout' := by
  cases hwaiters : queue.waiters with
  | nil =>
      exact ⟨_, layout, Kernel.eventInvoke_signal hevent hwaiters, rfl, ⟨rfl, rfl, rfl⟩,
        hsound.setEvent hevent ⟨fun _ => hwaiters, (hsound.awaited.sound event queue hevent).nodup⟩ rfl⟩
  | cons name rest =>
      obtain ⟨pid, -, -, hinvoke, hnext⟩ := hsound.invoke_wake hevent hwaiters
      exact ⟨_, _, hinvoke, rfl, ⟨rfl, rfl, rfl⟩, hnext⟩

/-! ## The scheduler -/

theorem threadRelease_eq (hthread : kernel.threads name = some record)
    (hstate : record.state ≠ .uninterruptableWait) :
    kernel.threadRelease name = .ok { kernel with threads := update kernel.threads name none } := by
  rw [Kernel.threadRelease, Kernel.thread_eq hthread, ok_bind, if_neg hstate]
  rfl

/-- The memory of the threads without a pair. -/
def without (threads : Name → Option Thread) (number : Nat) : Name → Option Thread :=
  update (update threads (number, .kernel) none) (number, .user) none

theorem threadFree_eq (huser : kernel.threads (number, .user) = some record)
    (hstate : record.state ≠ .uninterruptableWait) {twin : Thread}
    (hkernel : kernel.threads (number, .kernel) = some twin)
    (htwin : twin.state ≠ .uninterruptableWait) :
    kernel.threadFree (number, .user) = .ok { kernel with threads := without kernel.threads number } := by
  have hne : ((number, .user) : Name) ≠ (number, .kernel) := nofun
  have hrest : update kernel.threads (number, .kernel) none (number, .user) = some record := by
    rw [update_of_ne hne, huser]
  rw [Kernel.threadFree, Name.twin, threadRelease_eq hkernel htwin, ok_bind]
  exact @threadRelease_eq { kernel with
    threads := update kernel.threads (number, .kernel) none } _ _ hrest hstate

/-- A dead user thread at the front of the queue goes away with its twin. -/
theorem free (hsound : Sound kernel layout) {rest : List Name}
    (hqueue : kernel.queue = (number, .user) :: rest) (hcurrent : kernel.current = none)
    (hat : layout number = some (pid, .dying)) :
    Sound { kernel with threads := without kernel.threads number, queue := rest }
      (update layout number none) := by
  have hne : ((number, .kernel) : Name) ≠ (number, .user) := nofun
  have hlined := hsound.lined
  rw [hqueue, hcurrent] at hlined
  constructor
  case threads =>
    rintro ⟨other, level⟩
    by_cases hsame : other = number
    · subst hsame
      rw [update_self]
      cases level
      · exact update_self ..
      · exact (update_of_ne hne ..).trans (update_self ..)
    · rw [update_of_ne hsame, ← hsound.threads (other, level)]
      refine (update_of_ne ?_ ..).trans (update_of_ne ?_ ..)
      all_goals exact fun heq => hsame (congrArg Prod.fst heq)
  case lined =>
    rw [Layout.place_remove]
    exact hcurrent.symm ▸ hlined.drop
  case awaited => exact (Layout.sleeps_remove (Layout.sleeps_eq hat)).symm ▸ hsound.awaited
  case owned => exact (Layout.owner_remove (Layout.owner_eq hat)).symm ▸ hsound.owned
  case exits =>
    intro other owner hother
    by_cases hsame : other = number
    · subst hsame
      rw [update_self] at hother
      exact absurd hother nofun
    · rw [update_of_ne hsame] at hother
      exact hsound.exits other owner hother
  case fresh =>
    intro other hle
    by_cases hsame : other = number
    · subst hsame
      exact update_self ..
    · exact (update_of_ne hsame ..).trans (hsound.fresh other hle)
  case unlisted => exact hsound.unlisted
  case children => exact hsound.children
  case unborn => exact hsound.unborn

/-- A thread that runs is picked from the front of the queue. -/
theorem resume (hsound : Sound kernel layout) {rest : List Name} (hqueue : kernel.queue = name :: rest)
    (hcurrent : kernel.current = none) (hat : layout name.1 = some (pid, phase))
    (halive : phase.alive = true) :
    Resting { kernel with queue := rest, current := some name } layout where
  threads := hsound.threads
  lined := by
    have hlined := hsound.lined
    rw [hqueue, hcurrent] at hlined
    exact hlined.pop
  awaited := hsound.awaited
  owned := hsound.owned
  exits other owner hother := by
    have hexits := hsound.exits other owner hother
    rw [hcurrent] at hexits
    exact absurd hexits nofun
  fresh := hsound.fresh
  unlisted := hsound.unlisted
  children := hsound.children
  unborn := hsound.unborn
  current_alive other hother := by
    rw [← Option.some.inj hother]
    exact ⟨pid, Layout.owner_eq_some.mpr ⟨phase, hat, halive⟩⟩

/-- The loop of the scheduler ends with a thread of a process that lives, or with none. -/
theorem pick (queue : List Name) : ∀ {kernel : Kernel} {layout : Layout}, kernel.current = none →
    Sound { kernel with queue } layout → ∃ next layout', Kernel.pick queue kernel = .ok next ∧
      Keeps kernel next ∧ Resting next layout' := by
  induction queue with
  | nil =>
      intro kernel layout hcurrent hsound
      have hsame : ({ kernel with queue := [] } : Kernel) = { kernel with queue := [], current := none } := by
        rw [← hcurrent]
      exact ⟨_, layout, rfl, ⟨rfl, rfl, rfl⟩, hsame ▸ hsound, nofun⟩
  | cons name rest ih =>
      intro kernel layout hcurrent hsound
      have hplace := (hsound.lined.placed name).mp (.inr List.mem_cons_self)
      obtain ⟨⟨pid, phase⟩, hat, hphase⟩ := Option.bind_eq_some_iff.mp hplace
      have hthread : kernel.threads name = some (phase.record pid name.2) := hsound.thread_eq hat name.2
      rw [Kernel.pick, Kernel.thread_eq hthread, ok_bind]
      obtain ⟨number, level⟩ := name
      cases phase with
      | user =>
          obtain rfl : ThreadLevel.user = level := Option.some.inj hphase
          exact ⟨_, layout, rfl, ⟨rfl, rfl, rfl⟩, hsound.resume rfl hcurrent hat rfl⟩
      | called =>
          obtain rfl : ThreadLevel.kernel = level := Option.some.inj hphase
          exact ⟨_, layout, rfl, ⟨rfl, rfl, rfl⟩, hsound.resume rfl hcurrent hat rfl⟩
      | dying =>
          obtain rfl : ThreadLevel.user = level := Option.some.inj hphase
          have htwin : kernel.threads (number, .kernel) = some (Phase.dying.record pid .kernel) :=
            hsound.thread_eq hat .kernel
          obtain ⟨next, layout', hpick, hkeeps, hnext⟩ :=
            @ih { kernel with threads := without kernel.threads number } _ hcurrent
              (hsound.free rfl hcurrent hat)
          refine ⟨next, layout', ?_, ⟨hkeeps.processes, hkeeps.nextThread, hkeeps.currentPid⟩, hnext⟩
          change (kernel.threadFree (number, .user) >>= Kernel.pick rest) = .ok next
          rw [threadFree_eq hthread nofun htwin nofun, ok_bind, hpick]
      | exiting => 
          have hexits := hsound.exits number pid hat
          rw [hcurrent] at hexits
          exact absurd hexits nofun
      | asleep | stuck | lost => exact absurd hphase nofun

theorem record_accepted (hplace : phase.place = some name.2) :
    (phase.record pid name.2).state = .running ∨ (phase.record pid name.2).state = .dead := by
  obtain ⟨number, level⟩ := name
  cases phase with
  | user | dying =>
      obtain rfl : ThreadLevel.user = level := Option.some.inj hplace
      simp [Phase.record, Phase.userState]
  | called | exiting =>
      obtain rfl : ThreadLevel.kernel = level := Option.some.inj hplace
      simp [Phase.record, Phase.kernelState]
  | asleep | stuck | lost => exact absurd hplace nofun

/-- `scheduler_yield`, unless the current thread is to return to a dead one. -/
theorem yield (hsound : Sound kernel layout) (hexits : ∀ number pid, layout number ≠ some (pid, .exiting)) :
    ∃ next layout', kernel.schedulerYield = .ok next ∧ Keeps kernel next ∧ Resting next layout' := by
  cases hcurrent : kernel.current with
  | none =>
      obtain ⟨next, layout', hpick, hkeeps, hnext⟩ := pick kernel.queue hcurrent hsound
      refine ⟨next, layout', ?_, hkeeps, hnext⟩
      rw [Kernel.schedulerYield, Kernel.requeue, hcurrent]
      exact hpick
  | some name =>
      have hplace := (hsound.lined.placed name).mp (.inl hcurrent)
      obtain ⟨⟨pid, phase⟩, hat, hphase⟩ := Option.bind_eq_some_iff.mp hplace
      have hthread : ({ kernel with current := none } : Kernel).threads name =
          some (phase.record pid name.2) := hsound.thread_eq hat name.2
      have hlined := hsound.lined
      rw [hcurrent] at hlined
      have hqueued : Sound (Kernel.push { kernel with current := none } name) layout :=
        { hsound with
          lined := hlined.requeue
          exits := fun number pid hother => absurd hother (hexits number pid) }
      obtain ⟨next, layout', hpick, hkeeps, hnext⟩ :=
        @pick (kernel.queue ++ [name]) (Kernel.push { kernel with current := none } name) layout rfl hqueued
      refine ⟨next, layout', ?_, ⟨hkeeps.processes, hkeeps.nextThread, hkeeps.currentPid⟩, hnext⟩
      rw [Kernel.schedulerYield, Kernel.requeue, hcurrent]
      simp only [Kernel.schedulerQueue_eq hthread (record_accepted hphase), ok_bind]
      exact hpick

/-- `scheduler_yield` without a current thread. -/
theorem yield_idle (hsound : Sound kernel layout) (hcurrent : kernel.current = none) :
    ∃ next layout', kernel.schedulerYield = .ok next ∧ Keeps kernel next ∧ Resting next layout' := by
  refine hsound.yield fun number pid hat => ?_
  have hexits := hsound.exits number pid hat
  rw [hcurrent] at hexits
  exact absurd hexits nofun

/-- `syscall_signalret` lets the user thread run again. -/
theorem signalret (hsound : Sound kernel layout) (hcurrent : kernel.current = some (number, .kernel))
    (hat : layout number = some (pid, .called)) :
    ∃ running next, kernel.syscallSignalret (number, .kernel) = .ok running ∧
      running.schedulerYield = next.schedulerYield ∧ next.current = none ∧ Keeps kernel next ∧
      Sound next (update layout number (some (pid, .user))) := by
  have huser := hsound.thread_eq hat .user
  have hkernel := hsound.thread_eq hat .kernel
  obtain ⟨process, hprocess, -⟩ :=
    (hsound.owned.owner_iff number pid).mp (Layout.owner_eq_some.mpr ⟨_, hat, rfl⟩)
  generalize hstopped : kernel.setThread (number, .kernel)
    { Phase.called.record pid .kernel with state := .stopped } = stopped
  have hkernelStopped : stopped.threads (number, .kernel) = some (Phase.user.record pid .kernel) := by
    rw [← hstopped]
    exact (Kernel.setThread_threads ..).trans (if_pos rfl)
  have huserStopped : stopped.threads (number, .user) = some (Phase.called.record pid .user) := by
    rw [← hstopped]
    exact (Kernel.setThread_threads ..).trans ((if_neg nofun).trans huser)
  generalize hrunning : (stopped.setThread (number, .user)
    { Phase.called.record pid .user with state := .running }).push (number, .user) = running
  have hreturn : kernel.syscallSignalret (number, .kernel) = .ok running := by
    have hpid : kernel.processOf (number, .user) = .ok pid := by
      rw [Kernel.processOf, Kernel.thread_eq huser]
      rfl
    rw [Kernel.syscallSignalret, Name.twin, hpid, ok_bind, Kernel.process, hprocess, ok_bind,
      Kernel.setState_eq hkernel, ok_bind, hstopped, ← hrunning]
    exact Kernel.threadRun_eq huserStopped nofun
  have hkernelRunning : running.threads (number, .kernel) = some (Phase.user.record pid .kernel) := by
    rw [← hrunning]
    exact (Kernel.setThread_threads ..).trans ((if_neg nofun).trans hkernelStopped)
  have hleft := yield_leave (by rw [← hrunning, ← hstopped]; exact hcurrent) hkernelRunning nofun nofun
  refine ⟨running, _, hreturn, hleft, rfl, by rw [← hrunning, ← hstopped]; exact ⟨rfl, rfl, rfl⟩, ?_⟩
  refine hsound.handOver hcurrent hat .user rfl nofun rfl rfl ?_ ?_ (by rw [← hrunning, ← hstopped]; rfl)
  · intro level
    cases level
    · rw [← hrunning]
      exact (Kernel.setThread_threads ..).trans (if_pos rfl)
    · exact hkernelRunning
  · intro name hne
    rw [← hrunning, ← hstopped]
    exact (Kernel.setThread_of_ne hne).trans (Kernel.setThread_of_ne hne)

end Sound

end PKernel.Processes
