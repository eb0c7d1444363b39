import PKernel.Processes.Lifetimes

/-! # A killed process

`process_kill` clears the pointers of the user threads to their process and leaves those of
their twins. The kill is final when every thread is where it reaches both.
-/

namespace PKernel.Processes

open Library Library.Transition Scheduling
open Function (update update_apply update_comm update_idem update_of_ne update_self)

variable {kernel next : Kernel} {layout : Layout} {number pid : Nat} {phase : Phase} {name : Name}
  {event : Event} {queue : WaitQueue Name} {process : Process} {record : Thread}

/-- No thread of the process is in a system call, except for the one that kills it, those that
sleep until a child terminates, and those that sleep for an event that was freed. -/
def Settled (kernel : Kernel) (pid : Nat) : Prop :=
  ∀ process, kernel.processes pid = some process → ∀ number ∈ process.threads,
    ∀ user, kernel.threads (number, .user) = some user → user.state = .waiting →
      kernel.current = some (number, .kernel) ∨
        ∃ twin event, kernel.threads (number, .kernel) = some twin ∧
          twin.state = .uninterruptableWait ∧ twin.event = some event ∧
            (event = .childFinished pid ∨ kernel.events event = none)

/-- The phase of a pair after its process is killed. -/
def Phase.killed : Phase → Phase
  | .user => .dying
  | .called => .exiting
  | .asleep event | .stuck event => .lost event
  | phase => phase

/-- The layout after a process is killed and its event is freed. -/
def Layout.buried (layout : Layout) (pid : Nat) : Layout := fun number =>
  (layout number).map fun entry =>
    (entry.1, if entry.1 = pid then entry.2.killed else entry.2.freed (.childFinished pid))

namespace Phase

theorem killed_place (phase : Phase) : phase.killed.place = phase.place := by
  cases phase <;> rfl

theorem killed_alive (phase : Phase) : phase.killed.alive = false := by
  cases phase <;> rfl

theorem killed_sleeps (phase : Phase) : phase.killed.sleeps = none := by
  cases phase <;> rfl

theorem killed_kernel (phase : Phase) (pid : Nat) : phase.killed.record pid .kernel = phase.record pid .kernel := by
  cases phase <;> rfl

theorem killed_user (phase : Phase) (pid : Nat) : phase.killed.record pid .user = ⟨none, .dead, none⟩ := by
  cases phase <;> rfl

theorem killed_of_dead (halive : phase.alive = false) : phase.killed = phase := by
  cases phase with
  | user | called | asleep | stuck => exact absurd halive nofun
  | dying | exiting | lost => rfl

end Phase

namespace Layout

theorem buried_place (layout : Layout) (pid : Nat) : (layout.buried pid).place = layout.place := by
  funext number
  cases hat : layout number with
  | none => simp [place, buried, hat]
  | some entry =>
      simp only [place, buried, hat, Option.map_some, Option.bind_some]
      split
      next => exact entry.2.killed_place
      next => exact entry.2.freed_place _

theorem buried_owner (layout : Layout) (pid : Nat) :
    (layout.buried pid).owner = fun number =>
      if layout.owner number = some pid then none else layout.owner number := by
  funext number
  cases hat : layout number with
  | none => simp [owner, buried, hat]
  | some entry =>
      simp only [owner, buried, hat, Option.map_some, Option.bind_some]
      by_cases hsame : entry.1 = pid
      · rw [if_pos hsame, Phase.killed_alive, hsame]
        simp
      · have hother : (if entry.2.alive = true then some entry.1 else none) ≠ some pid := by
          split <;> simp [hsame]
        rw [if_neg hsame, Phase.freed_alive, if_neg hother]

end Layout

namespace Kernel

/-- What the loops over the threads of a killed process do to memory. -/
def killed (kernel : Kernel) (numbers : List Nat) : Kernel :=
  { kernel with
    threads := fun name =>
      if name.2 = .user ∧ name.1 ∈ numbers then
        (kernel.threads name).map fun record => { record with process := none, state := .dead }
      else kernel.threads name }

/-- The kernel without a process whose threads were killed, and without its event. -/
def buried (kernel : Kernel) (pid : Nat) (numbers : List Nat) : Kernel :=
  { kernel.killed numbers with
    processes := update kernel.processes pid none
    events := update kernel.events (.childFinished pid) none }

theorem killed_nil (kernel : Kernel) : kernel.killed [] = kernel := by
  simp [killed]

theorem killed_cons (kernel : Kernel) {numbers : List Nat} (hnumber : number ∉ numbers) :
    (kernel.killed [number]).killed numbers = kernel.killed (number :: numbers) := by
  unfold killed
  congr 1
  funext name
  by_cases huser : name.2 = .user
  · by_cases hsame : name.1 = number
    · simp [huser, hsame, hnumber]
    · simp [huser, hsame]
  · simp [huser]

theorem killed_idem (kernel : Kernel) (numbers : List Nat) :
    (kernel.killed numbers).killed numbers = kernel.killed numbers := by
  unfold killed
  congr 1
  funext name
  dsimp only
  split
  next => rw [Option.map_map]; rfl
  next => rfl

/-- The loops leave the twins alone. -/
theorem killed_setThread (kernel : Kernel) (hname : name.2 = .kernel) (record : Thread) (numbers : List Nat) :
    (kernel.setThread name record).killed numbers = (kernel.killed numbers).setThread name record := by
  unfold killed setThread
  congr 1
  funext other
  by_cases hsame : other = name
  · subst hsame
    simp [hname]
  · simp only [update_of_ne hsame]

theorem eventFree_setEvent {freed : Event} (hne : event ≠ freed) :
    (kernel.setEvent event queue).eventFree freed = (kernel.eventFree freed).setEvent event queue := by
  unfold eventFree setEvent
  simp only [update_comm hne]

theorem killed_one (hthread : kernel.threads (number, .user) = some record) :
    kernel.killed [number] = kernel.setThread (number, .user) { record with process := none, state := .dead } := by
  unfold killed setThread
  congr 1
  funext name
  by_cases hsame : name = (number, .user)
  · subst hsame
    simp [hthread]
  · rw [update_of_ne hsame, if_neg]
    simpa [Prod.ext_iff, and_comm] using hsame

/-- A thread that is not dead dies where it is. -/
theorem threadKill_eq (hthread : kernel.threads name = some record) (hdead : record.state ≠ .dead) :
    kernel.threadKill name = .ok (kernel.setThread name { record with state := .dead }) := by
  rw [threadKill, thread_eq hthread, ok_bind]
  by_cases hrunning : record.state = .running
  · rw [if_neg (by simp [hrunning]), pure_eq_ok, ok_bind]
    exact setState_eq hthread _
  · have hqueue : kernel.schedulerQueue name = .ok kernel := by
      rw [schedulerQueue, thread_eq hthread, ok_bind, if_neg (by simp [hrunning, hdead])]
      rfl
    rw [if_pos hrunning, hqueue, ok_bind]
    exact setState_eq hthread _

theorem killed_of_ne {other : Nat} (hne : other ≠ number) (level : ThreadLevel) :
    (kernel.killed [number]).threads (other, level) = kernel.threads (other, level) := by
  simp [killed, hne]

theorem killThreads_eq (numbers : List Nat) : ∀ {kernel : Kernel}, numbers.Nodup →
    (∀ number ∈ numbers, ∃ record, kernel.threads (number, .user) = some record ∧
      record.state ≠ .dead) → killThreads numbers kernel = .ok (kernel.killed numbers) := by
  induction numbers with
  | nil =>
      intro kernel _ _
      rw [killed_nil]
      rfl
  | cons number rest ih =>
      intro kernel hnodup hthreads
      obtain ⟨hnumber, hrest⟩ := List.nodup_cons.mp hnodup
      obtain ⟨record, hthread, hdead⟩ := hthreads number List.mem_cons_self
      have hcleared := kernel.setThread_threads (number, .user) { record with process := none } (number, .user)
      rw [if_pos rfl] at hcleared
      have htwice : (kernel.setThread (number, .user) { record with process := none }).setThread
          (number, .user) { record with process := none, state := .dead } = kernel.killed [number] := by
        rw [killed_one hthread]
        simp only [setThread, update_idem]
      rw [killThreads, thread_eq hthread, ok_bind]
      simp only [threadKill_eq hcleared hdead, ok_bind, htwice]
      rw [ih hrest fun other hmem => ?_, killed_cons kernel hnumber]
      rw [killed_of_ne (ne_of_mem_of_not_mem hmem hnumber)]
      exact hthreads other (List.mem_cons_of_mem _ hmem)

theorem clearThreads_eq (numbers : List Nat) : ∀ {kernel : Kernel}, numbers.Nodup →
    (∀ number ∈ numbers, ∃ record, kernel.threads (number, .user) = some record) →
      clearThreads numbers kernel = .ok (kernel.killed numbers) := by
  induction numbers with
  | nil =>
      intro kernel _ _
      rw [killed_nil]
      rfl
  | cons number rest ih =>
      intro kernel hnodup hthreads
      obtain ⟨hnumber, hrest⟩ := List.nodup_cons.mp hnodup
      obtain ⟨record, hthread⟩ := hthreads number List.mem_cons_self
      rw [clearThreads, thread_eq hthread, ok_bind, ← killed_one hthread,
        ih hrest fun other hmem => ?_, killed_cons kernel hnumber]
      rw [killed_of_ne (ne_of_mem_of_not_mem hmem hnumber)]
      exact hthreads other (List.mem_cons_of_mem _ hmem)

end Kernel

namespace Sound

/-- A thread of a living process. -/
theorem member (hsound : Sound kernel layout) (hprocess : kernel.processes pid = some process)
    (hnumber : number ∈ process.threads) :
    ∃ phase, layout number = some (pid, phase) ∧ phase.alive = true :=
  Layout.owner_eq_some.mp ((hsound.owned.owner_iff number pid).mpr ⟨process, hprocess, hnumber⟩)

/-- The threads of a living process are those of its phases. -/
theorem mem_threads (hsound : Sound kernel layout) (hprocess : kernel.processes pid = some process)
    (hat : layout number = some (pid, phase)) (halive : phase.alive = true) :
    number ∈ process.threads := by
  obtain ⟨other, hother, hmem⟩ :=
    (hsound.owned.owner_iff number pid).mp (Layout.owner_eq_some.mpr ⟨phase, hat, halive⟩)
  rwa [Option.some.inj (hprocess.symm.trans hother)]

/-- What the condition says of a pair of threads of the killed process. -/
theorem settled_phase (hsound : Sound kernel layout) (hprocess : kernel.processes pid = some process)
    (hsettled : Settled kernel pid) (hat : layout number = some (pid, phase)) :
    (phase = .called → kernel.current = some (number, .kernel)) ∧
      ∀ event, phase = .asleep event → event = .childFinished pid := by
  have huser := hsound.thread_eq hat .user
  have hkernel := hsound.thread_eq hat .kernel
  constructor
  · rintro rfl
    have hmem := hsound.mem_threads hprocess hat rfl
    rcases hsettled process hprocess number hmem _ huser rfl with hcurrent | ⟨twin, event, htwin, hstate, -⟩
    · exact hcurrent
    · rw [← Option.some.inj (hkernel.symm.trans htwin)] at hstate
      exact absurd hstate nofun
  · rintro event rfl
    have hmem := hsound.mem_threads hprocess hat rfl
    rcases hsettled process hprocess number hmem _ huser rfl with
      hcurrent | ⟨twin, other, htwin, -, hother, hevent⟩
    · have hplace := (hsound.lined.placed _).mp (.inl hcurrent)
      rw [Layout.place_eq hat] at hplace
      exact absurd hplace nofun
    · rw [← Option.some.inj (hkernel.symm.trans htwin)] at hother
      obtain rfl : event = other := Option.some.inj hother
      obtain ⟨queue, hqueue, -⟩ := (hsound.awaited.waits event (number, .kernel)).mpr
        ⟨rfl, Layout.sleeps_eq hat⟩
      exact hevent.resolve_right fun hnone => absurd (hqueue.symm.trans hnone) nofun

theorem buried_sleeps (hsound : Sound kernel layout) (hprocess : kernel.processes pid = some process)
    (hsettled : Settled kernel pid) : (layout.buried pid).sleeps = fun number =>
      if layout.sleeps number = some (.childFinished pid) then none else layout.sleeps number := by
  funext number
  cases hat : layout number with
  | none => simp [Layout.sleeps, Layout.buried, hat]
  | some entry =>
      obtain ⟨owner, phase⟩ := entry
      simp only [Layout.sleeps, Layout.buried, hat, Option.map_some, Option.bind_some]
      by_cases hsame : owner = pid
      · rw [if_pos hsame, Phase.killed_sleeps]
        cases phase with
        | asleep event =>
            have hevent := (hsound.settled_phase hprocess hsettled (hsame ▸ hat)).2 event rfl
            rw [hevent]
            exact (if_pos rfl).symm
        | user | called | stuck | dying | exiting | lost => simp [Phase.sleeps]
      · rw [if_neg hsame, Phase.freed_sleeps]

theorem bury (hsound : Sound kernel layout) (hprocess : kernel.processes pid = some process)
    (hsettled : Settled kernel pid) :
    Sound (kernel.buried pid process.threads) (layout.buried pid) where
  threads := by
    rintro ⟨number, level⟩
    have hthread := hsound.threads (number, level)
    simp only [Kernel.buried, Kernel.killed, Layout.buried, hthread]
    cases hat : layout number with
    | none => simp
    | some entry =>
        obtain ⟨owner, phase⟩ := entry
        simp only [Option.map_some]
        by_cases hsame : owner = pid
        · subst hsame
          rw [if_pos rfl]
          cases level with
          | kernel => rw [if_neg (fun hboth => absurd hboth.1 nofun), Phase.killed_kernel]
          | user =>
              rw [Phase.killed_user]
              cases halive : phase.alive with
              | true => exact if_pos ⟨rfl, hsound.mem_threads hprocess hat halive⟩
              | false =>
                  have hdead : phase.record owner .user = ⟨none, .dead, none⟩ := by
                    rw [← Phase.killed_of_dead halive, Phase.killed_user]
                  rw [hdead]
                  exact ite_self _
        · rw [if_neg hsame, Phase.freed_record, if_neg]
          rintro ⟨-, hmem⟩
          obtain ⟨other, hother, -⟩ := hsound.member hprocess hmem
          exact hsame (congrArg Prod.fst (Option.some.inj (hat.symm.trans hother)))
  lined := (Layout.buried_place ..).symm ▸ hsound.lined
  awaited := (hsound.buried_sleeps hprocess hsettled).symm ▸ hsound.awaited.free _
  owned := (Layout.buried_owner ..).symm ▸ hsound.owned.remove pid
  exits number owner hat := by
    obtain ⟨⟨other, phase⟩, hold, hentry⟩ := Option.map_eq_some_iff.mp hat
    obtain ⟨rfl, hphase⟩ := Prod.mk.inj hentry
    split at hphase
    next hsame =>
      cases phase with
      | called => exact (hsound.settled_phase hprocess hsettled (hsame ▸ hold)).1 rfl
      | exiting => exact hsound.exits number _ hold
      | user | asleep | stuck | dying | lost => exact absurd hphase nofun
    next =>
      obtain rfl := Phase.eq_exiting_of_freed hphase
      exact hsound.exits number _ hold
  fresh number hle := by rw [Layout.buried, hsound.fresh number hle]; rfl
  unlisted other hle := by
    simp only [Kernel.buried, update_apply]
    split
    next => rfl
    next => exact hsound.unlisted other hle
  children other found hfound := by
    simp only [Kernel.buried, update_apply, Event.childFinished.injEq] at hfound ⊢
    split at hfound
    next => exact absurd hfound nofun
    next hne =>
      rw [if_neg hne]
      exact hsound.children other found hfound
  unborn other hle := by
    simp only [Kernel.buried, update_apply]
    split
    next => rfl
    next => exact hsound.unborn other hle

/-- The user threads of a living process can be killed. -/
theorem killable (hsound : Sound kernel layout) (hprocess : kernel.processes pid = some process) :
    ∀ number ∈ process.threads, ∃ record, kernel.threads (number, .user) = some record ∧
      record.state ≠ .dead := by
  intro number hmem
  obtain ⟨phase, hat, halive⟩ := hsound.member hprocess hmem
  refine ⟨_, hsound.thread_eq hat .user, ?_⟩
  cases phase with
  | user | called | asleep | stuck => exact nofun
  | dying | exiting | lost => exact absurd halive nofun

end Sound

/-- The end of `process_free`, when the user threads are dead already. -/
theorem Kernel.clear_free {numbers : List Nat} (hnodup : numbers.Nodup)
    (hkilled : kernel.killed numbers = kernel)
    (hthreads : ∀ number ∈ numbers, ∃ record, kernel.threads (number, .user) = some record) (event : Event) :
    (Kernel.clearThreads numbers kernel >>= fun kernel => (pure (kernel.eventFree event) : Except Fault Kernel)) =
      .ok (kernel.eventFree event) := by
  rw [Kernel.clearThreads_eq numbers hnodup hthreads, hkilled, ok_bind]
  rfl

namespace Kernel

/-- The kernel without a process whose user threads are dead. -/
def unlinked (kernel : Kernel) (pid : Nat) (threads : List Nat) : Kernel :=
  { kernel.killed threads with processes := update kernel.processes pid none }

/-- What `process_free` does for the parent, if there is one. -/
def tellParent (kernel : Kernel) (parent : Nat) : Except Fault Kernel :=
  match kernel.processes parent with
  | some _ => kernel.eventInvoke (.childFinished parent)
  | none => pure kernel

theorem tellParent_of_none {parent : Nat} (hparent : kernel.processes parent = none) :
    kernel.tellParent parent = .ok kernel := by
  rw [tellParent, hparent]
  rfl

theorem tellParent_of_some {parent : Nat} (hparent : kernel.processes parent = some process) :
    kernel.tellParent parent = kernel.eventInvoke (.childFinished parent) := by
  rw [tellParent, hparent]

theorem unlinked_killed (kernel : Kernel) (pid : Nat) (threads : List Nat) :
    (kernel.unlinked pid threads).killed threads = kernel.unlinked pid threads :=
  congrArg (fun other : Kernel => { other with
    processes := update kernel.processes pid none }) (kernel.killed_idem threads)

theorem unlinked_eventFree (kernel : Kernel) (pid : Nat) (threads : List Nat) :
    (kernel.unlinked pid threads).eventFree (.childFinished pid) = kernel.buried pid threads := rfl

/-- `process_kill` of a process whose user threads can be killed. -/
theorem processKill_eq (hprocess : kernel.processes pid = some process)
    (hnodup : process.threads.Nodup)
    (hkillable : ∀ number ∈ process.threads, ∃ record,
      kernel.threads (number, .user) = some record ∧ record.state ≠ .dead) :
    kernel.processKill pid = (do
      let kernel ← (kernel.unlinked pid process.threads).tellParent process.parentId
      let kernel ← clearThreads process.threads kernel
      return kernel.eventFree (.childFinished pid)) := by
  rw [Kernel.processKill, Kernel.process, hprocess, ok_bind,
    Kernel.killThreads_eq process.threads hnodup hkillable, ok_bind, Kernel.processFree, Kernel.process]
  have hsame : (kernel.killed process.threads).processes pid = some process := hprocess
  rw [hsame, ok_bind]
  cases hparent : update (kernel.killed process.threads).processes pid none
      process.parentId with
  | none =>
      rw [tellParent_of_none hparent]
      simp only [hparent, pure_eq_ok, ok_bind]
      rfl
  | some parent =>
      rw [tellParent_of_some hparent]
      simp only [hparent]
      rfl

end Kernel

namespace Sound

/-- A process is killed, its parent is told, and no thread of it is left behind. -/
theorem processKill (hsound : Sound kernel layout) (hprocess : kernel.processes pid = some process)
    (hsettled : Settled kernel pid) :
    ∃ next layout', kernel.processKill pid = .ok next ∧ next.current = kernel.current ∧
      next.nextThread = kernel.nextThread ∧ next.processes = update kernel.processes pid none ∧
      Sound next layout' := by
  have hburied := hsound.bury hprocess hsettled
  have hkillable := hsound.killable hprocess
  have hnodup := hsound.owned.nodup pid process hprocess
  rw [Kernel.processKill_eq hprocess hnodup hkillable]
  have hkilled := kernel.unlinked_killed pid process.threads
  have hfree := kernel.unlinked_eventFree pid process.threads
  generalize hunlinked : kernel.unlinked pid process.threads = unlinked at hkilled hfree ⊢
  have hthreads : ∀ number ∈ process.threads, ∃ record, unlinked.threads (number, .user) = some record := by
    intro number hmem
    obtain ⟨record, hrecord, -⟩ := hkillable number hmem
    rw [← hunlinked]
    simp [Kernel.unlinked, Kernel.killed, hmem, hrecord]
  cases hparent : unlinked.processes process.parentId with
  | none =>
      rw [Kernel.tellParent_of_none hparent, ok_bind]
      have hclear := Kernel.clear_free hnodup hkilled hthreads (.childFinished pid)
      exact ⟨_, _, hclear, hfree ▸ rfl, hfree ▸ rfl, hfree ▸ rfl, hfree ▸ hburied⟩
  | some parent =>
      rw [Kernel.tellParent_of_some hparent]
      have hne : Event.childFinished process.parentId ≠ .childFinished pid := by
        intro heq
        rw [Event.childFinished.inj heq, ← hunlinked] at hparent
        cases (update_self ..).symm.trans hparent
      obtain ⟨queue, hqueue⟩ := Option.isSome_iff_exists.mp
        (hburied.children process.parentId parent (by rw [← hfree]; exact hparent))
      have hevent : unlinked.events (.childFinished process.parentId) = some queue := by
        rw [← hfree] at hqueue
        exact (Kernel.eventFree_of_ne hne).symm.trans hqueue
      cases hwaiters : queue.waiters with
      | nil =>
          have hclear := @Kernel.clear_free (unlinked.setEvent (.childFinished process.parentId)
            { queue with signal := true }) _ hnodup
              (congrArg (fun other : Kernel => other.setEvent (.childFinished process.parentId)
                { queue with signal := true }) hkilled) hthreads (.childFinished pid)
          rw [Kernel.eventFree_setEvent hne, hfree] at hclear
          simp only [Kernel.eventInvoke_signal hevent hwaiters, ok_bind]
          refine ⟨_, _, hclear, rfl, rfl, rfl, hburied.setEvent hqueue ⟨fun _ => hwaiters, ?_⟩ rfl⟩
          exact (hburied.awaited.sound _ queue hqueue).nodup
      | cons name rest =>
          obtain ⟨owner, hat, hlevel, -, hnext⟩ := hburied.invoke_wake hqueue hwaiters
          obtain ⟨waiter, level⟩ := name
          obtain rfl : level = .kernel := hlevel
          have htwin : unlinked.threads (waiter, .kernel) =
              some ((Phase.asleep (.childFinished process.parentId)).record owner .kernel) := by
            have hthread := hburied.thread_eq hat .kernel
            rw [← hfree] at hthread
            exact hthread
          generalize htold : ((unlinked.setEvent (.childFinished process.parentId)
            { queue with waiters := rest }).setThread (waiter, .kernel) (Phase.called.record owner .kernel)).push
              (waiter, .kernel) = told
          have hinvoke : unlinked.eventInvoke (.childFinished process.parentId) = .ok told := by
            rw [← htold]
            exact Kernel.eventInvoke_wake hevent hwaiters htwin (by simp [Phase.record, Phase.kernelState])
          have htoldKilled : told.killed process.threads = told := by
            rw [← htold]
            have hset := Kernel.killed_setThread (unlinked.setEvent (.childFinished process.parentId)
              { queue with waiters := rest }) (show (waiter, ThreadLevel.kernel).2 = .kernel from rfl)
              (Phase.called.record owner .kernel) process.threads
            have hkept := congrArg (fun other : Kernel => (other.setEvent
              (.childFinished process.parentId) { queue with waiters := rest }).setThread (waiter, .kernel)
                (Phase.called.record owner .kernel)) hkilled
            exact congrArg (fun other : Kernel => other.push (waiter, .kernel)) (hset.trans hkept)
          have htoldThreads : ∀ number ∈ process.threads, ∃ record,
              told.threads (number, .user) = some record := by
            intro number hmem
            obtain ⟨record, hrecord⟩ := hthreads number hmem
            rw [← htold]
            exact ⟨record, (Kernel.setThread_threads ..).trans ((if_neg (by simp)).trans hrecord)⟩
          have htoldFree : told.eventFree (.childFinished pid) =
              (((kernel.buried pid process.threads).setEvent (.childFinished process.parentId)
                { queue with waiters := rest }).setThread (waiter, .kernel)
                  (Phase.called.record owner .kernel)).push (waiter, .kernel) := by
            rw [← hfree, ← Kernel.eventFree_setEvent hne, ← htold]
            rfl
          have hclear := Kernel.clear_free hnodup htoldKilled htoldThreads (.childFinished pid)
          rw [htoldFree] at hclear
          simp only [hinvoke, ok_bind]
          exact ⟨_, _, hclear, rfl, rfl, rfl, hnext⟩

end Sound

end PKernel.Processes
