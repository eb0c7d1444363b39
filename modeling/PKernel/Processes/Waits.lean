import Mathlib.Data.List.Count
import PKernel.Processes.Children

/-! # Terminations and the waits they release

A termination wakes a thread that sleeps in `SYSCALL_WAIT`, or leaves a signal for the next
one to come. A second termination in between finds the signal set already and is lost.
-/

namespace PKernel.Children

open Library Library.Transition
open Function (update update_apply update_eq_self update_of_ne update_self)

/-- The wait calls of a process that were woken and return when they are resumed, and the one
that can return at once because the signal is set. -/
def Kernel.ready (kernel : Kernel) (pid : Nat) : Nat :=
  kernel.threads.count ⟨pid, .woken⟩ + (kernel.childFinished pid).signal.toNat

/-- Each termination of a child of a living process has released one wait, which has returned
or can return without another termination. -/
def Counted (world : World) : Prop :=
  ∀ pid process, world.kernel.processLookup pid = some process →
    world.returned pid + world.kernel.ready pid = world.terminated pid

/-- A process is killed only when its parent has taken the signal of the termination before. -/
def Unsignalled (kernel : Kernel) : Op → Prop
  | .kill pid => ∀ process parent, kernel.processLookup pid = some process →
      kernel.parentOf? process = some parent → (kernel.childFinished parent.id).signal = false
  | _ => True

/-- The kernel with another state of an event. -/
def Kernel.setEvent (kernel : Kernel) (pid : Nat) (queue : WaitQueue Nat) : Kernel :=
  { kernel with childFinished := update kernel.childFinished pid queue }

/-- What a call does from a kernel in order. -/
inductive Turn (kernel : Kernel) : Op → Outcome → Kernel → Prop
  | forks {thread pid : Nat} (hcaller : kernel.caller? thread = some pid) :
      Turn kernel (.fork thread) .nothing (kernel.processCreateFork pid)
  | spawns {thread pid : Nat} (hcaller : kernel.caller? thread = some pid) :
      Turn kernel (.thread thread) .nothing (kernel.processAddThread pid)
  | takes {thread pid : Nat} (hcaller : kernel.caller? thread = some pid)
      (hsignal : (kernel.childFinished pid).signal = true) :
      Turn kernel (.wait thread) (.returned pid)
        (kernel.setEvent pid { kernel.childFinished pid with signal := false })
  | sleeps {thread pid : Nat} (hcaller : kernel.caller? thread = some pid)
      (hsignal : (kernel.childFinished pid).signal = false) :
      Turn kernel (.wait thread) .nothing
        ((kernel.setEvent pid { kernel.childFinished pid with
          waiters := (kernel.childFinished pid).waiters ++ [thread] }).setActivity thread .asleep)
  | returns {thread pid : Nat} (hwoken : kernel.threads[thread]? = some ⟨pid, .woken⟩) :
      Turn kernel (.resume thread) (.returned pid) (kernel.setActivity thread .free)
  | orphaned {pid : Nat} {process : Process} (hprocess : kernel.processLookup pid = some process)
      (hparent : kernel.parentOf? process = none) :
      Turn kernel (.kill pid) .nothing (kernel.unlink process)
  | wakes {pid thread : Nat} {process parent : Process} {rest : List Nat}
      (hprocess : kernel.processLookup pid = some process)
      (hparent : kernel.parentOf? process = some parent)
      (hwaiters : (kernel.childFinished parent.id).waiters = thread :: rest) :
      Turn kernel (.kill pid) (.terminated parent.id)
        (((kernel.unlink process).setEvent parent.id { kernel.childFinished parent.id with
          waiters := rest }).setActivity thread .woken)
  | signals {pid : Nat} {process parent : Process} (hprocess : kernel.processLookup pid = some process)
      (hparent : kernel.parentOf? process = some parent)
      (hwaiters : (kernel.childFinished parent.id).waiters = []) :
      Turn kernel (.kill pid) (.terminated parent.id)
        ((kernel.unlink process).setEvent parent.id ⟨true, []⟩)

variable {world next : World} {kernel : Kernel} {op : Op} {outcome : Outcome} {pid thread : Nat}
  {process parent : Process}

/-! ## The calls -/

namespace Kernel

theorem caller?_eq_some (hcaller : kernel.caller? thread = some pid) :
    kernel.threads[thread]? = some ⟨pid, .free⟩ ∧ ∃ process, kernel.processLookup pid = some process := by
  unfold caller? at hcaller
  split at hcaller
  next owner hthread =>
    obtain ⟨process, hprocess, rfl⟩ := Option.map_eq_some_iff.mp hcaller
    have hid : process.id = owner := by simpa using List.find?_some hprocess
    exact ⟨hid ▸ hthread, process, hid ▸ hprocess⟩
  next => exact absurd hcaller nofun

theorem setActivity_threads {old : Thread} (hthread : kernel.threads[thread]? = some old)
    (activity : Activity) :
    (kernel.setActivity thread activity).threads = kernel.threads.set thread ⟨old.process, activity⟩ := by
  rw [setActivity, List.modify_eq_set_getElem?, hthread]
  rfl

/-- How the number of the woken threads of a process changes with one thread. -/
theorem count_setActivity {owner : Nat} {before : Activity}
    (hthread : kernel.threads[thread]? = some ⟨owner, before⟩) (activity : Activity) (pid : Nat) :
    (kernel.setActivity thread activity).threads.count ⟨pid, .woken⟩ +
        (if owner = pid ∧ before = .woken then 1 else 0) =
      kernel.threads.count ⟨pid, .woken⟩ + if owner = pid ∧ activity = .woken then 1 else 0 := by
  obtain ⟨hlt, hget⟩ := List.getElem?_eq_some_iff.mp hthread
  have hpos : owner = pid ∧ before = .woken → 0 < kernel.threads.count ⟨pid, .woken⟩ := by
    rintro ⟨rfl, rfl⟩
    exact List.count_pos_iff.mpr (hget ▸ List.getElem_mem hlt)
  rw [setActivity_threads hthread, List.count_set hlt, hget]
  simp only [beq_iff_eq, Thread.mk.injEq]
  by_cases hbefore : owner = pid ∧ before = .woken
  · have := hpos hbefore
    rw [if_pos hbefore]
    omega
  · rw [if_neg hbefore]
    omega

end Kernel

theorem Kernel.turn_wait (hcaller : kernel.caller? thread = some pid) :
    Turn kernel (.wait thread)
      (if (kernel.schedulerAwait pid thread).1 then .nothing else .returned pid)
      (kernel.schedulerAwait pid thread).2 := by
  cases hsignal : (kernel.childFinished pid).signal with
  | true =>
      rw [Kernel.schedulerAwait, WaitQueue.await_of_signal hsignal]
      exact .takes hcaller hsignal
  | false =>
      rw [Kernel.schedulerAwait, WaitQueue.await_of_no_signal hsignal]
      exact .sleeps hcaller hsignal

theorem Kernel.turn_kill (hprocess : kernel.processLookup pid = some process) :
    Turn kernel (.kill pid)
      (match kernel.parentOf? process with
        | some parent => .terminated parent.id
        | none => .nothing)
      (kernel.processFree process) := by
  unfold Kernel.processFree
  cases hparent : kernel.parentOf? process with
  | none => exact .orphaned hprocess hparent
  | some parent =>
      have hevent : (kernel.unlink process).childFinished parent.id = kernel.childFinished parent.id := rfl
      simp only [Kernel.eventInvoke, WaitQueue.invoke, hevent]
      cases hwaiters : (kernel.childFinished parent.id).waiters with
      | nil => exact .signals hprocess hparent hwaiters
      | cons thread rest => exact .wakes hprocess hparent hwaiters

theorem Op.turn {after : Kernel} (hperform : kernel.perform op = some (outcome, after)) :
    Turn kernel op outcome after := by
  cases op with
  | fork thread =>
      obtain ⟨pid, hcaller, hrest⟩ := Option.bind_eq_some_iff.mp hperform
      cases hrest
      exact .forks hcaller
  | thread thread =>
      obtain ⟨pid, hcaller, hrest⟩ := Option.bind_eq_some_iff.mp hperform
      cases hrest
      exact .spawns hcaller
  | wait thread =>
      obtain ⟨pid, hcaller, hrest⟩ := Option.bind_eq_some_iff.mp hperform
      cases hrest
      exact kernel.turn_wait hcaller
  | resume thread =>
      simp only [Kernel.perform] at hperform
      split at hperform
      next pid hwoken =>
        cases hperform
        exact .returns hwoken
      next => exact absurd hperform nofun
  | kill pid =>
      obtain ⟨process, hprocess, hrest⟩ := Option.bind_eq_some_iff.mp hperform
      cases hrest
      exact kernel.turn_kill hprocess

/-! ## The events and the threads -/

/-- Who waits for an event sleeps in a wait of its process, and nothing is there yet for the
processes to come. -/
structure Wired (kernel : Kernel) : Prop where
  sound : ∀ pid, (kernel.childFinished pid).Sound
  asleep : ∀ pid thread, thread ∈ (kernel.childFinished pid).waiters →
    kernel.threads[thread]? = some ⟨pid, .asleep⟩
  owned : ∀ record ∈ kernel.threads, record.process < kernel.currentPid
  listed : ∀ process ∈ kernel.processes, process.id < kernel.currentPid
  unused : ∀ pid, kernel.currentPid ≤ pid → kernel.childFinished pid = .empty

namespace Kernel

theorem processLookup_id (hprocess : kernel.processLookup pid = some process) : process.id = pid := by
  simpa using List.find?_some hprocess

theorem processLookup_mem (hprocess : kernel.processLookup pid = some process) :
    process ∈ kernel.processes :=
  List.mem_of_find?_eq_some hprocess

theorem getElem?_setActivity {owner : Nat} {before : Activity}
    (hthread : kernel.threads[thread]? = some ⟨owner, before⟩) (activity : Activity) (other : Nat) :
    (kernel.setActivity thread activity).threads[other]? =
      if other = thread then some ⟨owner, activity⟩ else kernel.threads[other]? := by
  rw [setActivity_threads hthread, List.getElem?_set]
  have hlt := (List.getElem?_eq_some_iff.mp hthread).1
  by_cases hsame : thread = other
  · rw [if_pos hsame, if_pos hlt, if_pos hsame.symm]
  · rw [if_neg hsame, if_neg (Ne.symm hsame)]

end Kernel

namespace Wired

theorem caller_lt (hwired : Wired kernel) (hcaller : kernel.caller? thread = some pid) :
    pid < kernel.currentPid :=
  hwired.owned _ (List.mem_of_getElem? (Kernel.caller?_eq_some hcaller).1)

theorem parent_lt (hwired : Wired kernel) (hparent : kernel.parentOf? process = some parent) :
    parent.id < kernel.currentPid :=
  hwired.listed parent (List.mem_of_mem_filter (Kernel.processLookup_mem hparent))

theorem empty : Wired ⟨[], 0, fun _ => .empty, []⟩ where
  sound _ := WaitQueue.sound_empty
  asleep _ thread hmem := absurd (show thread ∈ [] from hmem) List.not_mem_nil
  owned _ hmem := absurd hmem List.not_mem_nil
  listed _ hmem := absurd hmem List.not_mem_nil
  unused _ _ := rfl

theorem notMem_waiters (hwired : Wired kernel) {activity : Activity}
    (hthread : kernel.threads[thread]? = some ⟨pid, activity⟩) (hactivity : activity ≠ .asleep)
    (other : Nat) : thread ∉ (kernel.childFinished other).waiters := by
  intro hmem
  have hasleep := hthread.symm.trans (hwired.asleep other thread hmem)
  exact hactivity (congrArg Thread.activity (Option.some.inj hasleep))

/-- A thread is added to a process. -/
theorem addThread (hwired : Wired kernel) (hpid : pid < kernel.currentPid) :
    Wired (kernel.processAddThread pid) where
  sound := hwired.sound
  asleep other thread hmem := by
    have hthread := hwired.asleep other thread hmem
    exact List.getElem?_append_left (List.getElem?_eq_some_iff.mp hthread).1 ▸ hthread
  owned record hmem := by
    rcases List.mem_append.mp hmem with hold | hnew
    · exact hwired.owned record hold
    · rw [List.mem_singleton.mp hnew]
      exact hpid
  listed := hwired.listed
  unused := hwired.unused

theorem create (hwired : Wired kernel) (parentId : Nat) : Wired (kernel.processCreate parentId) := by
  have hevents : (kernel.processCreate parentId).childFinished = kernel.childFinished := by
    rw [Kernel.processCreate, ← hwired.unused _ (Nat.le_refl _), update_eq_self]
  constructor
  case sound => rw [hevents]; exact hwired.sound
  case asleep => rw [hevents]; exact hwired.asleep
  case owned => exact fun record hmem => Nat.lt_succ_of_lt (hwired.owned record hmem)
  case listed =>
    intro process hmem
    rcases List.mem_cons.mp hmem with rfl | hold
    · exact Nat.lt_succ_self _
    · exact Nat.lt_succ_of_lt (hwired.listed process hold)
  case unused =>
    intro pid hle
    rw [hevents]
    exact hwired.unused pid (Nat.le_of_succ_le hle)

theorem unlink (hwired : Wired kernel) (process : Process) : Wired (kernel.unlink process) where
  sound := hwired.sound
  asleep := hwired.asleep
  owned := hwired.owned
  listed other hmem := hwired.listed other (List.mem_of_mem_filter hmem)
  unused := hwired.unused

/-- The event of a process changes without new waiters. -/
theorem setEvent (hwired : Wired kernel) (hpid : pid < kernel.currentPid) {queue : WaitQueue Nat}
    (hsound : queue.Sound) (hwaiters : ∀ thread ∈ queue.waiters, thread ∈ (kernel.childFinished pid).waiters) :
    Wired (kernel.setEvent pid queue) where
  sound other := by
    simp only [Kernel.setEvent, update_apply]
    split
    next => exact hsound
    next => exact hwired.sound other
  asleep other thread hmem := by
    simp only [Kernel.setEvent, update_apply] at hmem
    split at hmem
    next hsame => exact hsame ▸ hwired.asleep pid thread (hwaiters thread hmem)
    next => exact hwired.asleep other thread hmem
  owned := hwired.owned
  listed := hwired.listed
  unused other hle := by
    have hne : other ≠ pid := Nat.ne_of_gt (Nat.lt_of_lt_of_le hpid hle)
    exact (update_of_ne hne ..).trans (hwired.unused other hle)

/-- A thread that waits for no event changes what it does. -/
theorem setActivity (hwired : Wired kernel) {before : Activity}
    (hthread : kernel.threads[thread]? = some ⟨pid, before⟩) (activity : Activity)
    (hout : ∀ pid, thread ∉ (kernel.childFinished pid).waiters) :
    Wired (kernel.setActivity thread activity) where
  sound := hwired.sound
  asleep other waiter hmem := by
    rw [Kernel.getElem?_setActivity hthread, if_neg (ne_of_mem_of_not_mem hmem (hout other))]
    exact hwired.asleep other waiter hmem
  owned record hmem := by
    rw [Kernel.setActivity_threads hthread] at hmem
    rcases List.mem_or_eq_of_mem_set hmem with hold | rfl
    · exact hwired.owned record hold
    · exact hwired.owned ⟨pid, before⟩ (List.mem_of_getElem? hthread)
  listed := hwired.listed
  unused := hwired.unused

/-- A thread goes to sleep at the end of the queue of its process. -/
theorem sleep (hwired : Wired kernel) (hthread : kernel.threads[thread]? = some ⟨pid, .free⟩)
    (hsignal : (kernel.childFinished pid).signal = false) :
    Wired ((kernel.setEvent pid { kernel.childFinished pid with
      waiters := (kernel.childFinished pid).waiters ++ [thread] }).setActivity thread .asleep) := by
  have hpid := hwired.owned ⟨pid, .free⟩ (List.mem_of_getElem? hthread)
  have hout := hwired.notMem_waiters hthread nofun
  have hsound := (hwired.sound pid).await (hout pid)
  rw [WaitQueue.await_of_no_signal hsignal] at hsound
  constructor
  case sound =>
    intro other
    simp only [Kernel.setActivity, Kernel.setEvent, update_apply]
    split
    next => exact hsound
    next => exact hwired.sound other
  case asleep =>
    intro other waiter hmem
    refine (Kernel.getElem?_setActivity (by exact hthread) .asleep waiter).trans ?_
    simp only [Kernel.setActivity, Kernel.setEvent, update_apply] at hmem
    split at hmem
    next hsame =>
      rw [List.mem_append, List.mem_singleton] at hmem
      rw [hsame]
      split
      next => rfl
      next hne => exact hwired.asleep pid waiter (hmem.resolve_right hne)
    next =>
      rw [if_neg (ne_of_mem_of_not_mem hmem (hout other))]
      exact hwired.asleep other waiter hmem
  case owned => exact (hwired.setActivity hthread .asleep hout).owned
  case listed => exact hwired.listed
  case unused =>
    intro other hle
    have hne : other ≠ pid := Nat.ne_of_gt (Nat.lt_of_lt_of_le hpid hle)
    exact (update_of_ne hne ..).trans (hwired.unused other hle)

/-- The first waiter of a process is woken. -/
theorem wake (hwired : Wired kernel) {rest : List Nat}
    (hwaiters : (kernel.childFinished pid).waiters = thread :: rest) :
    Wired ((kernel.setEvent pid { kernel.childFinished pid with waiters := rest }).setActivity
      thread .woken) := by
  have hthread := hwired.asleep pid thread (by simp [hwaiters])
  have hpid := hwired.owned ⟨pid, .asleep⟩ (List.mem_of_getElem? hthread)
  have hsound := (hwired.sound pid).invoke
  have hnodup := (hwired.sound pid).nodup
  rw [WaitQueue.invoke, hwaiters] at hsound
  rw [hwaiters, List.nodup_cons] at hnodup
  refine (hwired.setEvent hpid hsound fun waiter hmem => ?_).setActivity (by exact hthread) .woken
    fun other hmem => ?_
  · rw [hwaiters]
    exact List.mem_cons_of_mem _ hmem
  · simp only [Kernel.setEvent, update_apply] at hmem
    split at hmem
    next => exact hnodup.1 hmem
    next hne =>
      have hother := hthread.symm.trans (hwired.asleep other thread hmem)
      exact hne (congrArg Thread.process (Option.some.inj hother)).symm

end Wired

theorem Turn.wired (hwired : Wired kernel) {after : Kernel} (hturn : Turn kernel op outcome after) :
    Wired after := by
  cases hturn with
  | forks hcaller => exact (hwired.create _).addThread (Nat.lt_succ_self _)
  | spawns hcaller => exact hwired.addThread (hwired.caller_lt hcaller)
  | takes hcaller hsignal =>
      refine hwired.setEvent (hwired.caller_lt hcaller) ⟨nofun, (hwired.sound _).nodup⟩ fun _ h => h
  | sleeps hcaller hsignal => exact hwired.sleep (Kernel.caller?_eq_some hcaller).1 hsignal
  | returns hwoken =>
      exact hwired.setActivity hwoken .free (hwired.notMem_waiters hwoken nofun)
  | orphaned => exact hwired.unlink _
  | wakes hprocess hparent hwaiters => exact (hwired.unlink _).wake hwaiters
  | signals hprocess hparent hwaiters =>
      refine (hwired.unlink _).setEvent (hwired.parent_lt hparent) ⟨fun _ => rfl, List.nodup_nil⟩ ?_
      exact fun _ hmem => absurd hmem List.not_mem_nil

/-! ## The counts -/

/-- The wait calls of a process that return with an outcome. -/
def Outcome.returns : Outcome → Nat → Nat
  | .returned owner, pid => if owner = pid then 1 else 0
  | _, _ => 0

/-- The terminations that a process is told of with an outcome. -/
def Outcome.terminates : Outcome → Nat → Nat
  | .terminated parent, pid => if parent = pid then 1 else 0
  | _, _ => 0

theorem World.after_kernel (world : World) (outcome : Outcome) (kernel : Kernel) :
    (world.after outcome kernel).kernel = kernel := by
  cases outcome <;> rfl

theorem World.after_returned (world : World) (outcome : Outcome) (kernel : Kernel) (pid : Nat) :
    (world.after outcome kernel).returned pid = world.returned pid + outcome.returns pid := by
  cases outcome with
  | nothing | terminated => rfl
  | returned owner =>
      simp only [after, Outcome.returns, update_apply, eq_comm]
      split
      next hsame => rw [hsame]
      next => rfl

theorem World.after_terminated (world : World) (outcome : Outcome) (kernel : Kernel) (pid : Nat) :
    (world.after outcome kernel).terminated pid = world.terminated pid + outcome.terminates pid := by
  cases outcome with
  | nothing | returned => rfl
  | terminated parent =>
      simp only [after, Outcome.terminates, update_apply, eq_comm]
      split
      next hsame => rw [hsame]
      next => rfl

namespace Kernel

theorem ready_addThread (kernel : Kernel) (owner pid : Nat) :
    (kernel.processAddThread owner).ready pid = kernel.ready pid := by
  simp [ready, processAddThread]

theorem ready_setEvent (kernel : Kernel) (owner pid : Nat) (queue : WaitQueue Nat) :
    (kernel.setEvent owner queue).ready pid +
        (if owner = pid then (kernel.childFinished owner).signal.toNat else 0) =
      kernel.ready pid + if owner = pid then queue.signal.toNat else 0 := by
  by_cases hsame : owner = pid
  · subst hsame
    simp only [ready, setEvent, update_self, if_true]
    omega
  · simp only [ready, setEvent, update_of_ne (Ne.symm hsame), if_neg hsame]

theorem ready_setEvent_same {owner : Nat} {queue : WaitQueue Nat}
    (hsignal : queue.signal = (kernel.childFinished owner).signal) (pid : Nat) :
    (kernel.setEvent owner queue).ready pid = kernel.ready pid := by
  have hready := kernel.ready_setEvent owner pid queue
  rw [hsignal] at hready
  exact Nat.add_right_cancel hready

/-- How the waits that are ready change with one thread. -/
theorem ready_setActivity {owner : Nat} {before : Activity}
    (hthread : kernel.threads[thread]? = some ⟨owner, before⟩) (activity : Activity) (pid : Nat) :
    (kernel.setActivity thread activity).ready pid + (if owner = pid ∧ before = .woken then 1 else 0) =
      kernel.ready pid + if owner = pid ∧ activity = .woken then 1 else 0 := by
  have hcount := count_setActivity hthread activity pid
  have hevents : (kernel.setActivity thread activity).childFinished = kernel.childFinished := rfl
  rw [ready, ready, hevents]
  omega

end Kernel

theorem Wired.ready_create (hwired : Wired kernel) (parentId pid : Nat) :
    (kernel.processCreate parentId).ready pid = kernel.ready pid := by
  rw [Kernel.ready, Kernel.processCreate, ← hwired.unused _ (Nat.le_refl _), update_eq_self]
  rfl

/-- A termination makes one wait ready, unless it finds the signal set, and a wait that
returns is not ready any more. -/
theorem Turn.ready (hwired : Wired kernel) {after : Kernel} (hturn : Turn kernel op outcome after)
    (hunsignalled : Unsignalled kernel op) (pid : Nat) :
    outcome.returns pid + after.ready pid = kernel.ready pid + outcome.terminates pid := by
  cases hturn with
  | forks hcaller =>
      rw [Kernel.processCreateFork, Kernel.ready_addThread, hwired.ready_create]
      exact Nat.zero_add _
  | spawns hcaller =>
      rw [Kernel.ready_addThread]
      exact Nat.zero_add _
  | @takes thread owner hcaller hsignal =>
      have hready := kernel.ready_setEvent owner pid { kernel.childFinished owner with signal := false }
      rw [hsignal] at hready
      simp only [Bool.toNat_true, Bool.toNat_false, ite_self] at hready
      simp only [Outcome.returns, Outcome.terminates]
      omega
  | @sleeps thread owner hcaller hsignal =>
      generalize hqueue : ({ kernel.childFinished owner with
        waiters := (kernel.childFinished owner).waiters ++ [thread] } : WaitQueue Nat) = queue
      have hevent : (kernel.setEvent owner queue).ready pid = kernel.ready pid :=
        Kernel.ready_setEvent_same (by rw [← hqueue]) pid
      have hthread : (kernel.setEvent owner queue).threads[thread]? = some ⟨owner, .free⟩ :=
        (Kernel.caller?_eq_some hcaller).1
      have hready := Kernel.ready_setActivity hthread .asleep pid
      rw [hevent] at hready
      simpa [Outcome.returns, Outcome.terminates] using hready
  | @returns thread owner hwoken =>
      have hready := Kernel.ready_setActivity hwoken .free pid
      simp only [and_true, reduceCtorEq, and_false, if_false] at hready
      simp only [Outcome.returns, Outcome.terminates]
      omega
  | orphaned => exact Nat.zero_add _
  | @wakes _ thread process parent rest hprocess hparent hwaiters =>
      generalize hqueue : ({ kernel.childFinished parent.id with waiters := rest } : WaitQueue Nat) = queue
      have hevent : ((kernel.unlink process).setEvent parent.id queue).ready pid = kernel.ready pid :=
        @Kernel.ready_setEvent_same (kernel.unlink process) _ _ (by rw [← hqueue]; rfl) pid
      have hthread : ((kernel.unlink process).setEvent parent.id queue).threads[thread]? =
          some ⟨parent.id, .asleep⟩ :=
        hwired.asleep parent.id thread (by simp [hwaiters])
      have hready := Kernel.ready_setActivity hthread .woken pid
      rw [hevent] at hready
      simpa [Outcome.returns, Outcome.terminates] using hready
  | @signals _ process parent hprocess hparent hwaiters =>
      have hsignal := hunsignalled process parent hprocess hparent
      have hevent := (kernel.unlink process).ready_setEvent parent.id pid ⟨true, []⟩
      have hsame : (kernel.unlink process).ready pid = kernel.ready pid := rfl
      have hold : (kernel.unlink process).childFinished parent.id = kernel.childFinished parent.id := rfl
      rw [hsame, hold, hsignal] at hevent
      simp only [Bool.toNat_true, Bool.toNat_false, ite_self] at hevent
      simp only [Outcome.returns, Outcome.terminates]
      omega

/-- A termination that finds the signal set makes no wait ready, and its parent lives on. -/
theorem Turn.lost (hwired : Wired kernel) {after : Kernel} (hturn : Turn kernel op outcome after)
    (hsignalled : ¬Unsignalled kernel op) :
    ∃ parent process, after.processLookup parent = some process ∧ outcome = .terminated parent ∧
      after.ready parent = kernel.ready parent := by
  cases hturn with
  | forks | spawns | takes | sleeps | returns => exact absurd trivial hsignalled
  | orphaned hprocess hparent =>
      refine absurd (fun other parent hother hfound => ?_) hsignalled
      cases hprocess.symm.trans hother
      exact absurd (hparent.symm.trans hfound) nofun
  | @wakes pid thread process parent rest hprocess hparent hwaiters =>
      refine absurd (fun other second hother hfound => ?_) hsignalled
      cases hprocess.symm.trans hother
      cases hparent.symm.trans hfound
      have hwaiter : thread ∈ (kernel.childFinished parent.id).waiters := by simp [hwaiters]
      exact WaitQueue.signal_of_mem (hwired.sound parent.id) hwaiter
  | @signals pid process parent hprocess hparent hwaiters =>
      have hsignal : (kernel.childFinished parent.id).signal = true := by
        by_contra hunset
        refine hsignalled fun other second hother hfound => ?_
        cases hprocess.symm.trans hother
        cases hparent.symm.trans hfound
        exact Bool.eq_false_iff.mpr hunset
      have hid := Kernel.processLookup_id hparent
      exact ⟨parent.id, parent, hid ▸ hparent, rfl,
        @Kernel.ready_setEvent_same (kernel.unlink process) _ _ hsignal.symm _⟩

/-! ## All interleavings -/

/-- `Counted`, also of the processes that are gone or to come. -/
def Balanced (world : World) : Prop :=
  ∀ pid, world.returned pid + world.kernel.ready pid = world.terminated pid

theorem Balanced.after (hwired : Wired world.kernel) (hbalanced : Balanced world) {after : Kernel}
    (hturn : Turn world.kernel op outcome after) (hunsignalled : Unsignalled world.kernel op) :
    Balanced (world.after outcome after) := by
  intro pid
  have hready := hturn.ready hwired hunsignalled pid
  rw [World.after_kernel, World.after_returned, World.after_terminated, ← hbalanced pid]
  omega

theorem Balanced.lost (hwired : Wired world.kernel) (hbalanced : Balanced world) {after : Kernel}
    (hturn : Turn world.kernel op outcome after) (hsignalled : ¬Unsignalled world.kernel op) :
    ¬Counted (world.after outcome after) := by
  obtain ⟨parent, process, hlives, rfl, hready⟩ := hturn.lost hwired hsignalled
  intro hcounted
  have hafter := hcounted parent process (by rwa [World.after_kernel])
  rw [World.after_kernel, World.after_returned, World.after_terminated, hready,
    ← hbalanced parent] at hafter
  simp [Outcome.returns, Outcome.terminates] at hafter

theorem balanced_inductive :
    (system.restrict fun world => Unsignalled world.kernel).Inductive fun world =>
      Wired world.kernel ∧ Balanced world where
  init world hinit := by
    subst hinit
    refine ⟨(Wired.empty.create 0).addThread Nat.zero_lt_one, fun pid => ?_⟩
    have hready : bootKernel.ready pid = 0 := by
      rw [bootKernel, Kernel.ready_addThread, Wired.empty.ready_create]
      rfl
    exact (Nat.zero_add _).trans hready
  step world op next hinvariant hstep := by
    obtain ⟨hwired, hbalanced⟩ := hinvariant
    obtain ⟨hunsignalled, outcome, kernel, hperform, rfl⟩ := hstep
    have hturn := Op.turn hperform
    exact ⟨by rw [World.after_kernel]; exact hturn.wired hwired,
      hbalanced.after hwired hturn hunsignalled⟩

/-- In the runs all of whose terminations find the signal of the parent unset, each one has
released a wait, in every state; the first that finds it set is lost. -/
theorem terminations_counted {world : World}
    (hreach : (system.restrict fun world => Unsignalled world.kernel).Reachable world) :
    Counted world ∧
      ∀ op next, system.step world op next → (Counted next ↔ Unsignalled world.kernel op) := by
  obtain ⟨hwired, hbalanced⟩ := hreach.invariant balanced_inductive
  refine ⟨fun pid _ _ => hbalanced pid, fun op next hstep => ?_⟩
  obtain ⟨outcome, kernel, hperform, rfl⟩ := hstep
  have hturn := Op.turn hperform
  constructor
  · intro hcounted
    by_contra hsignalled
    exact hbalanced.lost hwired hturn hsignalled hcounted
  · intro hunsignalled pid _ _
    exact hbalanced.after hwired hturn hunsignalled pid

/-- A step of a run, computed. -/
theorem reachable_perform (hreach : system.Reachable world) (op : Op) {kernel : Kernel}
    (hperform : world.kernel.perform op = some (outcome, kernel)) :
    system.Reachable (world.after outcome kernel) :=
  hreach.step ⟨outcome, kernel, hperform, rfl⟩

theorem reachable_perform_restrict
    (hreach : (system.restrict fun world => Unsignalled world.kernel).Reachable world) (op : Op)
    {kernel : Kernel} (hunsignalled : Unsignalled world.kernel op)
    (hperform : world.kernel.perform op = some (outcome, kernel)) :
    (system.restrict fun world => Unsignalled world.kernel).Reachable (world.after outcome kernel) :=
  hreach.step ⟨hunsignalled, outcome, kernel, hperform, rfl⟩

/-- A child terminates before the first process waits for it. -/
theorem terminations_counted_after_wait : ∃ world : World, world.terminated 0 = 1 ∧
    world.returned 0 = 1 ∧ Counted world ∧
      ∀ op next, system.step world op next → (Counted next ↔ Unsignalled world.kernel op) := by
  have hforks := reachable_perform_restrict (.init rfl) (.fork 0) trivial rfl
  have hkills := reachable_perform_restrict hforks (.kill 1) (fun process parent hprocess hparent => by
    obtain rfl : (⟨1, 0⟩ : Process) = process := Option.some.inj hprocess
    obtain rfl : (⟨0, 0⟩ : Process) = parent := Option.some.inj hparent
    rfl) rfl
  have hwaits := reachable_perform_restrict hkills (.wait 0) trivial rfl
  exact ⟨_, rfl, rfl, terminations_counted hwaits⟩

/-- Two children terminate before their parent waits: one wait returns, the other sleeps, and
no child is left. -/
theorem terminations_lost : ∃ world process, system.Reachable world ∧
    world.kernel.processLookup 0 = some process ∧ world.terminated 0 = 2 ∧
      world.returned 0 = 1 ∧ world.kernel.ready 0 = 0 ∧ world.kernel.processes = [process] ∧
        world.kernel.threads[0]? = some ⟨0, .asleep⟩ ∧ ¬Counted world := by
  have hforks := reachable_perform (.init rfl) (.fork 0) rfl
  have hsecond := reachable_perform hforks (.fork 0) rfl
  have hkills := reachable_perform hsecond (.kill 1) rfl
  have hlost := reachable_perform hkills (.kill 2) rfl
  have hwaits := reachable_perform hlost (.wait 0) rfl
  have hsleeps := reachable_perform hwaits (.wait 0) rfl
  refine ⟨_, _, hsleeps, rfl, rfl, rfl, rfl, rfl, rfl, fun hcounted => ?_⟩
  exact absurd (hcounted 0 _ rfl) (by decide)

end PKernel.Children
