import PKernel.Processes.Kernel

/-! # Where the threads stand

A user thread and its twin are in one of a few phases together. The phase tells which of the
two is in the run queue or current, for what the twin waits, and whether their process lives;
the lists, the events and the processes agree with it.
-/

namespace PKernel.Processes

open Library Scheduling
open Function (update update_of_ne update_self)

/-- What a user thread and its twin do. -/
inductive Phase where
  /-- The user thread runs, and its twin is stopped. -/
  | user
  /-- The twin runs a system call. -/
  | called
  /-- The twin sleeps in a system call. -/
  | asleep (event : Event)
  /-- The twin sleeps for an event that was freed. -/
  | stuck (event : Event)
  /-- The user thread is dead and in the run queue. -/
  | dying
  /-- The user thread is dead, and its twin is about to return to it. -/
  | exiting
  /-- The user thread is dead, and its twin sleeps for an event that was freed. -/
  | lost (event : Event)
deriving DecidableEq

namespace Phase

/-- The process lives. -/
def alive : Phase → Bool
  | .user | .called | .asleep _ | .stuck _ => true
  | .dying | .exiting | .lost _ => false

/-- Which of the two is in the run queue or current. -/
def place : Phase → Option ThreadLevel
  | .user | .dying => some .user
  | .called | .exiting => some .kernel
  | .asleep _ | .stuck _ | .lost _ => none

/-- The event in whose list the twin is. -/
def sleeps : Phase → Option Event
  | .asleep event => some event
  | _ => none

def userState : Phase → ThreadState
  | .user => .running
  | .called | .asleep _ | .stuck _ => .waiting
  | .dying | .exiting | .lost _ => .dead

def kernelState : Phase → ThreadState
  | .user | .dying => .stopped
  | .called | .exiting => .running
  | .asleep _ | .stuck _ | .lost _ => .uninterruptableWait

/-- The `event` of the twin. -/
def event : Phase → Option Event
  | .asleep event | .stuck event | .lost event => some event
  | .user | .called | .dying | .exiting => none

/-- The two threads in memory. Nothing clears the pointer of a twin to its process. -/
def record (phase : Phase) (pid : Nat) : ThreadLevel → Thread
  | .user => ⟨if phase.alive then some pid else none, phase.userState, none⟩
  | .kernel => ⟨some pid, phase.kernelState, phase.event⟩

end Phase

/-- The phase of each pair of threads, with the id of the process it was made for. -/
abbrev Layout := Nat → Option (Nat × Phase)

namespace Layout

def place (layout : Layout) (number : Nat) : Option ThreadLevel :=
  (layout number).bind fun entry => entry.2.place

def sleeps (layout : Layout) (number : Nat) : Option Event :=
  (layout number).bind fun entry => entry.2.sleeps

/-- The process of a pair of threads while it lives. -/
def owner (layout : Layout) (number : Nat) : Option Nat :=
  (layout number).bind fun entry => if entry.2.alive then some entry.1 else none

variable {layout : Layout} {number pid : Nat} {phase : Phase}

theorem place_eq (hat : layout number = some (pid, phase)) : layout.place number = phase.place := by
  rw [place, hat]
  rfl

theorem sleeps_eq (hat : layout number = some (pid, phase)) : layout.sleeps number = phase.sleeps := by
  rw [sleeps, hat]
  rfl

theorem owner_eq (hat : layout number = some (pid, phase)) :
    layout.owner number = if phase.alive then some pid else none := by
  rw [owner, hat]
  rfl

theorem owner_eq_some : layout.owner number = some pid ↔
    ∃ phase, layout number = some (pid, phase) ∧ phase.alive = true := by
  constructor
  · intro howner
    obtain ⟨⟨other, phase⟩, hat, halive⟩ := Option.bind_eq_some_iff.mp howner
    dsimp only at halive
    split at halive
    next htrue => exact ⟨phase, (Option.some.inj halive) ▸ hat, htrue⟩
    next => exact absurd halive nofun
  · rintro ⟨phase, hat, halive⟩
    rw [owner_eq hat, if_pos halive]

theorem place_update (layout : Layout) (number pid : Nat) (phase : Phase) :
    place (update layout number (some (pid, phase))) =
      update layout.place number phase.place := by
  funext other
  by_cases hsame : other = number
  · subst hsame
    simp [place]
  · simp [place, hsame]

theorem sleeps_update (layout : Layout) (number pid : Nat) (phase : Phase) :
    sleeps (update layout number (some (pid, phase))) =
      update layout.sleeps number phase.sleeps := by
  funext other
  by_cases hsame : other = number
  · subst hsame
    simp [sleeps]
  · simp [sleeps, hsame]

theorem owner_set (layout : Layout) (number pid : Nat) (phase : Phase) :
    owner (update layout number (some (pid, phase))) =
      update layout.owner number (if phase.alive then some pid else none) := by
  funext other
  by_cases hsame : other = number
  · subst hsame
    simp [owner]
  · simp [owner, hsame]

/-- A pair that nobody owns and that sleeps for nothing goes away. -/
theorem place_remove (layout : Layout) (number : Nat) :
    place (update layout number none) = update layout.place number none := by
  funext other
  by_cases hsame : other = number
  · subst hsame
    simp [place]
  · simp [place, hsame]

theorem sleeps_remove (hsleeps : layout.sleeps number = none) :
    sleeps (update layout number none) = layout.sleeps := by
  funext other
  by_cases hsame : other = number
  · subst hsame
    rw [hsleeps, sleeps, update_self]
    rfl
  · simp [sleeps, hsame]

theorem owner_remove (howner : layout.owner number = none) :
    owner (update layout number none) = layout.owner := by
  funext other
  by_cases hsame : other = number
  · subst hsame
    rw [howner, owner, update_self]
    rfl
  · simp [owner, hsame]

/-- A pair that goes on for its process keeps it. -/
theorem owner_update (hat : layout number = some (pid, phase)) {phase' : Phase}
    (halive : phase'.alive = phase.alive) :
    owner (update layout number (some (pid, phase'))) = layout.owner := by
  funext other
  by_cases hsame : other = number
  · subst hsame
    rw [owner_eq hat, owner, update_self, Option.bind_some, halive]
  · simp [owner, hsame]

end Layout

/-! ## The lists and the phases -/

/-- Who is in the run queue or current, once. -/
structure Lined (queue : List Name) (current : Option Name) (place : Nat → Option ThreadLevel) :
    Prop where
  placed : ∀ name, (current = some name ∨ name ∈ queue) ↔ place name.1 = some name.2
  nodup : queue.Nodup
  notMem : ∀ name, current = some name → name ∉ queue

/-- Who waits for which event. -/
structure Awaited (events : Event → Option (WaitQueue Name)) (sleeps : Nat → Option Event) : Prop where
  sound : ∀ event queue, events event = some queue → queue.Sound
  waits : ∀ event name, (∃ queue, events event = some queue ∧ name ∈ queue.waiters) ↔
    name.2 = .kernel ∧ sleeps name.1 = some event

/-- Which threads a process has. -/
structure Owned (processes : Nat → Option Process) (owner : Nat → Option Nat) : Prop where
  owner_iff : ∀ number pid, owner number = some pid ↔
    ∃ process, processes pid = some process ∧ number ∈ process.threads
  nodup : ∀ pid process, processes pid = some process → process.threads.Nodup

/-- The kernel is as the phases say. -/
structure Sound (kernel : Kernel) (layout : Layout) : Prop where
  threads : ∀ name, kernel.threads name =
    (layout name.1).map fun entry => entry.2.record entry.1 name.2
  lined : Lined kernel.queue kernel.current layout.place
  awaited : Awaited kernel.events layout.sleeps
  owned : Owned kernel.processes layout.owner
  /-- Only the current thread is about to return to a dead one. -/
  exits : ∀ number pid, layout number = some (pid, .exiting) → kernel.current = some (number, .kernel)
  fresh : ∀ number, kernel.nextThread ≤ number → layout number = none
  unlisted : ∀ pid, kernel.currentPid ≤ pid → kernel.processes pid = none
  children : ∀ pid process, kernel.processes pid = some process →
    (kernel.events (.childFinished pid)).isSome = true
  unborn : ∀ pid, kernel.currentPid ≤ pid → (kernel.events (.childFinished pid)).isSome = false

/-- Between two steps the current thread belongs to a process that lives. -/
structure Resting (kernel : Kernel) (layout : Layout) : Prop extends Sound kernel layout where
  current_alive : ∀ name, kernel.current = some name → ∃ pid, layout.owner name.1 = some pid

variable {kernel next : Kernel} {layout : Layout} {number pid : Nat} {phase : Phase} {name : Name}
  {event : Event}

namespace Lined

variable {queue : List Name} {current : Option Name} {place : Nat → Option ThreadLevel}

/-- The current thread goes to the end of the queue. -/
theorem requeue (hlined : Lined queue (some name) place) : Lined (queue ++ [name]) none place where
  placed other := by
    rw [← hlined.placed other]
    simp [or_comm, eq_comm]
  nodup := hlined.nodup.append (List.nodup_singleton _) (by simpa using hlined.notMem name rfl)
  notMem _ := nofun

/-- A pair none of which is in the queue gets a place at its end. -/
theorem push (hlined : Lined queue current place) (hplace : place name.1 = none) :
    Lined (queue ++ [name]) current (update place name.1 (some name.2)) := by
  have hout (level : ThreadLevel) : ¬(current = some (name.1, level) ∨ (name.1, level) ∈ queue) := by
    rw [hlined.placed]
    simp [hplace]
  constructor
  case placed =>
    intro other
    by_cases hsame : other.1 = name.1
    · have hother := hout other.2
      rw [← hsame, not_or] at hother
      rw [hsame, update_self]
      simp only [hother.1, List.mem_append, List.mem_singleton, false_or, Option.some.injEq]
      rw [or_iff_right hother.2, Prod.ext_iff, and_iff_right hsame, eq_comm]
    · rw [update_of_ne hsame, ← hlined.placed other, List.mem_append, List.mem_singleton,
        or_iff_left (b := other = name) fun heq => hsame (congrArg Prod.fst heq)]
  case nodup =>
    exact hlined.nodup.append (List.nodup_singleton _) (by simpa using (not_or.mp (hout name.2)).2)
  case notMem =>
    intro other hother hmem
    rcases List.mem_append.mp hmem with hold | hnew
    · exact hlined.notMem other hother hold
    · rw [List.mem_singleton.mp hnew] at hother
      exact hout name.2 (.inl hother)

/-- The current thread leaves the core. -/
theorem leave (hlined : Lined queue (some name) place) :
    Lined queue none (update place name.1 none) where
  placed other := by
    by_cases hsame : other.1 = name.1
    · rw [hsame, update_self]
      have hplace := (hlined.placed name).mp (.inl rfl)
      refine iff_of_false (fun hplaced => ?_) nofun
      have hmem := hplaced.resolve_left nofun
      have hother := (hlined.placed other).mp (.inr hmem)
      rw [hsame, hplace, Option.some.injEq] at hother
      exact hlined.notMem name rfl ((Prod.ext hsame hother.symm : other = name) ▸ hmem)
    · rw [update_of_ne hsame, ← hlined.placed other]
      refine or_congr_left (iff_of_false nofun fun heq => hsame ?_)
      rw [Option.some.inj heq]
  nodup := hlined.nodup
  notMem _ := nofun

/-- The first of the queue becomes the current thread. -/
theorem pop (hlined : Lined (name :: queue) none place) : Lined queue (some name) place where
  placed other := by
    rw [← hlined.placed other]
    simp [eq_comm]
  nodup := hlined.nodup.of_cons
  notMem other heq hmem := by
    rw [Option.some.inj heq] at hlined
    exact (List.nodup_cons.mp hlined.nodup).1 hmem

/-- The first of the queue goes away. -/
theorem drop (hlined : Lined (name :: queue) none place) :
    Lined queue none (update place name.1 none) :=
  hlined.pop.leave

end Lined

namespace Awaited

variable {events : Event → Option (WaitQueue Name)} {sleeps : Nat → Option Event}
  {queue : WaitQueue Name}

/-- An event changes without its waiters. -/
theorem setSignal (hawaited : Awaited events sleeps) (hqueue : events event = some queue)
    {other : WaitQueue Name} (hsound : other.Sound) (hwaiters : other.waiters = queue.waiters) :
    Awaited (update events event (some other)) sleeps where
  sound second found hfound := by
    by_cases hsame : second = event
    · subst hsame
      rw [update_self] at hfound
      exact Option.some.inj hfound ▸ hsound
    · rw [update_of_ne hsame] at hfound
      exact hawaited.sound second found hfound
  waits second waiter := by
    rw [← hawaited.waits second waiter]
    by_cases hsame : second = event
    · subst hsame
      simp [hqueue, hwaiters]
    · rw [update_of_ne hsame]

/-- A thread that sleeps for nothing goes to sleep. -/
theorem sleep (hawaited : Awaited events sleeps) (hqueue : events event = some queue)
    (hsignal : queue.signal = false) (hawake : sleeps number = none) :
    Awaited (update events event (some { queue with
      waiters := queue.waiters ++ [(number, .kernel)] }))
      (update sleeps number (some event)) where
  sound second found hfound := by
    by_cases hsame : second = event
    · subst hsame
      rw [update_self, Option.some.injEq] at hfound
      have hnotMem : (number, ThreadLevel.kernel) ∉ queue.waiters := fun hmem => by
        have hsleeps := ((hawaited.waits second _).mp ⟨queue, hqueue, hmem⟩).2
        rw [hawake] at hsleeps
        exact absurd hsleeps nofun
      have hsound := (hawaited.sound second queue hqueue).await hnotMem
      rw [WaitQueue.await_of_no_signal hsignal] at hsound
      exact hfound ▸ hsound
    · rw [update_of_ne hsame] at hfound
      exact hawaited.sound second found hfound
  waits second waiter := by
    have hold := hawaited.waits second waiter
    by_cases hnumber : waiter.1 = number
    · rw [hnumber, update_self]
      rw [hnumber, hawake] at hold
      by_cases hsame : second = event
      · subst hsame
        simp only [hqueue, Option.some.injEq, exists_eq_left', reduceCtorEq, and_false, iff_false] at hold
        simp [hold, Prod.ext_iff, hnumber]
      · rw [update_of_ne hsame, hold]
        simp [Ne.symm hsame]
    · rw [update_of_ne hnumber, ← hold]
      by_cases hsame : second = event
      · subst hsame
        simp [hqueue, Prod.ext_iff, hnumber]
      · rw [update_of_ne hsame]

/-- The first waiter is taken off the list. -/
theorem wake (hawaited : Awaited events sleeps) (hqueue : events event = some queue)
    {rest : List Name} (hwaiters : queue.waiters = name :: rest) :
    Awaited (update events event (some { queue with waiters := rest }))
      (update sleeps name.1 none) := by
  have hsound := hawaited.sound event queue hqueue
  have hnodup := hsound.nodup
  rw [hwaiters, List.nodup_cons] at hnodup
  have hname := (hawaited.waits event name).mp ⟨queue, hqueue, by simp [hwaiters]⟩
  constructor
  case sound =>
    intro second found hfound
    by_cases hsame : second = event
    · subst hsame
      rw [update_self, Option.some.injEq] at hfound
      have hinvoke := hsound.invoke
      rw [WaitQueue.invoke, hwaiters] at hinvoke
      exact hfound ▸ hinvoke
    · rw [update_of_ne hsame] at hfound
      exact hawaited.sound second found hfound
  case waits =>
    intro second waiter
    have hold := hawaited.waits second waiter
    by_cases hnumber : waiter.1 = name.1
    · rw [hnumber, update_self]
      rw [hnumber, hname.2] at hold
      refine iff_of_false ?_ nofun
      rintro ⟨found, hfound, hmem⟩
      by_cases hsame : second = event
      · subst hsame
        rw [update_self, Option.some.injEq] at hfound
        rw [← hfound] at hmem
        have hkernel := (hold.mp ⟨queue, hqueue, by simp [hwaiters, hmem]⟩).1
        exact hnodup.1 ((Prod.ext hnumber (hkernel.trans hname.1.symm) : waiter = name) ▸ hmem)
      · rw [update_of_ne hsame] at hfound
        exact hsame (Option.some.inj (hold.mp ⟨found, hfound, hmem⟩).2).symm
    · rw [update_of_ne hnumber, ← hold]
      by_cases hsame : second = event
      · subst hsame
        have hne : waiter ≠ name := fun heq => hnumber (congrArg Prod.fst heq)
        simp [hqueue, hwaiters, hne]
      · rw [update_of_ne hsame]

end Awaited

namespace Sound

/-- One pair of threads goes over into another phase. -/
theorem move (hsound : Sound kernel layout) (hat : layout number = some (pid, phase)) (phase' : Phase)
    (halive : phase'.alive = phase.alive) (hexits : phase' ≠ .exiting)
    (hpair : ∀ level, next.threads (number, level) = some (phase'.record pid level))
    (hothers : ∀ name, name.1 ≠ number → next.threads name = kernel.threads name)
    (hlined : Lined next.queue next.current (update layout.place number phase'.place))
    (hawaited : Awaited next.events (update layout.sleeps number phase'.sleeps))
    (hevents : ∀ event, (next.events event).isSome = (kernel.events event).isSome)
    (hcurrent : next.current = kernel.current ∨ ∃ level, kernel.current = some (number, level))
    (hprocesses : next.processes = kernel.processes) (hnextThread : next.nextThread = kernel.nextThread)
    (hcurrentPid : next.currentPid = kernel.currentPid) :
    Sound next (update layout number (some (pid, phase'))) where
  threads name := by
    by_cases hsame : name.1 = number
    · subst hsame
      rw [update_self]
      exact hpair name.2
    · rw [update_of_ne hsame, hothers name hsame]
      exact hsound.threads name
  lined := by rw [Layout.place_update]; exact hlined
  awaited := by rw [Layout.sleeps_update]; exact hawaited
  owned := by rw [Layout.owner_update hat halive, hprocesses]; exact hsound.owned
  exits other owner hother := by
    by_cases hsame : other = number
    · rw [hsame, update_self, Option.some.injEq, Prod.mk.injEq] at hother
      exact absurd hother.2 hexits
    · rw [update_of_ne hsame] at hother
      have hold := hsound.exits other owner hother
      rcases hcurrent with hkept | ⟨level, hleft⟩
      · rw [hkept, hold]
      · rw [hleft, Option.some.injEq, Prod.mk.injEq] at hold
        exact absurd hold.1.symm hsame
  fresh other hle := by
    rw [hnextThread] at hle
    have hnone := hsound.fresh other hle
    have hne : other ≠ number := fun hsame => by simp [← hsame, hnone] at hat
    rw [update_of_ne hne, hnone]
  unlisted other hle := by rw [hprocesses]; exact hsound.unlisted other (hcurrentPid ▸ hle)
  children other process hprocess := by
    rw [hprocesses] at hprocess
    rw [hevents]
    exact hsound.children other process hprocess
  unborn other hle := by rw [hevents]; exact hsound.unborn other (hcurrentPid ▸ hle)

theorem thread_eq (hsound : Sound kernel layout) (hat : layout number = some (pid, phase))
    (level : ThreadLevel) : kernel.threads (number, level) = some (phase.record pid level) := by
  rw [hsound.threads, hat]
  rfl

end Sound

end PKernel.Processes
