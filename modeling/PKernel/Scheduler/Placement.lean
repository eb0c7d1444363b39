import PKernel.Scheduler.Memory

/-! # Where the threads are

Each thread is in at most one spot: it is current, in one run queue, in the waiter list of
one event, or it was dropped from its queue. Which spots a thread may be in depends on its
state, and of a thread and its twin at most one is in a spot.
-/

namespace PKernel.Scheduling

open Library.LinkedList
open Function (update update_of_ne update_self)

/-- The heads and tails of the run queues are no threads. -/
def sentinel (place : Nat) : Prop := 0 < place ∧ place ≤ 8

theorem sentinel_queueHead (priority : ThreadPriority) : sentinel (queueHead priority) := by
  cases priority <;> simp [sentinel, queueHead]

theorem sentinel_queueTail (priority : ThreadPriority) : sentinel (queueTail priority) := by
  cases priority <;> simp [sentinel, queueTail]

/-- There is a thread with these fields. -/
def Memory.HasThread (memory : Memory) (thread : Nat) (record : Thread) : Prop :=
  ¬ sentinel thread ∧ memory.thread? thread = some record

/-- There is an event. -/
abbrev Memory.HasEvent (memory : Memory) (event : Nat) : Prop := (memory.events event).isSome = true

/-- Where a thread is. -/
inductive Spot where
  | idle
  | current
  | queued (priority : ThreadPriority)
  | waiting (event waiter : Nat)
  | dropped
deriving DecidableEq

/-- The fields that a thread in a spot may have. Threads are dropped only in runs that lose
threads at all. -/
def Spot.Fits (lossy : Prop) : Spot → Thread → Prop
  | .idle, record =>
      (record.state = .stopped ∨ record.state = .waiting ∨ record.state = .dead ∨
        record.state = .interrupted) ∧ record.waiter = none
  | .current, record => (record.state = .running ∨ record.state = .dead) ∧ record.waiter = none
  | .queued priority, record =>
      record.priority = priority ∧ (record.state = .running ∨ record.state = .dead) ∧
        record.waiter = none
  | .waiting _ waiter, record =>
      (record.state = .uninterruptableWait ∨ record.state = .interruptableWait ∨
        record.state = .dead) ∧ record.waiter = some waiter
  | .dropped, record =>
      lossy ∧ (record.state = .running ∨ record.state = .dead) ∧ record.waiter = none

/-- The contents of the lists, and the spots that they give to the threads. -/
structure Layout where
  queue : ThreadPriority → List Nat
  waiters : Nat → List Nat
  spot : Nat → Spot

/-- The pointers of a current thread are those that it had at the head of its queue: the
thread behind it is the first there now, unless it had none. -/
def Cursor (queue : ThreadPriority → List Nat) (cell : Cell Thread) : Prop :=
  cell.prev = queueHead cell.value.priority ∧
    (cell.next = queueTail cell.value.priority ∨
      (queue cell.value.priority).head? = some cell.next)

/-- A thread behind the others of its queue is the first only of an empty queue. -/
theorem Cursor.push {queue : ThreadPriority → List Nat} {cell : Cell Thread}
    (hcursor : Cursor queue cell) (priority : ThreadPriority) (thread : Nat) :
    Cursor (update queue priority (queue priority ++ [thread])) cell := by
  refine ⟨hcursor.1, ?_⟩
  rcases hcursor.2 with hlast | hfirst
  · exact .inl hlast
  · right
    by_cases hsame : cell.value.priority = priority
    · rw [hsame] at hfirst ⊢
      rw [update_self, List.head?_append, hfirst]
      rfl
    · rw [update_of_ne hsame]
      exact hfirst

/-- The lists are in order, and the threads are in spots that fit them. -/
structure Sound (lossy : Prop) (memory : Memory) (current : Option Nat) (layout : Layout) :
    Prop where
  queues : Family memory.threads (fun _ => True) queueHead queueTail layout.queue
  lists : Family memory.waiters memory.HasEvent waiterHead waiterTail layout.waiters
  current_iff : ∀ thread, current = some thread ↔ layout.spot thread = .current
  queued_iff : ∀ priority thread, thread ∈ layout.queue priority ↔
    layout.spot thread = .queued priority
  waiting_iff : ∀ event waiter thread, layout.spot thread = .waiting event waiter ↔
    memory.HasEvent event ∧ waiter ∈ layout.waiters event ∧
      (memory.waiters waiter).map Cell.value = some thread
  cursor : ∀ thread, current = some thread → ∀ cell, memory.threads thread = some cell →
    Cursor layout.queue cell
  placed : ∀ thread, layout.spot thread ≠ .idle → ∃ record, memory.HasThread thread record
  fits : ∀ thread record, memory.HasThread thread record → (layout.spot thread).Fits lossy record
  twins : ∀ thread record, memory.HasThread thread record → ∃ twin other, record.twin = some twin ∧
    memory.HasThread twin other ∧ other.twin = some thread ∧ twin ≠ thread ∧
      (layout.spot thread = .idle ∨ layout.spot twin = .idle)

variable {lossy : Prop} {memory memory' : Memory} {current current' : Option Nat} {layout layout' : Layout}
  {thread : Nat} {record : Thread}

namespace Sound

/-- A thread that is not queued is in no queue. -/
theorem notMem_queue (hsound : Sound lossy memory current layout) (hthread : memory.HasThread thread record)
    (hspot : ∀ priority, layout.spot thread ≠ .queued priority) (priority : ThreadPriority) :
    thread ∉ queueHead priority :: (layout.queue priority ++ [queueTail priority]) := by
  intro hmem
  rw [List.mem_cons, List.mem_append, List.mem_singleton] at hmem
  rcases hmem with rfl | hqueued | rfl
  · exact hthread.1 (sentinel_queueHead priority)
  · exact hspot priority ((hsound.queued_iff priority thread).mp hqueued)
  · exact hthread.1 (sentinel_queueTail priority)

/-- The fields and the spot of one thread change, and with them its place in the lists. -/
theorem relocate (hsound : Sound lossy memory current layout) (hthread : memory.HasThread thread record)
    (change : Thread → Thread) {spot : Spot}
    (hqueues : Family memory'.threads (fun _ => True) queueHead queueTail layout'.queue)
    (hlists : Family memory'.waiters memory'.HasEvent waiterHead waiterTail layout'.waiters)
    (hthreads : ∀ other, memory'.thread? other =
      if other = thread then (memory.thread? other).map change else memory.thread? other)
    (hspots : layout'.spot = update layout.spot thread spot)
    (hcurrent : ∀ other, current' = some other ↔ layout'.spot other = .current)
    (hqueued : ∀ priority other, other ∈ layout'.queue priority ↔
      layout'.spot other = .queued priority)
    (hwaiting : ∀ event waiter other, layout'.spot other = .waiting event waiter ↔
      memory'.HasEvent event ∧ waiter ∈ layout'.waiters event ∧
        (memory'.waiters waiter).map Cell.value = some other)
    (hcursor : ∀ other, current' = some other → ∀ cell, memory'.threads other = some cell →
      Cursor layout'.queue cell)
    (hfits : spot.Fits lossy (change record)) (htwin : (change record).twin = record.twin)
    (halone : spot = .idle ∨ layout.spot thread ≠ .idle ∨
      ∀ twin, record.twin = some twin → layout.spot twin = .idle) :
    Sound lossy memory' current' layout' := by
  have hself : memory'.HasThread thread (change record) := by
    refine ⟨hthread.1, ?_⟩
    rw [hthreads, if_pos rfl, hthread.2]
    rfl
  have hother {other : Nat} {fields : Thread} (hne : other ≠ thread) :
      memory'.HasThread other fields ↔ memory.HasThread other fields := by
    rw [Memory.HasThread, hthreads, if_neg hne, Memory.HasThread]
  have hspotSelf : layout'.spot thread = spot := by rw [hspots, update_self]
  have hspotOther {other : Nat} (hne : other ≠ thread) : layout'.spot other = layout.spot other := by
    rw [hspots, update_of_ne hne]
  constructor
  case queues => exact hqueues
  case lists => exact hlists
  case current_iff => exact hcurrent
  case queued_iff => exact hqueued
  case waiting_iff => exact hwaiting
  case cursor => exact hcursor
  case placed =>
    intro other hplaced
    by_cases hsame : other = thread
    · subst hsame
      exact ⟨_, hself⟩
    · rw [hspotOther hsame] at hplaced
      obtain ⟨fields, hfields⟩ := hsound.placed other hplaced
      exact ⟨fields, (hother hsame).mpr hfields⟩
  case fits =>
    intro other fields hfields
    by_cases hsame : other = thread
    · subst hsame
      obtain rfl : change record = fields := Option.some.inj (hself.2.symm.trans hfields.2)
      rwa [hspotSelf]
    · rw [hspotOther hsame]
      exact hsound.fits other fields ((hother hsame).mp hfields)
  case twins =>
    intro other fields hfields
    by_cases hsame : other = thread
    · subst hsame
      obtain rfl : change record = fields := Option.some.inj (hself.2.symm.trans hfields.2)
      obtain ⟨twin, twinFields, htwinEq, htwinThread, hback, hne, hidle⟩ :=
        hsound.twins other record hthread
      refine ⟨twin, twinFields, htwin.trans htwinEq, (hother hne).mpr htwinThread, hback, hne, ?_⟩
      rw [hspotSelf, hspotOther hne]
      rcases halone with hgone | hplaced | hfree
      · exact .inl hgone
      · exact .inr (hidle.resolve_left hplaced)
      · exact .inr (hfree twin htwinEq)
    · obtain ⟨twin, twinFields, htwinEq, htwinThread, hback, hne, hidle⟩ :=
        hsound.twins other fields ((hother hsame).mp hfields)
      rw [hspotOther hsame]
      by_cases hpartner : twin = thread
      · subst hpartner
        obtain rfl : record = twinFields := Option.some.inj (hthread.2.symm.trans htwinThread.2)
        refine ⟨twin, change record, htwinEq, hself, htwin.trans hback, hne, ?_⟩
        rw [hspotSelf]
        rcases halone with hgone | hplaced | hfree
        · exact .inr hgone
        · exact .inl (hidle.resolve_right hplaced)
        · exact .inl (hfree other hback)
      · refine ⟨twin, twinFields, htwinEq, (hother hpartner).mpr htwinThread, hback, hne, ?_⟩
        rwa [hspotOther hpartner]

/-- What is said of every thread by its spot, after one thread got another spot. -/
theorem spot_update_iff {holds : Nat → Prop} (holds' : Nat → Prop) {spots : Nat → Spot} {spot kind : Spot}
    (hold : ∀ other, holds other ↔ spots other = kind) (hself : holds' thread ↔ spot = kind)
    (hother : ∀ other, other ≠ thread → (holds' other ↔ holds other)) (other : Nat) :
    holds' other ↔ update spots thread spot other = kind := by
  by_cases hsame : other = thread
  · subst hsame
    rw [update_self]
    exact hself
  · rw [update_of_ne hsame, hother other hsame]
    exact hold other

/-- The events and waiters stay, and the thread is in no waiter list before and after. -/
theorem waiting_iff_update (hsound : Sound lossy memory current layout) {spot : Spot}
    (hspot : ∀ event waiter, layout.spot thread ≠ .waiting event waiter)
    (hspot' : ∀ event waiter, spot ≠ .waiting event waiter) (event waiter other : Nat) :
    update layout.spot thread spot other = .waiting event waiter ↔
      memory.HasEvent event ∧ waiter ∈ layout.waiters event ∧
        (memory.waiters waiter).map Cell.value = some other := by
  by_cases hsame : other = thread
  · subst hsame
    rw [update_self, ← hsound.waiting_iff]
    exact iff_of_false (hspot' event waiter) (hspot event waiter)
  · rw [update_of_ne hsame, hsound.waiting_iff]

/-- The queues stay, and the thread is in none before and after. -/
theorem queued_iff_update (hsound : Sound lossy memory current layout) {spot : Spot}
    (hspot : ∀ priority, layout.spot thread ≠ .queued priority)
    (hspot' : ∀ priority, spot ≠ .queued priority) (priority : ThreadPriority) (other : Nat) :
    other ∈ layout.queue priority ↔ update layout.spot thread spot other = .queued priority := by
  refine spot_update_iff (· ∈ layout.queue priority) (hsound.queued_iff priority) ?_
    (fun _ _ => .rfl) other
  rw [hsound.queued_iff]
  exact iff_of_false (hspot priority) (hspot' priority)

/-- The current thread stays, and the thread is not it before and after. -/
theorem current_iff_update (hsound : Sound lossy memory current layout) {spot : Spot}
    (hspot : layout.spot thread ≠ .current) (hspot' : spot ≠ .current) (other : Nat) :
    current = some other ↔ update layout.spot thread spot other = .current := by
  refine spot_update_iff (fun other => current = some other) hsound.current_iff ?_
    (fun _ _ => .rfl) other
  rw [hsound.current_iff]
  exact iff_of_false hspot hspot'

/-- The fields of the current thread but its priority do not matter to its pointers. -/
theorem cursor_put (hsound : Sound lossy memory current layout) (change : Thread → Thread)
    (hpriority : ∀ record, (change record).priority = record.priority) (other : Nat)
    (hcurrent : current = some other) (cell : Cell Thread)
    (hcell : (memory.put thread change).threads other = some cell) : Cursor layout.queue cell := by
  have hold := hsound.cursor other hcurrent
  by_cases hsame : other = thread
  · subst hsame
    rw [Memory.put_threads_self] at hcell
    obtain ⟨before, hbefore, rfl⟩ := Option.map_eq_some_iff.mp hcell
    unfold Cursor at hold ⊢
    simp only [hpriority]
    exact hold before hbefore
  · rw [Memory.put_threads_of_ne hsame] at hcell
    exact hold cell hcell

/-- The thread was the current one, and none is. -/
theorem current_iff_leave (hsound : Sound lossy memory current layout) {spot : Spot}
    (hspot : layout.spot thread = .current) (hspot' : spot ≠ .current) (other : Nat) :
    none = some other ↔ update layout.spot thread spot other = .current := by
  refine spot_update_iff (fun other => none = some other) hsound.current_iff
    (iff_of_false nofun hspot') (fun other hother => ?_) other
  refine iff_of_false nofun fun hcurrent => hother ?_
  rw [(hsound.current_iff thread).mpr hspot] at hcurrent
  exact (Option.some.inj hcurrent).symm

/-- The thread is the last of a queue, and was in none. -/
theorem queued_iff_push (hsound : Sound lossy memory current layout)
    (hspot : ∀ priority, layout.spot thread ≠ .queued priority) (last priority : ThreadPriority)
    (other : Nat) :
    other ∈ update layout.queue last (layout.queue last ++ [thread]) priority ↔
      update layout.spot thread (.queued last) other = .queued priority := by
  by_cases hsame : priority = last
  · subst hsame
    rw [update_self, List.mem_append, List.mem_singleton]
    refine spot_update_iff (fun other => other ∈ layout.queue priority ∨ other = thread)
      (hsound.queued_iff priority) (by simp) (fun other hother => ?_) other
    rw [or_iff_left hother]
  · rw [update_of_ne hsame]
    refine spot_update_iff (· ∈ layout.queue priority) (hsound.queued_iff priority) ?_
      (fun _ _ => .rfl) other
    rw [hsound.queued_iff]
    exact iff_of_false (hspot priority) fun heq => hsame (Spot.queued.inj heq).symm

/-- The thread was the first of a queue, and is in none. -/
theorem queued_iff_pop (hsound : Sound lossy memory current layout) {first priority : ThreadPriority}
    {rest : List Nat} (hqueue : layout.queue first = thread :: rest) {spot : Spot}
    (hspot' : ∀ priority, spot ≠ .queued priority) (other : Nat) :
    other ∈ update layout.queue first rest priority ↔
      update layout.spot thread spot other = .queued priority := by
  have hfirst : layout.spot thread = .queued first :=
    (hsound.queued_iff first thread).mp (by simp [hqueue])
  by_cases hsame : priority = first
  · subst hsame
    rw [update_self]
    refine spot_update_iff (· ∈ rest) (hsound.queued_iff priority) ?_ (fun other hother => ?_) other
    · refine iff_of_false (fun hmem => ?_) (hspot' priority)
      have hnodup := (hsound.queues.strung priority trivial).nodup
      rw [hqueue] at hnodup
      simp only [List.cons_append, List.nodup_cons, List.mem_append] at hnodup
      exact hnodup.2.1 (.inl hmem)
    · rw [hqueue, List.mem_cons, or_iff_right hother]
  · rw [update_of_ne hsame]
    refine spot_update_iff (· ∈ layout.queue priority) (hsound.queued_iff priority) ?_
      (fun _ _ => .rfl) other
    rw [hsound.queued_iff, hfirst]
    exact iff_of_false (fun heq => hsame (Spot.queued.inj heq).symm) (hspot' priority)

end Sound

end PKernel.Scheduling
