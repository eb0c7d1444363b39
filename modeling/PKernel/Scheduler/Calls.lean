import PKernel.Scheduler.Placement

/-! # The calls keep the lists in order

From a state in order each call returns, given enough steps, and leaves the lists in order.
-/

namespace PKernel.Scheduling

open Library.LinkedList

variable {lossy : Prop} {memory : Memory} {current current' : Option Nat} {layout : Layout}
  {thread : Nat} {record : Thread}

/-! ## Into a queue -/

/-- The layout with a thread at the end of a queue. -/
def Layout.enqueued (layout : Layout) (priority : ThreadPriority) (thread : Nat) : Layout where
  queue := Function.update layout.queue priority (layout.queue priority ++ [thread])
  waiters := layout.waiters
  spot := Function.update layout.spot thread (.queued priority)

/-- The layout with a thread in a spot that is in no list. -/
def Layout.settled (layout : Layout) (thread : Nat) (spot : Spot) : Layout :=
  { layout with spot := Function.update layout.spot thread spot }

/-- The twin of a thread is in no spot. -/
def Layout.Alone (layout : Layout) (record : Thread) : Prop :=
  ∀ twin, record.twin = some twin → layout.spot twin = .idle

/-- It stays so when a thread leaves its spot. -/
theorem Layout.Alone.leave {layout' : Layout} {fields : Thread} (halone : layout.Alone record)
    (hspots : layout'.spot = Function.update layout.spot thread .idle)
    (htwin : fields.twin = record.twin) : layout'.Alone fields := by
  intro twin hfields
  rw [hspots, Function.update_apply]
  split
  next => rfl
  next => exact halone twin (htwin.symm.trans hfields)

namespace Sound

/-- The twin of a thread in a spot is in none. -/
theorem alone (hsound : Sound lossy memory current layout)
    (hthread : memory.HasThread thread record) (hspot : layout.spot thread ≠ .idle) :
    layout.Alone record := by
  intro twin htwin
  obtain ⟨twin', -, htwin', -, -, -, hidle⟩ := hsound.twins thread record hthread
  obtain rfl : twin = twin' := Option.some.inj (htwin.symm.trans htwin')
  exact hidle.resolve_left hspot

/-- A thread that nothing holds, and whose twin is in no spot, goes to its queue, and so does
the current thread. -/
theorem enqueue (hsound : Sound lossy memory current layout)
    (hthread : memory.HasThread thread record) {state : ThreadState}
    (hstate : state = .running ∨ state = .dead)
    (hspot : (layout.spot thread = .idle ∧ current' = current ∧ layout.Alone record) ∨
      (layout.spot thread = .current ∧ current' = none)) :
    ∃ memory', schedulerQueue thread (memory.put thread fun record => { record with state }) =
        .ok memory' ∧ Sound lossy memory' current' (layout.enqueued record.priority thread) ∧
      ∀ other, other ≠ thread → memory'.thread? other = memory.thread? other := by
  have hnotQueued : ∀ priority, layout.spot thread ≠ .queued priority := by
    rcases hspot with ⟨hspot, -⟩ | ⟨hspot, -⟩ <;> simp [hspot]
  have hnotWaiting : ∀ event waiter, layout.spot thread ≠ .waiting event waiter := by
    rcases hspot with ⟨hspot, -⟩ | ⟨hspot, -⟩ <;> simp [hspot]
  have hwaiter : record.waiter = none := by
    have hfits := hsound.fits thread record hthread
    rcases hspot with ⟨hspot, -⟩ | ⟨hspot, -⟩ <;> rw [hspot] at hfits <;> exact hfits.2
  have hput : (memory.put thread fun record => { record with state }).thread? thread =
      some { record with state } := by
    rw [Memory.thread?_put, if_pos rfl, hthread.2]
    rfl
  obtain ⟨threads, hqueue, hqueues, hvalues, hrest⟩ := schedulerQueue_of_family
    (Memory.family_put hsound.queues) hput hstate (hsound.notMem_queue hthread hnotQueued)
  have hthreads (other : Nat) : { memory with threads }.thread? other =
      if other = thread then (memory.thread? other).map fun record => { record with state }
      else memory.thread? other := by
    refine (hvalues other).trans ((Memory.thread?_put _ other).trans ?_)
    split
    next hsame => rw [hsame]
    next => rfl
  refine ⟨_, hqueue, hsound.relocate hthread (fun record => { record with state }) hqueues
    hsound.lists hthreads rfl ?current ?queued ?waiting ?cursor
    ⟨rfl, hstate, hwaiter⟩ rfl ?alone,
    fun other hother => (hthreads other).trans (if_neg hother)⟩
  case current =>
    rcases hspot with ⟨hidle, rfl, -⟩ | ⟨hcurrent, rfl⟩
    · exact hsound.current_iff_update (by simp [hidle]) nofun
    · exact hsound.current_iff_leave hcurrent nofun
  case queued => exact hsound.queued_iff_push hnotQueued record.priority
  case waiting => exact hsound.waiting_iff_update hnotWaiting nofun
  case cursor =>
    intro other hcurrent cell hcell
    rcases hspot with ⟨hidle, rfl, -⟩ | ⟨-, rfl⟩
    · -- the current thread is another, and in no queue
      have hspot' := (hsound.current_iff other).mp hcurrent
      obtain ⟨fields, hfields⟩ := hsound.placed other (by simp [hspot'])
      have hne : other ≠ thread := by
        rintro rfl
        simp [hidle] at hspot'
      have hkept := (hrest other hne (hsound.notMem_queue hfields (by simp [hspot']))).trans
        (Memory.put_threads_of_ne hne _)
      exact (hsound.cursor other hcurrent cell (hkept.symm.trans hcell)).push record.priority thread
    · simp at hcurrent
  case alone =>
    rcases hspot with ⟨-, -, htwin⟩ | ⟨hcurrent, -⟩
    · exact .inr (.inr htwin)
    · exact .inr (.inl (by simp [hcurrent]))

/-- `thread_run` of a thread in no spot, whose twin is in none. -/
theorem threadRun_idle (hsound : Sound lossy memory current layout)
    (hthread : memory.HasThread thread record) (hspot : layout.spot thread = .idle)
    (halone : layout.Alone record) :
    ∃ memory', threadRun thread memory = .ok memory' ∧
      Sound lossy memory' current (layout.enqueued record.priority thread) ∧
      ∀ other, other ≠ thread → memory'.thread? other = memory.thread? other := by
  have hrunning : record.state ≠ .running := by
    have hfits := hsound.fits thread record hthread
    rw [hspot] at hfits
    rcases hfits.1 with hstate | hstate | hstate | hstate <;> simp [hstate]
  rw [threadRun_eq hthread.2 hrunning]
  exact hsound.enqueue hthread (.inl rfl) (.inl ⟨hspot, rfl, halone⟩)

/-- The current thread goes back to its queue. -/
theorem requeue_ok (hsound : Sound lossy memory current layout) :
    ∃ memory' layout', requeue ⟨memory, current⟩ = .ok memory' ∧
      Sound lossy memory' none layout' := by
  cases current with
  | none => exact ⟨memory, layout, rfl, hsound⟩
  | some thread =>
      have hspot := (hsound.current_iff thread).mp rfl
      obtain ⟨record, hthread⟩ := hsound.placed thread (by simp [hspot])
      have hfits := hsound.fits thread record hthread
      rw [hspot] at hfits
      have henqueue := @enqueue _ _ _ none _ _ _ hsound hthread _ hfits.1
      obtain ⟨memory', hqueue, hsound', -⟩ := henqueue (.inr ⟨hspot, rfl⟩)
      rw [Memory.put_self hthread.2 rfl] at hqueue
      exact ⟨memory', _, hqueue, hsound'⟩

/-- The current thread stops, or waits for its twin. -/
theorem settle (hsound : Sound lossy memory (some thread) layout)
    (hthread : memory.HasThread thread record) {state : ThreadState}
    (hstate : state = .stopped ∨ state = .waiting) :
    Sound lossy (memory.put thread fun record => { record with state }) none
      (layout.settled thread .idle) := by
  have hspot := (hsound.current_iff thread).mp rfl
  have hfits := hsound.fits thread record hthread
  rw [hspot] at hfits
  refine hsound.relocate hthread (fun record => { record with state })
    (Memory.family_put hsound.queues) hsound.lists (Memory.thread?_put_apply _) rfl
    (hsound.current_iff_leave hspot nofun) (hsound.queued_iff_update (by simp [hspot]) nofun)
    (hsound.waiting_iff_update (by simp [hspot]) nofun) nofun ⟨?_, hfits.2⟩ rfl (.inl rfl)
  rcases hstate with hstate | hstate
  · exact .inl hstate
  · exact .inr (.inl hstate)

/-- A thread that is not dead is killed where it is. -/
theorem kill (hsound : Sound lossy memory current layout)
    (hthread : memory.HasThread thread record) (hdead : record.state ≠ .dead) :
    ∃ memory', threadKill thread memory = .ok memory' ∧ Sound lossy memory' current layout := by
  have hreturn : threadKill thread memory =
      .ok (memory.put thread fun record => { record with state := .dead }) := by
    rw [threadKill, Memory.readThread_of_eq hthread.2, ok_bind]
    by_cases hrunning : record.state = .running
    · rw [if_neg (by simp [hrunning]), pure_eq_ok, ok_bind]
      exact Memory.setState_of_eq hthread.2 _
    · rw [if_pos hrunning, schedulerQueue_of_other hthread.2 hrunning hdead, ok_bind]
      exact Memory.setState_of_eq hthread.2 _
  refine ⟨_, hreturn, hsound.relocate hthread (fun record => { record with state := .dead })
    (Memory.family_put hsound.queues) hsound.lists (Memory.thread?_put_apply _)
    (Function.update_eq_self thread layout.spot).symm hsound.current_iff hsound.queued_iff
    hsound.waiting_iff (hsound.cursor_put _ fun _ => rfl) ?_ rfl ?_⟩
  · have hfits := hsound.fits thread record hthread
    cases hspot : layout.spot thread with
    | idle => exact ⟨.inr (.inr (.inl rfl)), (hspot ▸ hfits).2⟩
    | current => exact ⟨.inr rfl, (hspot ▸ hfits).2⟩
    | queued priority => exact ⟨(hspot ▸ hfits).1, .inr rfl, (hspot ▸ hfits).2.2⟩
    | waiting event waiter => exact ⟨.inr (.inr rfl), (hspot ▸ hfits).2⟩
    | dropped => exact ⟨(hspot ▸ hfits).1, .inr rfl, (hspot ▸ hfits).2.2⟩
  · by_cases hspot : layout.spot thread = .idle
    · exact .inl hspot
    · exact .inr (.inl hspot)

end Sound

end PKernel.Scheduling
