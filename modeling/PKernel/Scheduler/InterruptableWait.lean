import PKernel.Scheduler.Yield

/-! # Into an interruptable wait

`scheduler_await_interruptable` takes the current thread out of a queue that it is not in. The
pointers that it follows are old ones: they lead to the head of the queue, and to the thread
that was the second there when the current one was the first.
-/

namespace PKernel.Scheduling

open Library.LinkedList
open Function (update update_comm update_of_ne update_self)

variable {lossy : Prop} {memory : Memory} {current : Option Nat} {layout : Layout}
  {thread event waiter : Nat} {record : Thread} {cell : Cell Thread} {priority : ThreadPriority}

/-- The layout after a queue was emptied. -/
def Layout.cleared (layout : Layout) (priority : ThreadPriority) : Layout where
  queue := update layout.queue priority []
  waiters := layout.waiters
  spot := fun thread => if layout.spot thread = .queued priority then .dropped else layout.spot thread

namespace Sound

theorem hasThread_unlink {left right : Nat} :
    (memory.unlink left right).HasThread thread record ↔ memory.HasThread thread record := by
  rw [Memory.HasThread, Memory.thread?_unlink, Memory.HasThread]

/-- The head and the tail of a queue are made to point at each other: its threads are dropped. -/
theorem clear (hsound : Sound lossy memory none layout) (hlossy : lossy)
    (priority : ThreadPriority) :
    Sound lossy (memory.unlink (queueHead priority) (queueTail priority)) none
      (layout.cleared priority) := by
  have hspot_iff (kind : Spot) (hkind : kind ≠ .dropped) (hkind' : kind ≠ .queued priority)
      (other : Nat) : (layout.cleared priority).spot other = kind ↔ layout.spot other = kind := by
    unfold Layout.cleared
    by_cases hqueued : layout.spot other = .queued priority
    · simp only [hqueued, if_true]
      exact iff_of_false hkind.symm hkind'.symm
    · simp only [hqueued, if_false]
  have hne : queueHead priority ≠ queueTail priority := by cases priority <;> decide
  have hstrung := hsound.queues.strung priority trivial
  have hhead := hstrung.isSome List.mem_cons_self
  have htail := hstrung.isSome (List.mem_cons_of_mem _ (List.mem_append_right _ (List.mem_singleton_self _)))
  have hempty : Strung (memory.unlink (queueHead priority) (queueTail priority)).threads
      (queueHead priority) (queueTail priority) [] := by
    obtain ⟨headCell, hhead⟩ := Option.isSome_iff_exists.mp hhead
    obtain ⟨tailCell, htail⟩ := Option.isSome_iff_exists.mp htail
    refine .nil hne ?_ ?_
    · simp [Memory.unlink, unlinked, update_of_ne hne, hhead]
    · simp [Memory.unlink, unlinked, htail]
  constructor
  case queues =>
    refine hsound.queues.replace trivial hempty (fun _ hmem => absurd hmem List.not_mem_nil)
      fun second _ hsecond place hplace => ?_
    have hout : place ∉ queueHead priority :: (layout.queue priority ++ [queueTail priority]) :=
      fun hmem => hsound.queues.apart second priority trivial trivial hsecond hplace hmem
    simp only [List.mem_cons, List.mem_append, List.not_mem_nil, or_false, not_or] at hout
    simp only [Memory.unlink, unlinked, update_of_ne hout.1, update_of_ne hout.2.2]
  case lists => exact hsound.lists
  case current_iff =>
    intro other
    rw [hspot_iff .current (by simp) (by simp)]
    exact hsound.current_iff other
  case queued_iff =>
    intro second other
    by_cases hsame : second = priority
    · subst hsame
      simp only [Layout.cleared, update_self, List.not_mem_nil, false_iff]
      split
      next => simp
      next hqueued => exact hqueued
    · rw [hspot_iff (.queued second) (by simp) (by simpa using hsame)]
      simp only [Layout.cleared, update_of_ne hsame]
      exact hsound.queued_iff second other
  case waiting_iff =>
    intro event waiter other
    rw [hspot_iff (.waiting event waiter) (by simp) (by simp)]
    exact hsound.waiting_iff event waiter other
  case cursor => exact fun _ hcurrent => by cases hcurrent
  case placed =>
    intro other hspot
    obtain ⟨fields, hfields⟩ := hsound.placed other fun hidle =>
      hspot ((hspot_iff .idle (by simp) (by simp) other).mpr hidle)
    exact ⟨fields, hasThread_unlink.mpr hfields⟩
  case fits =>
    intro other fields hfields
    have hfits := hsound.fits other fields (hasThread_unlink.mp hfields)
    unfold Layout.cleared
    by_cases hqueued : layout.spot other = .queued priority
    · rw [hqueued] at hfits
      simp only [hqueued, if_true]
      exact ⟨hlossy, hfits.2⟩
    · simp only [hqueued, if_false]
      exact hfits
  case twins =>
    intro other fields hfields
    obtain ⟨twin, twinFields, htwin, htwinThread, hback, hne, hidle⟩ :=
      hsound.twins other fields (hasThread_unlink.mp hfields)
    refine ⟨twin, twinFields, htwin, hasThread_unlink.mpr htwinThread, hback, hne, ?_⟩
    rw [hspot_iff .idle (by simp) (by simp), hspot_iff .idle (by simp) (by simp)]
    exact hidle

/-- The cells that the pointers of the current thread lead to. -/
theorem cursor_cells (hsound : Sound lossy memory (some thread) layout)
    (hthread : memory.HasThread thread record) (hcell : memory.threads thread = some cell) :
    cell.prev = queueHead record.priority ∧
      (cell.next = queueTail record.priority ∨
        (layout.queue record.priority ++ [queueTail record.priority]).head? = some cell.next) ∧
      thread ≠ cell.prev ∧ thread ≠ cell.next ∧ cell.prev ≠ cell.next ∧
      (memory.threads cell.prev).isSome = true ∧ (memory.threads cell.next).isSome = true := by
  have hspot := (hsound.current_iff thread).mp rfl
  have hvalue : cell.value = record := by
    have hsame := hthread.2
    rw [Memory.thread?, hcell] at hsame
    exact Option.some.inj hsame
  obtain ⟨hprev, hnext⟩ := hsound.cursor thread rfl cell hcell
  rw [hvalue] at hprev hnext
  have hstrung := hsound.queues.strung record.priority trivial
  have hmem : cell.next ∈ layout.queue record.priority ++ [queueTail record.priority] := by
    rcases hnext with hlast | hfirst
    · simp [hlast]
    · exact List.mem_append_left _ (List.mem_of_mem_head? hfirst)
  have hout := hsound.notMem_queue hthread (by simp [hspot]) record.priority
  refine ⟨hprev, ?_, ?_, ?_, ?_, ?_, hstrung.isSome (List.mem_cons_of_mem _ hmem)⟩
  · refine hnext.imp_right fun hfirst => ?_
    rw [List.head?_append, hfirst]
    rfl
  · rw [hprev]
    exact fun hsame => hout (hsame ▸ List.mem_cons_self)
  · exact fun hsame => hout (hsame ▸ List.mem_cons_of_mem _ hmem)
  · rw [hprev]
    exact fun hsame => (List.nodup_cons.mp hstrung.nodup).1 (hsame ▸ hmem)
  · rw [hprev]
    exact hstrung.isSome List.mem_cons_self

/-- `scheduler_await_interruptable` puts the current thread to sleep, and makes the cells that
its pointers lead to point at each other. -/
theorem enter_ok (hsound : Sound lossy memory (some thread) layout)
    (hthread : memory.HasThread thread record) (hcell : memory.threads thread = some cell)
    (hevent : memory.HasEvent event) (hfresh : memory.waiters waiter = none) :
    ∃ asleep layout', enterInterruptableWait event waiter ⟨memory, some thread⟩ =
        .ok (asleep.unlink cell.prev cell.next) ∧ Sound lossy asleep none layout' ∧
      layout'.queue = layout.queue ∧
      asleep.thread? thread =
        some { record with state := .interruptableWait, waiter := some waiter } := by
  obtain ⟨-, -, hneLeft, hneRight, hne, hleft, hright⟩ := hsound.cursor_cells hthread hcell
  obtain ⟨left, hleft⟩ := Option.isSome_iff_exists.mp hleft
  obtain ⟨right, hright⟩ := Option.isSome_iff_exists.mp hright
  obtain ⟨store, layout', hlink, hsound', hqueue⟩ := hsound.block hthread hevent hfresh (.inr rfl)
  have hkept : ({ memory with waiters := store } : Memory).thread? thread = some record := hthread.2
  refine ⟨_, layout', ?_, hsound', hqueue, Memory.thread?_put_self hkept _⟩
  generalize hmemory : (memory.put thread fun record =>
    { record with state := .interruptableWait }) = memory'
  have hself : memory'.threads thread = some { cell with
      value := { cell.value with state := .interruptableWait } } := by
    rw [← hmemory, Memory.put_threads_self, hcell]
    rfl
  have hleft' : memory'.threads cell.prev = some left := by
    rw [← hmemory, Memory.put_threads_of_ne hneLeft.symm, hleft]
  have hright' : memory'.threads cell.next = some right := by
    rw [← hmemory, Memory.put_threads_of_ne hneRight.symm, hright]
  have hwaiters : memory'.waiters = memory.waiters := by rw [← hmemory, Memory.put_waiters]
  rw [enterInterruptableWait, follow, ok_bind, Memory.setState_of_eq hthread.2, hmemory, ok_bind]
  simp only [hwaiters, hlink, ok_bind, readCell_of_eq hself, writeCell_of_eq hright']
  rw [readCell_of_eq (by rw [update_of_ne hneRight]; exact hself), ok_bind,
    writeCell_of_eq (by rw [update_of_ne hne]; exact hleft'), ok_bind,
    update_comm hne.symm]
  have hunlinked : unlinked memory'.threads cell.prev cell.next = update
      (update memory'.threads cell.prev (some { left with next := cell.next })) cell.next
      (some { right with prev := cell.prev }) := by
    rw [unlinked, hleft', hright']
    rfl
  rw [← hunlinked, ← hmemory]
  -- the last write is to the thread itself, and the unlinking to other cells
  have hput := (Memory.thread?_unlink cell.prev cell.next thread).trans
    (Memory.thread?_put_self hkept fun record => { record with state := .interruptableWait })
  change Memory.setThread (({ memory with waiters := store }.put thread fun record =>
    { record with state := .interruptableWait }).unlink cell.prev cell.next) thread _ = _
  rw [Memory.setThread_of_eq hput, ← Memory.unlink_put hneLeft hneRight, Memory.put_put]
  rfl

/-- The threads behind the current one are where its pointers say: nothing changes. -/
theorem enter_keeps (hsound : Sound lossy memory none layout) {next : Nat}
    (hnext : (layout.queue priority ++ [queueTail priority]).head? = some next) :
    memory.unlink (queueHead priority) next = memory := by
  have hjoined := (hsound.queues.strung priority trivial).joined
  obtain ⟨first, others, hplaces⟩ := List.exists_cons_of_ne_nil
    (List.append_ne_nil_of_right_ne_nil (layout.queue priority) (List.cons_ne_nil (queueTail priority) []))
  rw [hplaces] at hjoined hnext
  cases hnext
  rw [Memory.unlink, unlinked_of_joined (List.isChain_cons_cons.mp hjoined).1]

/-- `scheduler_await_interruptable`. -/
theorem schedulerAwaitInterruptable_ok (hsound : Sound lossy memory (some thread) layout)
    (hlossy : lossy) (hevent : memory.HasEvent event) (hfresh : memory.waiters waiter = none) :
    Settles lossy fun fuel => schedulerAwaitInterruptable fuel event waiter ⟨memory, some thread⟩ := by
  obtain ⟨signal, hsignal⟩ := Memory.hasSignal_of_hasEvent hevent
  have hspot := (hsound.current_iff thread).mp rfl
  obtain ⟨record, hthread⟩ := hsound.placed thread (by simp [hspot])
  obtain ⟨cell, hcell, -⟩ := Option.map_eq_some_iff.mp hthread.2
  cases signal with
  | true =>
      have hreturn (fuel : Nat) : schedulerAwaitInterruptable fuel event waiter ⟨memory, some thread⟩ =
          .ok ⟨memory.setSignal event false, some thread⟩ := by
        rw [schedulerAwaitInterruptable, hsignal]
        rfl
      simp only [hreturn]
      exact .of_ok (hsound.setSignal hevent false)
  | false =>
      obtain ⟨asleep, layout', henter, hsound', hqueue, hasleep⟩ :=
        hsound.enter_ok hthread hcell hevent hfresh
      obtain ⟨hprev, hnext, -⟩ := hsound.cursor_cells hthread hcell
      obtain ⟨layout'', hsound''⟩ :
          ∃ layout'', Sound lossy (asleep.unlink cell.prev cell.next) none layout'' := by
        rw [hprev]
        rcases hnext with hlast | hfirst
        · rw [hlast]
          exact ⟨_, hsound'.clear hlossy record.priority⟩
        · rw [← hqueue] at hfirst
          rw [hsound'.enter_keeps hfirst]
          exact ⟨layout', hsound'⟩
      rw [← Memory.thread?_unlink cell.prev cell.next] at hasleep
      have hyield (fuel : Nat) :
          schedulerAwaitInterruptable fuel event waiter ⟨memory, some thread⟩ =
            schedulerYield fuel ⟨asleep.unlink cell.prev cell.next, none⟩ := by
        rw [← schedulerYield_of_other hasleep (by simp) (by simp), schedulerAwaitInterruptable,
          hsignal, ok_bind, if_neg (by simp), henter, ok_bind]
      simp only [hyield]
      exact hsound''.schedulerYield_ok

end Sound

end PKernel.Scheduling
