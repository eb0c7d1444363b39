import PKernel.Scheduler.Creation

/-! # The choice of the next thread

`scheduler_yield` takes threads from the run queues up to one that it resumes, and frees the
dead ones on its way. The calls that end in it are here too.
-/

namespace PKernel.Scheduling

open Library.LinkedList
open Function (update update_of_ne update_self)

variable {lossy : Prop} {memory : Memory} {current : Option Nat} {layout : Layout}
  {thread event waiter : Nat} {record : Thread} {priority : ThreadPriority} {rest : List Nat}

/-- The layout without the first thread of a queue, which gets another spot. -/
def Layout.dequeued (layout : Layout) (priority : ThreadPriority) (rest : List Nat) (thread : Nat)
    (spot : Spot) : Layout where
  queue := update layout.queue priority rest
  waiters := layout.waiters
  spot := update layout.spot thread spot

/-- A call returns once it is given enough steps, and whenever it returns the lists are in
order. -/
def Settles (lossy : Prop) (call : Nat → Except Fault Scheduler) : Prop :=
  (∃ bound, ∀ fuel, bound ≤ fuel → call fuel ≠ .error .nontermination) ∧
    ∀ fuel, call fuel = .error .nontermination ∨
      ∃ scheduler layout, call fuel = .ok scheduler ∧
        Sound lossy scheduler.memory scheduler.current layout

/-- A call without a loop. -/
theorem Settles.of_ok {scheduler : Scheduler}
    (hsound : Sound lossy scheduler.memory scheduler.current layout) :
    Settles lossy fun _ => .ok scheduler :=
  ⟨⟨0, fun _ _ => nofun⟩, fun _ => .inr ⟨scheduler, layout, rfl, hsound⟩⟩

namespace Sound

/-- None was the current thread, and the thread is. -/
theorem current_iff_enter (hsound : Sound lossy memory none layout) (other : Nat) :
    some thread = some other ↔ update layout.spot thread .current other = .current := by
  refine spot_update_iff (fun other => some thread = some other) hsound.current_iff (by simp)
    (fun other hother => ?_) other
  exact iff_of_false (fun heq => hother (Option.some.inj heq).symm) nofun

/-- The first thread of a queue is taken out, to be resumed or to be freed. -/
theorem take (hsound : Sound lossy memory none layout)
    (hqueue : layout.queue priority = thread :: rest) :
    ∃ memory' record, dequeue thread memory = .ok memory' ∧ memory'.HasThread thread record ∧
      layout.Alone record ∧
      ((record.state = .running ∧
          Sound lossy memory' (some thread) (layout.dequeued priority rest thread .current)) ∨
        (record.state = .dead ∧
          Sound lossy memory' none (layout.dequeued priority rest thread .idle))) := by
  have hspot : layout.spot thread = .queued priority :=
    (hsound.queued_iff priority thread).mp (by simp [hqueue])
  obtain ⟨record, hthread⟩ := hsound.placed thread (by simp [hspot])
  have hfits := hsound.fits thread record hthread
  rw [hspot] at hfits
  obtain ⟨rfl, hstate, hwaiter⟩ := hfits
  obtain ⟨threads, hdequeue, hqueues, hvalues, cell, hcell, hprev, hnext⟩ :=
    dequeue_of_family hsound.queues hqueue
  have hthreads (other : Nat) : ({ memory with threads } : Memory).thread? other =
      if other = thread then (memory.thread? other).map id else memory.thread? other := by
    rw [Option.map_id, id, ite_self]
    exact hvalues other
  have hself : ({ memory with threads } : Memory).HasThread thread record :=
    ⟨hthread.1, (hvalues thread).trans hthread.2⟩
  refine ⟨{ memory with threads }, record, hdequeue, hself,
    hsound.alone hthread (by simp [hspot]), ?_⟩
  have hwaiting : ∀ event waiter, layout.spot thread ≠ .waiting event waiter := by simp [hspot]
  rcases hstate with hstate | hstate
  · refine .inl ⟨hstate, hsound.relocate hthread id hqueues hsound.lists hthreads rfl
      hsound.current_iff_enter (fun _ => hsound.queued_iff_pop hqueue nofun)
      (hsound.waiting_iff_update hwaiting nofun) ?_ ⟨.inl hstate, hwaiter⟩ rfl
      (.inr (.inl (by simp [hspot])))⟩
    -- its pointers are still those of the first thread of the queue
    intro other hcurrent cell' hcell'
    cases hcurrent
    cases hcell.symm.trans hcell'
    have hvalue : cell.value = record := by
      have hsame := (hvalues thread).trans hthread.2
      rw [hcell] at hsame
      exact Option.some.inj hsame
    refine ⟨by rw [hvalue, hprev], ?_⟩
    simp only [hvalue, Layout.dequeued, update_self]
    cases rest with
    | nil => exact .inl (Option.some.inj hnext).symm
    | cons next others => exact .inr hnext
  · exact .inr ⟨hstate, hsound.relocate hthread id hqueues hsound.lists hthreads rfl
      (hsound.current_iff_update (by simp [hspot]) nofun)
      (fun _ => hsound.queued_iff_pop hqueue nofun)
      (hsound.waiting_iff_update hwaiting nofun) nofun ⟨.inr (.inr (.inl hstate)), hwaiter⟩ rfl
      (.inl rfl)⟩

/-- The loop over one queue. It ends at a thread to resume, or frees all that there are. -/
theorem pickFrom_ok (hsound : Sound lossy memory none layout) (fuel : Nat) :
    (pickFrom priority fuel memory = .error .nontermination ∧
        fuel ≤ (layout.queue priority).length) ∨
      ∃ picked memory' layout', pickFrom priority fuel memory = .ok (picked, memory') ∧
        Sound lossy memory' picked layout' ∧
        ∀ other, (layout'.queue other).length ≤ (layout.queue other).length := by
  induction fuel generalizing memory layout with
  | zero => exact .inl ⟨rfl, Nat.zero_le _⟩
  | succ fuel ih =>
      have hnext := (hsound.queues.strung priority trivial).next_head
      cases hqueue : layout.queue priority with
      | nil =>
          rw [hqueue] at hnext
          obtain ⟨head, hhead, hnext⟩ := Option.map_eq_some_iff.mp hnext
          refine .inr ⟨none, memory, layout, ?_, hsound, fun _ => le_rfl⟩
          rw [pickFrom, readCell_of_eq hhead, ok_bind, if_pos hnext]
          rfl
      | cons thread rest =>
          rw [hqueue] at hnext
          obtain ⟨head, hhead, rfl⟩ := Option.map_eq_some_iff.mp hnext
          obtain ⟨memory', record, hdequeue, hthread, halone, hcases⟩ := hsound.take hqueue
          have hne : head.next ≠ queueTail priority := by
            intro hsame
            have hnodup := (hsound.queues.strung priority trivial).nodup
            rw [hqueue, hsame] at hnodup
            simp at hnodup
          have hshorter : ∀ spot other,
              ((layout.dequeued priority rest head.next spot).queue other).length ≤
                (layout.queue other).length := by
            intro spot other
            unfold Layout.dequeued
            by_cases hsame : other = priority
            · subst hsame
              simp [hqueue]
            · simp [update_of_ne hsame]
          rw [pickFrom, readCell_of_eq hhead, ok_bind, if_neg hne, hdequeue, ok_bind,
            Memory.readThread_of_eq hthread.2, ok_bind]
          rcases hcases with ⟨hstate, hsound'⟩ | ⟨hstate, hsound'⟩
          · rw [hstate]
            exact .inr ⟨some head.next, memory', _, rfl, hsound', hshorter _⟩
          · -- the dead thread is freed, and the loop goes on with a shorter queue
            obtain ⟨memory'', hfree, hsound''⟩ := hsound'.threadFree_ok hthread
              (update_self ..) (halone.leave rfl rfl)
            rw [hstate]
            simp only [hfree, ok_bind]
            rcases ih hsound'' with ⟨hloop, hfuel⟩ | ⟨picked, memory3, layout', hloop, hsound3, hlengths⟩
            · refine .inl ⟨hloop, ?_⟩
              simp only [Layout.dequeued, update_self] at hfuel
              rw [List.length_cons]
              omega
            · exact .inr ⟨picked, memory3, layout', hloop, hsound3,
                fun other => (hlengths other).trans (hshorter _ other)⟩

/-- The loop over the queues. -/
theorem pick_ok (hsound : Sound lossy memory none layout) (fuel : Nat)
    (priorities : List ThreadPriority) :
    (pick fuel priorities memory = .error .nontermination ∧
        ∃ priority, fuel ≤ (layout.queue priority).length) ∨
      ∃ picked memory' layout', pick fuel priorities memory = .ok (picked, memory') ∧
        Sound lossy memory' picked layout' := by
  induction priorities generalizing memory layout with
  | nil => exact .inr ⟨none, memory, layout, rfl, hsound⟩
  | cons priority others ih =>
      rw [pick]
      rcases hsound.pickFrom_ok fuel with ⟨hloop, hfuel⟩ | ⟨picked, memory', layout', hloop, hsound', hlengths⟩
      · exact .inl ⟨by rw [hloop, error_bind], priority, hfuel⟩
      · rw [hloop, ok_bind]
        cases picked with
        | some thread => exact .inr ⟨some thread, memory', layout', rfl, hsound'⟩
        | none =>
            rcases ih hsound' with ⟨hrest, other, hfuel⟩ | hrest
            · exact .inl ⟨hrest, other, hfuel.trans (hlengths other)⟩
            · exact .inr hrest

/-- `scheduler_yield`. -/
theorem schedulerYield_ok (hsound : Sound lossy memory current layout) :
    Settles lossy fun fuel => schedulerYield fuel ⟨memory, current⟩ := by
  obtain ⟨memory', layout', hrequeue, hsound'⟩ := hsound.requeue_ok
  have hyield (fuel : Nat) : schedulerYield fuel ⟨memory, current⟩ =
      (pick fuel ThreadPriority.all memory' >>= fun picked => .ok ⟨picked.2, picked.1⟩) := by
    rw [schedulerYield, hrequeue, ok_bind]
    rfl
  refine ⟨⟨(ThreadPriority.all.map fun priority => (layout'.queue priority).length).sum + 1,
    fun fuel hfuel => ?_⟩, fun fuel => ?_⟩
  · simp only [hyield]
    rcases hsound'.pick_ok fuel ThreadPriority.all with ⟨-, priority, hshort⟩ | ⟨_, _, _, hpick, -⟩
    · simp only [ThreadPriority.all, List.map_cons, List.map_nil, List.sum_cons, List.sum_nil] at hfuel
      cases priority <;> omega
    · rw [hpick, ok_bind]
      nofun
  · simp only [hyield]
    rcases hsound'.pick_ok fuel ThreadPriority.all with ⟨hpick, -⟩ | ⟨picked, memory'', layout'', hpick, hsound''⟩
    · exact .inl (by rw [hpick, error_bind])
    · exact .inr ⟨⟨memory'', picked⟩, layout'', by rw [hpick, ok_bind], hsound''⟩

/-- A current thread that the queue does not accept is let go. -/
theorem schedulerYield_of_other (hthread : memory.thread? thread = some record)
    (hrunning : record.state ≠ .running) (hdead : record.state ≠ .dead) (fuel : Nat) :
    schedulerYield fuel ⟨memory, some thread⟩ = schedulerYield fuel ⟨memory, none⟩ := by
  have hrequeue : requeue ⟨memory, some thread⟩ = requeue ⟨memory, none⟩ :=
    schedulerQueue_of_other hthread hrunning hdead
  rw [schedulerYield, hrequeue]
  rfl

/-! ## Calls of the current thread -/

/-- `scheduler_await` takes the signal, or puts the current thread to sleep. -/
theorem schedulerAwait_ok (hsound : Sound lossy memory (some thread) layout)
    (hevent : memory.HasEvent event) (hfresh : memory.waiters waiter = none) :
    Settles lossy fun fuel => schedulerAwait fuel event waiter ⟨memory, some thread⟩ := by
  obtain ⟨signal, hsignal⟩ := Memory.hasSignal_of_hasEvent hevent
  have hspot := (hsound.current_iff thread).mp rfl
  obtain ⟨record, hthread⟩ := hsound.placed thread (by simp [hspot])
  cases signal with
  | true =>
      have hreturn (fuel : Nat) : schedulerAwait fuel event waiter ⟨memory, some thread⟩ =
          .ok ⟨memory.setSignal event false, some thread⟩ := by
        rw [schedulerAwait, hsignal]
        rfl
      simp only [hreturn]
      exact .of_ok (hsound.setSignal hevent false)
  | false =>
      obtain ⟨store, layout', hlink, hsound', -⟩ := hsound.block hthread hevent hfresh (.inl rfl)
      have hkept : ({ memory with waiters := store } : Memory).thread? thread = some record := hthread.2
      have hput := Memory.thread?_put_self hkept fun record =>
        { record with state := .uninterruptableWait }
      have hasleep := Memory.thread?_put_self hkept fun record =>
        { record with state := .uninterruptableWait, waiter := some waiter }
      have hyield (fuel : Nat) : schedulerAwait fuel event waiter ⟨memory, some thread⟩ =
          schedulerYield fuel ⟨{ memory with waiters := store }.put thread fun record =>
            { record with state := .uninterruptableWait, waiter := some waiter }, none⟩ := by
        rw [← schedulerYield_of_other hasleep (by simp) (by simp), schedulerAwait, hsignal, ok_bind,
          if_neg (by simp), follow, ok_bind, Memory.setState_of_eq hthread.2, ok_bind]
        simp only [Memory.put_waiters, hlink, ok_bind]
        change (Memory.setThread ({ memory with waiters := store }.put thread fun record =>
          { record with state := .uninterruptableWait }) thread _ >>= _) = _
        rw [Memory.setThread_of_eq hput, ok_bind, Memory.put_put]
        rfl
      simp only [hyield]
      exact hsound'.schedulerYield_ok

/-- The current thread gives up the core, and its twin, in no spot, gets to its queue. -/
theorem handOver (hsound : Sound lossy memory (some thread) layout) {state : ThreadState}
    (hstate : state = .stopped ∨ state = .waiting) :
    ∃ record twin other, memory.HasThread thread record ∧ record.twin = some twin ∧
      (memory.put thread fun record => { record with state }).thread? twin = some other ∧
      other.state ≠ .running ∧
      ∀ state', state' = .running ∨ state' = .dead → ∃ memory' layout',
        schedulerQueue twin ((memory.put thread fun record => { record with state }).put twin
          fun record => { record with state := state' }) = .ok memory' ∧
        Sound lossy memory' none layout' ∧
        memory'.thread? thread = some { record with state } := by
  have hspot := (hsound.current_iff thread).mp rfl
  obtain ⟨record, hthread⟩ := hsound.placed thread (by simp [hspot])
  obtain ⟨twin, other, htwin, hother, hback, hne, hidle⟩ := hsound.twins thread record hthread
  have hidleTwin := hidle.resolve_left (by simp [hspot])
  have hother' : (memory.put thread fun record => { record with state }).HasThread twin other :=
    ⟨hother.1, (Memory.thread?_put_of_ne hne _).trans hother.2⟩
  have hsettled : (layout.settled thread .idle).spot twin = .idle := by
    simp only [Layout.settled, update_of_ne hne, hidleTwin]
  have halone : (layout.settled thread .idle).Alone other := by
    intro partner hpartner
    cases hback.symm.trans hpartner
    simp only [Layout.settled, update_self]
  refine ⟨record, twin, other, hthread, htwin, hother'.2, ?_, fun state' hstate' => ?_⟩
  · have hfits := hsound.fits twin other hother
    rw [hidleTwin] at hfits
    rcases hfits.1 with hstate | hstate | hstate | hstate <;> simp [hstate]
  · obtain ⟨memory', hqueue, hsound', hrest⟩ := (hsound.settle hthread hstate).enqueue hother' hstate'
      (.inl ⟨hsettled, rfl, halone⟩)
    exact ⟨memory', _, hqueue, hsound',
      (hrest thread hne.symm).trans (Memory.thread?_put_self hthread.2 _)⟩

/-- `scheduler_start_twin`. -/
theorem schedulerStartTwin_ok (hsound : Sound lossy memory (some thread) layout) :
    Settles lossy fun _ => schedulerStartTwin ⟨memory, some thread⟩ := by
  obtain ⟨record, twin, other, hthread, htwin, hother, hrunning, hqueue⟩ :=
    hsound.handOver (.inr rfl)
  obtain ⟨memory', layout', hqueue, hsound', -⟩ := hqueue .running (.inl rfl)
  have hreturn : schedulerStartTwin ⟨memory, some thread⟩ = .ok ⟨memory', none⟩ := by
    rw [schedulerStartTwin, follow, ok_bind, Memory.setState_of_eq hthread.2, ok_bind,
      Memory.readThread_of_eq (Memory.thread?_put_self hthread.2 _), ok_bind, htwin, follow, ok_bind,
      threadRun_eq hother hrunning, hqueue]
    rfl
  simp only [hreturn]
  exact .of_ok hsound'

/-- `scheduler_return_twin0` and `scheduler_return_twin1`. -/
theorem schedulerReturnTwin_ok (hsound : Sound lossy memory (some thread) layout) :
    Settles lossy fun fuel => schedulerReturnTwin fuel ⟨memory, some thread⟩ := by
  obtain ⟨record, twin, other, hthread, htwin, hother, hrunning, hqueue⟩ :=
    hsound.handOver (.inl rfl)
  obtain ⟨memory', layout', hqueued, hsound'⟩ : ∃ memory' layout',
      (if other.state = .dead then
        schedulerQueue twin (memory.put thread fun record => { record with state := .stopped })
      else threadRun twin (memory.put thread fun record => { record with state := .stopped })) =
        .ok memory' ∧ Sound lossy memory' none layout' := by
    by_cases hdead : other.state = .dead
    · obtain ⟨memory', layout', hqueue, hsound', -⟩ := hqueue _ (.inr hdead)
      rw [Memory.put_self hother rfl] at hqueue
      exact ⟨memory', layout', by rw [if_pos hdead, hqueue], hsound'⟩
    · obtain ⟨memory', layout', hqueue, hsound', -⟩ := hqueue .running (.inl rfl)
      exact ⟨memory', layout', by rw [if_neg hdead, threadRun_eq hother hrunning, hqueue], hsound'⟩
  have hyield (fuel : Nat) : schedulerReturnTwin fuel ⟨memory, some thread⟩ =
      schedulerYield fuel ⟨memory', none⟩ := by
    rw [schedulerReturnTwin, follow, ok_bind, Memory.setState_of_eq hthread.2, ok_bind,
      Memory.readThread_of_eq (Memory.thread?_put_self hthread.2 _), ok_bind, htwin, follow, ok_bind,
      Memory.readThread_of_eq hother, ok_bind]
    split at hqueued
    next hdead => rw [if_pos hdead, hqueued, ok_bind]
    next hdead => rw [if_neg hdead, hqueued, ok_bind]
  simp only [hyield]
  exact hsound'.schedulerYield_ok

/-- `syscall_signalret`. -/
theorem syscallSignalret_ok (hsound : Sound lossy memory (some thread) layout) :
    Settles lossy fun fuel => syscallSignalret fuel ⟨memory, some thread⟩ := by
  obtain ⟨record, twin, other, hthread, htwin, hother, hrunning, hqueue⟩ :=
    hsound.handOver (.inl rfl)
  obtain ⟨memory', layout', hqueue, hsound', hstopped⟩ := hqueue .running (.inl rfl)
  have hyield (fuel : Nat) : syscallSignalret fuel ⟨memory, some thread⟩ =
      schedulerYield fuel ⟨memory', none⟩ := by
    rw [← schedulerYield_of_other hstopped (by simp) (by simp), syscallSignalret, follow, ok_bind,
      Memory.readThread_of_eq hthread.2, ok_bind, htwin, follow, ok_bind,
      Memory.setState_of_eq hthread.2, ok_bind, threadRun_eq hother hrunning, hqueue, ok_bind]
  simp only [hyield]
  exact hsound'.schedulerYield_ok

end Sound

end PKernel.Scheduling
