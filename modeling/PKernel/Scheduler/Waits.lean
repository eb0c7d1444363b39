import PKernel.Scheduler.Calls

/-! # Waiting for events

Threads come into the waiter list of an event and go out of it, woken by the event or
interrupted. Events come and go.
-/

namespace PKernel.Scheduling

open Library.LinkedList
open Function (update update_of_ne update_self)

variable {lossy : Prop} {memory : Memory} {current : Option Nat} {layout : Layout}
  {thread event waiter : Nat} {record : Thread}

theorem Memory.hasSignal_of_hasEvent (hevent : memory.HasEvent event) :
    ∃ signal, memory.hasSignal event = .ok signal := by
  obtain ⟨signal, hsignal⟩ := Option.isSome_iff_exists.mp hevent
  exact ⟨signal, by rw [hasSignal, hsignal]⟩

/-- The events are the same after a signal. -/
theorem Memory.hasEvent_setSignal (hevent : memory.HasEvent event) (signal : Bool) :
    (memory.setSignal event signal).HasEvent = memory.HasEvent := by
  funext other
  unfold HasEvent setSignal
  by_cases hsame : other = event
  · subst hsame
    simp [hevent]
  · simp only [update_of_ne hsame]

namespace Sound

/-- A signal comes or goes. -/
theorem setSignal (hsound : Sound lossy memory current layout) (hevent : memory.HasEvent event)
    (signal : Bool) : Sound lossy (memory.setSignal event signal) current layout := by
  have hevents := Memory.hasEvent_setSignal hevent signal
  constructor
  case queues => exact hsound.queues
  case lists =>
    have hlists := hsound.lists
    change Family _ (memory.setSignal event signal).HasEvent _ _ _
    rwa [hevents]
  case current_iff => exact hsound.current_iff
  case queued_iff => exact hsound.queued_iff
  case waiting_iff =>
    intro other waiter thread
    rw [hsound.waiting_iff]
    rw [hevents]
    rfl
  case cursor => exact hsound.cursor
  case placed => exact hsound.placed
  case fits => exact hsound.fits
  case twins => exact hsound.twins

/-! ## Into a waiter list -/

/-- The thread was in no waiter list, and its new waiter is the last of one. -/
theorem waiting_iff_join (hsound : Sound lossy memory current layout)
    (hspot : ∀ event waiter, layout.spot thread ≠ .waiting event waiter)
    (hevent : memory.HasEvent event) (hfresh : memory.waiters waiter = none) {store : Store Nat}
    (hvalues : ∀ kept, (store kept).map Cell.value =
      (update memory.waiters waiter (some ⟨thread, 0, 0⟩) kept).map Cell.value)
    (event' waiter' other : Nat) :
    update layout.spot thread (.waiting event waiter) other = .waiting event' waiter' ↔
      memory.HasEvent event' ∧
        waiter' ∈ update layout.waiters event (layout.waiters event ++ [waiter]) event' ∧
        (store waiter').map Cell.value = some other := by
  have hnew : (store waiter).map Cell.value = some thread := by
    rw [hvalues, update_self]
    rfl
  have hold : ∀ kept, kept ≠ waiter →
      (store kept).map Cell.value = (memory.waiters kept).map Cell.value := by
    intro kept hkept
    rw [hvalues, update_of_ne hkept]
  have hout : ∀ second, memory.HasEvent second → waiter ∉ layout.waiters second := by
    intro second hsecond hmem
    have hplace : waiter ∈ waiterHead second :: (layout.waiters second ++ [waiterTail second]) := by
      simp [hmem]
    have hsome := (hsound.lists.strung second hsecond).isSome hplace
    simp [hfresh] at hsome
  have hmem_iff : ∀ second kept, kept ≠ waiter →
      (kept ∈ update layout.waiters event (layout.waiters event ++ [waiter]) second ↔
        kept ∈ layout.waiters second) := by
    intro second kept hkept
    by_cases hsame : second = event
    · subst hsame
      rw [update_self]
      simp [hkept]
    · rw [update_of_ne hsame]
  by_cases hwaiter : waiter' = waiter
  · subst hwaiter
    rw [hnew]
    by_cases hsame : other = thread
    · subst hsame
      rw [update_self]
      constructor
      · intro heq
        obtain ⟨rfl, -⟩ := Spot.waiting.inj heq
        exact ⟨hevent, by simp, rfl⟩
      · rintro ⟨hlive, hmem, -⟩
        by_cases hevents : event' = event
        · rw [hevents]
        · rw [update_of_ne hevents] at hmem
          exact absurd hmem (hout event' hlive)
    · rw [update_of_ne hsame]
      refine iff_of_false (fun hwaits => ?_) fun hright => hsame (Option.some.inj hright.2.2).symm
      obtain ⟨hlive, hmem, -⟩ := (hsound.waiting_iff event' waiter' other).mp hwaits
      exact hout event' hlive hmem
  · rw [hmem_iff event' waiter' hwaiter, hold waiter' hwaiter, ← hsound.waiting_iff]
    by_cases hsame : other = thread
    · subst hsame
      rw [update_self]
      exact iff_of_false (fun heq => hwaiter (Spot.waiting.inj heq).2.symm) (hspot event' waiter')
    · rw [update_of_ne hsame]

/-- The current thread goes to sleep behind the waiters of an event. -/
theorem block (hsound : Sound lossy memory (some thread) layout)
    (hthread : memory.HasThread thread record) (hevent : memory.HasEvent event)
    (hfresh : memory.waiters waiter = none) {state : ThreadState}
    (hstate : state = .uninterruptableWait ∨ state = .interruptableWait) :
    ∃ store layout', linkLast (update memory.waiters waiter (some ⟨thread, 0, 0⟩))
        (waiterTail event) waiter = .ok store ∧
      Sound lossy ({ memory with waiters := store }.put thread fun record =>
        { record with state, waiter := some waiter }) none layout' ∧
      layout'.queue = layout.queue := by
  have hspot := (hsound.current_iff thread).mp rfl
  have hout : ∀ second, memory.HasEvent second →
      waiter ∉ waiterHead second :: (layout.waiters second ++ [waiterTail second]) := by
    intro second hsecond hmem
    have hsome := (hsound.lists.strung second hsecond).isSome hmem
    simp [hfresh] at hsome
  have hlists : Family (update memory.waiters waiter (some ⟨thread, 0, 0⟩))
      memory.HasEvent waiterHead waiterTail layout.waiters := by
    refine hsound.lists.congr fun second hsecond place hplace => ?_
    have hne : place ≠ waiter := fun hsame => hout second hsecond (hsame ▸ hplace)
    rw [update_of_ne hne]
    exact ⟨rfl, rfl⟩
  obtain ⟨store, hlink, hlists', hvalues, -⟩ := linkLast_of_family hlists event hevent
    (update_self ..) hout
  have hqueues : Family ({ memory with waiters := store }.put thread fun record =>
      { record with state, waiter := some waiter }).threads (fun _ => True) queueHead queueTail
      layout.queue := Memory.family_put hsound.queues
  have hcurrent : ∀ event' waiter', layout.spot thread ≠ .waiting event' waiter' := by simp [hspot]
  refine ⟨store, ⟨layout.queue,
    update layout.waiters event (layout.waiters event ++ [waiter]),
    update layout.spot thread (.waiting event waiter)⟩, hlink, ?_, rfl⟩
  refine hsound.relocate hthread (fun record => { record with state, waiter := some waiter })
    hqueues hlists' (Memory.thread?_put_apply _) rfl (hsound.current_iff_leave hspot nofun)
    (hsound.queued_iff_update (by simp [hspot]) nofun)
    (hsound.waiting_iff_join hcurrent hevent hfresh hvalues) nofun ⟨?_, rfl⟩ rfl
    (.inr (.inl (by simp [hspot])))
  rcases hstate with rfl | rfl
  · exact .inl rfl
  · exact .inr (.inl rfl)

/-! ## Out of a waiter list -/

/-- The thread was in a waiter list, and its waiter is taken out. -/
theorem waiting_iff_leave (hsound : Sound lossy memory current layout)
    (hspot : layout.spot thread = .waiting event waiter) {before after : List Nat}
    (hwaiters : layout.waiters event = before ++ waiter :: after) {spot : Spot}
    (hspot' : ∀ event waiter, spot ≠ .waiting event waiter) {store : Store Nat}
    (hvalues : ∀ kept, kept ≠ waiter →
      (store kept).map Cell.value = (memory.waiters kept).map Cell.value)
    (event' waiter' other : Nat) :
    update layout.spot thread spot other = .waiting event' waiter' ↔
      memory.HasEvent event' ∧
        waiter' ∈ update layout.waiters event (before ++ after) event' ∧
        (store waiter').map Cell.value = some other := by
  obtain ⟨hlive, -, hvalue⟩ := (hsound.waiting_iff event waiter thread).mp hspot
  have hout : waiter ∉ before ++ after := by
    have hnodup := (hsound.lists.strung event hlive).nodup
    rw [hwaiters, List.append_assoc, List.cons_append, ← List.cons_append] at hnodup
    obtain ⟨-, hbehind, hapart⟩ := List.nodup_append.mp hnodup
    intro hmem
    rcases List.mem_append.mp hmem with hbefore | hafter
    · exact hapart waiter (List.mem_cons_of_mem _ hbefore) waiter List.mem_cons_self rfl
    · exact (List.nodup_cons.mp hbehind).1 (List.mem_append_left _ hafter)
  -- the waiter is in no list any more
  have hgone : ∀ second, memory.HasEvent second →
      waiter ∉ update layout.waiters event (before ++ after) second := by
    intro second hsecond hmem
    by_cases hsame : second = event
    · subst hsame
      rw [update_self] at hmem
      exact hout hmem
    · rw [update_of_ne hsame] at hmem
      have hfirst : waiter ∈ waiterHead event :: (layout.waiters event ++ [waiterTail event]) := by
        simp [hwaiters]
      exact hsame (hsound.lists.eq_of_mem hsecond hlive (by simp [hmem]) hfirst)
  have hmem_iff : ∀ second kept, kept ≠ waiter →
      (kept ∈ update layout.waiters event (before ++ after) second ↔
        kept ∈ layout.waiters second) := by
    intro second kept hkept
    by_cases hsame : second = event
    · subst hsame
      rw [update_self, hwaiters]
      simp [hkept]
    · rw [update_of_ne hsame]
  by_cases hsame : other = thread
  · subst hsame
    rw [update_self]
    refine iff_of_false (hspot' event' waiter') ?_
    rintro ⟨hlive', hmem, hvalue'⟩
    have hne : waiter' ≠ waiter := by
      rintro rfl
      exact hgone event' hlive' hmem
    rw [hmem_iff event' waiter' hne] at hmem
    rw [hvalues waiter' hne] at hvalue'
    have hwaits := (hsound.waiting_iff event' waiter' other).mpr ⟨hlive', hmem, hvalue'⟩
    rw [hspot] at hwaits
    exact hne (Spot.waiting.inj hwaits).2.symm
  · rw [update_of_ne hsame, hsound.waiting_iff]
    constructor
    · rintro ⟨hlive', hmem, hvalue'⟩
      have hne : waiter' ≠ waiter := by
        rintro rfl
        exact hsame (Option.some.inj (hvalue'.symm.trans hvalue))
      exact ⟨hlive', (hmem_iff event' waiter' hne).mpr hmem, (hvalues waiter' hne).trans hvalue'⟩
    · rintro ⟨hlive', hmem, hvalue'⟩
      have hne : waiter' ≠ waiter := by
        rintro rfl
        exact hgone event' hlive' hmem
      exact ⟨hlive', (hmem_iff event' waiter' hne).mp hmem,
        (hvalues waiter' hne).symm.trans hvalue'⟩

/-- The waiter of a thread is freed, and the thread is in no spot, dead or interrupted. -/
theorem unwait (hsound : Sound lossy memory current layout)
    (hthread : memory.HasThread thread record)
    (hspot : layout.spot thread = .waiting event waiter) {state : ThreadState}
    (hstate : state = .dead ∨ state = .interrupted) :
    ∃ store layout', waiterFree waiter memory = .ok { memory with waiters := store } ∧
      Sound lossy ({ memory with waiters := store }.put thread fun record =>
        { record with waiter := none, state }) current layout' ∧
      layout'.spot = update layout.spot thread .idle ∧
      layout'.queue = layout.queue := by
  obtain ⟨hlive, hmem, -⟩ := (hsound.waiting_iff event waiter thread).mp hspot
  obtain ⟨before, after, hwaiters⟩ := List.append_of_mem hmem
  obtain ⟨store, hfree, hlists, hvalues⟩ := waiterFree_of_family hsound.lists hlive hwaiters
  have hqueues : Family ({ memory with waiters := store }.put thread fun record =>
      { record with waiter := none, state }).threads (fun _ => True) queueHead queueTail
      layout.queue := Memory.family_put hsound.queues
  have hidle : ∀ event waiter, Spot.idle ≠ .waiting event waiter := nofun
  refine ⟨store, ⟨layout.queue, update layout.waiters event (before ++ after),
    update layout.spot thread .idle⟩, hfree, ?_, rfl, rfl⟩
  refine hsound.relocate hthread (fun record => { record with waiter := none, state })
    hqueues hlists (Memory.thread?_put_apply _) rfl (hsound.current_iff_update (by simp [hspot]) nofun)
    (hsound.queued_iff_update (by simp [hspot]) nofun)
    (hsound.waiting_iff_leave hspot hwaiters hidle hvalues)
    (hsound.cursor_put (fun record => { record with waiter := none, state }) fun _ => rfl)
    ⟨?_, rfl⟩ rfl (.inl rfl)
  rcases hstate with rfl | rfl
  · exact .inr (.inr (.inl rfl))
  · exact .inr (.inr (.inr rfl))

/-- The first waiter of an event, with its thread. -/
theorem first_waiter (hsound : Sound lossy memory current layout) (hevent : memory.HasEvent event)
    {rest : List Nat} (hwaiters : layout.waiters event = waiter :: rest) :
    ∃ cell thread record, memory.waiters (waiterHead event) = some cell ∧ cell.next = waiter ∧
      waiter ≠ waiterTail event ∧ (memory.waiters waiter).map Cell.value = some thread ∧
      layout.spot thread = .waiting event waiter ∧ memory.HasThread thread record := by
  have hstrung := hsound.lists.strung event hevent
  rw [hwaiters] at hstrung
  obtain ⟨cell, hcell, hnext⟩ := Option.map_eq_some_iff.mp (hstrung.next_head.trans rfl)
  have hne : waiter ≠ waiterTail event := by
    have hnodup := (List.nodup_cons.mp hstrung.nodup).2
    rw [List.cons_append, List.nodup_cons] at hnodup
    rintro rfl
    exact hnodup.1 (by simp)
  have hmem : waiter ∈ waiterHead event :: (waiter :: rest ++ [waiterTail event]) := by simp
  obtain ⟨waiterCell, hwaiterCell⟩ := Option.isSome_iff_exists.mp (hstrung.isSome hmem)
  have hvalue : (memory.waiters waiter).map Cell.value = some waiterCell.value := by
    rw [hwaiterCell]
    rfl
  have hspot := (hsound.waiting_iff event waiter waiterCell.value).mpr
    ⟨hevent, by simp [hwaiters], hvalue⟩
  obtain ⟨record, hthread⟩ := hsound.placed waiterCell.value (by simp [hspot])
  exact ⟨cell, waiterCell.value, record, hcell, hnext, hne, hvalue, hspot, hthread⟩

/-- A thread whose waiter is gone is run, in whatever state it waited. -/
theorem wake {layout' : Layout} (hsound : Sound lossy (memory.put thread fun record =>
      { record with waiter := none, state := .dead }) current layout')
    (hthread : memory.HasThread thread record) (hrunning : record.state ≠ .running)
    (hspots : layout'.spot = update layout.spot thread .idle)
    (halone : layout.Alone record) :
    ∃ memory' layout'', threadRun thread (memory.put thread fun record =>
        { record with waiter := none }) = .ok memory' ∧ Sound lossy memory' current layout'' := by
  have hput : (memory.put thread fun record => { record with waiter := none }).thread? thread =
      some { record with waiter := none } := Memory.thread?_put_self hthread.2 _
  have hdead : (memory.put thread fun record =>
      { record with waiter := none, state := .dead }).HasThread thread
      { record with waiter := none, state := .dead } :=
    ⟨hthread.1, Memory.thread?_put_self hthread.2 _⟩
  have hidle : layout'.spot thread = .idle := by rw [hspots, update_self]
  have halone' : layout'.Alone { record with waiter := none, state := .dead } :=
    halone.leave hspots rfl
  obtain ⟨memory', hqueue, hsound', -⟩ :=
    hsound.enqueue hdead (.inl rfl) (.inl ⟨hidle, rfl, halone'⟩)
  rw [Memory.put_put] at hqueue
  refine ⟨memory', _, ?_, hsound'⟩
  rw [threadRun_eq hput hrunning, Memory.put_put]
  exact hqueue

/-- `event_invoke` wakes the first waiter, or leaves a signal. -/
theorem eventInvoke_ok (hsound : Sound lossy memory current layout)
    (hevent : memory.HasEvent event) :
    ∃ memory' layout', eventInvoke event memory = .ok memory' ∧
      Sound lossy memory' current layout' := by
  obtain ⟨signal, hsignal⟩ := Memory.hasSignal_of_hasEvent hevent
  cases hwaiters : layout.waiters event with
  | nil =>
      have hnext := (hsound.lists.strung event hevent).next_head
      rw [hwaiters] at hnext
      obtain ⟨cell, hcell, hnext⟩ := Option.map_eq_some_iff.mp hnext
      refine ⟨memory.setSignal event true, layout, ?_, hsound.setSignal hevent true⟩
      rw [eventInvoke, hsignal, ok_bind, readCell_of_eq hcell, ok_bind, if_neg (by simp [hnext])]
      rfl
  | cons waiter rest =>
      obtain ⟨cell, thread, record, hcell, hnext, hne, hvalue, hspot, hthread⟩ :=
        hsound.first_waiter hevent hwaiters
      obtain ⟨waiterCell, hwaiterCell, rfl⟩ := Option.map_eq_some_iff.mp hvalue
      obtain ⟨store, layout', hfree, hsound', hspots, -⟩ := hsound.unwait hthread hspot (.inl rfl)
      have hrunning : record.state ≠ .running := by
        have hfits := hsound.fits _ record hthread
        rw [hspot] at hfits
        rcases hfits.1 with hstate | hstate | hstate <;> simp [hstate]
      obtain ⟨memory', layout'', hrun, hsound''⟩ := hsound'.wake hthread hrunning hspots
        (hsound.alone hthread (by simp [hspot]))
      refine ⟨memory', layout'', ?_, hsound''⟩
      rw [eventInvoke, hsignal, ok_bind, readCell_of_eq hcell, ok_bind]
      simp only [hnext]
      have hkept : { memory with waiters := store }.thread? waiterCell.value = some record :=
        hthread.2
      rw [if_pos hne, readCell_of_eq hwaiterCell, ok_bind, hfree, ok_bind,
        Memory.setThread_of_eq hkept, ok_bind]
      exact hrun

/-! ## Interruption -/

/-- Only threads in a waiter list are in an interruptable wait. -/
theorem spot_of_interruptableWait (hsound : Sound lossy memory current layout)
    (hthread : memory.HasThread thread record) (hstate : record.state = .interruptableWait) :
    ∃ event waiter, layout.spot thread = .waiting event waiter ∧ record.waiter = some waiter := by
  have hfits := hsound.fits thread record hthread
  cases hspot : layout.spot thread with
  | waiting event waiter =>
      rw [hspot] at hfits
      exact ⟨event, waiter, rfl, hfits.2⟩
  | _ => simp [hspot, Spot.Fits, hstate] at hfits

/-- `thread_interrupt` of any other thread does nothing. -/
theorem threadInterrupt_of_other (hthread : memory.HasThread thread record)
    (hstate : record.state ≠ .interruptableWait) :
    ∃ result, threadInterrupt thread memory = .ok (result, memory) := by
  rw [threadInterrupt, Memory.readThread_of_eq hthread.2, ok_bind]
  cases hcase : record.state with
  | interruptableWait => exact absurd hcase hstate
  | _ => exact ⟨_, rfl⟩

/-- `thread_interrupt` of a thread in an interruptable wait takes it out of its waiter list,
and leaves it in no spot. -/
theorem interrupt_ok (hsound : Sound lossy memory current layout)
    (hthread : memory.HasThread thread record) (hstate : record.state = .interruptableWait) :
    ∃ memory' layout', threadInterrupt thread memory = .ok (none, memory') ∧
      Sound lossy memory' current layout' ∧ layout'.spot thread = .idle ∧
      memory'.HasThread thread { record with waiter := none, state := .interrupted } := by
  obtain ⟨event, waiter, hspot, hwaiter⟩ := hsound.spot_of_interruptableWait hthread hstate
  obtain ⟨store, layout', hfree, hsound', hspots, -⟩ := hsound.unwait hthread hspot (.inr rfl)
  obtain ⟨twin, other, htwin, hother, -, hne, hidle⟩ := hsound.twins thread record hthread
  have hfits := hsound.fits twin other hother
  rw [hidle.resolve_left (by simp [hspot])] at hfits
  have hkept : { memory with waiters := store }.thread? thread = some record := hthread.2
  have hunset := Memory.thread?_put_self hkept fun record => { record with waiter := none }
  refine ⟨_, layout', ?_, hsound', by rw [hspots, update_self], hthread.1,
    Memory.thread?_put_self hkept _⟩
  -- the twin sleeps nowhere, so that its own waiter is none already
  have hkeptTwin : ({ memory with waiters := store }.put thread fun record =>
      { record with waiter := none }).thread? twin = some other :=
    (Memory.thread?_put_of_ne hne _).trans hother.2
  have htwinSame := @Memory.put_self _ _ _ hkeptTwin (fun record => { record with waiter := none })
    (by rw [← hfits.2])
  have hinterrupt : interruptWait thread memory = .ok ({ memory with waiters := store }.put thread
      fun record => { record with waiter := none, state := .interrupted }) := by
    rw [interruptWait, Memory.readThread_of_eq hthread.2, ok_bind, hwaiter, follow, ok_bind, hfree,
      ok_bind, Memory.setThread_of_eq hkept, ok_bind, htwin, follow, ok_bind,
      Memory.setThread_of_eq hkeptTwin, ok_bind, htwinSame, Memory.setState_of_eq hunset, ok_bind,
      schedulerQueue_of_other (Memory.thread?_put_self hunset _) (by simp) (by simp),
      Memory.put_put]
    rfl
  rw [threadInterrupt, Memory.readThread_of_eq hthread.2, ok_bind, hstate]
  simp only [hinterrupt, ok_bind, pure_eq_ok]

end Sound

end PKernel.Scheduling
