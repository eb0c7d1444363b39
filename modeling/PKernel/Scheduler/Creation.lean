import PKernel.Scheduler.Waits

/-! # Threads and events come and go

The scheduler starts with empty queues. New threads are in no spot, and an event comes and
goes without waiters. A thread is freed together with its twin.
-/

namespace PKernel.Scheduling

open Library.LinkedList
open Function (update update_apply update_idem update_of_ne)
open Memory (thread?)

variable {lossy : Prop} {memory : Memory} {current : Option Nat} {layout : Layout}
  {thread event : Nat} {record : Thread}

/-- The layout without threads and events. -/
def Layout.empty : Layout := ⟨fun _ => [], fun _ => [], fun _ => .idle⟩

theorem sound_schedulerInit :
    Sound lossy schedulerInit.memory schedulerInit.current Layout.empty := by
  have hnoThread : ∀ thread record, ¬ schedulerInit.memory.HasThread thread record := by
    rintro thread record ⟨hplace, hthread⟩
    unfold sentinel at hplace
    unfold thread? schedulerInit at hthread
    simp only at hthread
    split_ifs at hthread with hzero hhead htail
    · simp at hthread
    · omega
    · omega
    · simp at hthread
  constructor
  case queues =>
    refine ⟨fun priority _ => .nil ?_ ?_ ?_, ?_⟩
    · cases priority <;> decide
    · cases priority <;> rfl
    · cases priority <;> rfl
    · intro first second _ _ hne
      cases first <;> cases second <;> simp_all [Layout.empty, queueHead, queueTail]
  case lists =>
    exact ⟨fun _ hevent => absurd hevent Bool.false_ne_true,
      fun _ _ hevent => absurd hevent Bool.false_ne_true⟩
  case current_iff => simp [schedulerInit, Layout.empty]
  case queued_iff => simp [Layout.empty]
  case waiting_iff => simp [Layout.empty]
  case cursor => exact fun _ hcurrent => by cases hcurrent
  case placed => simp [Layout.empty]
  case fits => exact fun thread record hthread => absurd hthread (hnoThread thread record)
  case twins => exact fun thread record hthread => absurd hthread (hnoThread thread record)

/-- The places for new cells are used by nothing. -/
structure Memory.Unused (memory : Memory) (thread : Nat) : Prop where
  allocated : 8 < thread
  free : memory.threads thread = none

namespace Sound

/-- There is something at the places of the queues. -/
theorem ne_of_unused (hsound : Sound lossy memory current layout) (hunused : memory.Unused thread)
    {priority : ThreadPriority} {place : Nat}
    (hplace : place ∈ queueHead priority :: (layout.queue priority ++ [queueTail priority])) :
    place ≠ thread := by
  rintro rfl
  have hsome := (hsound.queues.strung priority trivial).isSome hplace
  simp [hunused.free] at hsome

theorem idle_of_unused (hsound : Sound lossy memory current layout)
    (hunused : memory.Unused thread) : layout.spot thread = .idle := by
  by_contra hspot
  obtain ⟨record, hthread⟩ := hsound.placed thread hspot
  simp [Memory.HasThread, thread?, hunused.free] at hthread

/-- `thread_create_user` -/
theorem threadCreateUser_ok (hsound : Sound lossy memory current layout) (process : Nat)
    {user kernel : Nat} (huser : memory.Unused user) (hkernel : memory.Unused kernel)
    (hne : user ≠ kernel) :
    Sound lossy (threadCreateUser process user kernel memory) current layout := by
  have hold : ∀ other, other ≠ user → other ≠ kernel →
      (threadCreateUser process user kernel memory).threads other = memory.threads other := by
    intro other hotherUser hotherKernel
    simp only [threadCreateUser, update_of_ne hotherUser,
      update_of_ne hotherKernel]
  have hnewUser : (threadCreateUser process user kernel memory).thread? user =
      some ⟨some process, .user, .stopped, .medium, some kernel, none⟩ := by
    simp [threadCreateUser, thread?]
  have hnewKernel : (threadCreateUser process user kernel memory).thread? kernel =
      some ⟨some process, .kernel, .stopped, .medium, some user, none⟩ := by
    simp [threadCreateUser, thread?, update_of_ne hne.symm]
  have hsentinel {place : Nat} (hunused : memory.Unused place) : ¬ sentinel place := by
    have := hunused.allocated
    unfold sentinel
    omega
  have hthere {other : Nat} {fields : Thread} (hfields : memory.HasThread other fields) :
      other ≠ user ∧ other ≠ kernel := by
    constructor <;> rintro rfl
    · simp [Memory.HasThread, thread?, huser.free] at hfields
    · simp [Memory.HasThread, thread?, hkernel.free] at hfields
  have hkept {other : Nat} {fields : Thread} (hfields : memory.HasThread other fields) :
      (threadCreateUser process user kernel memory).HasThread other fields := by
    obtain ⟨hotherUser, hotherKernel⟩ := hthere hfields
    refine ⟨hfields.1, ?_⟩
    rw [thread?, hold other hotherUser hotherKernel]
    exact hfields.2
  -- a thread is one of the two, or was there before
  have hcases {other : Nat} {fields : Thread}
      (hfields : (threadCreateUser process user kernel memory).HasThread other fields) :
      (other = user ∧ fields = ⟨some process, .user, .stopped, .medium, some kernel, none⟩) ∨
        (other = kernel ∧ fields = ⟨some process, .kernel, .stopped, .medium, some user, none⟩) ∨
        memory.HasThread other fields := by
    by_cases hotherUser : other = user
    · subst hotherUser
      exact .inl ⟨rfl, Option.some.inj (hfields.2.symm.trans hnewUser)⟩
    by_cases hotherKernel : other = kernel
    · subst hotherKernel
      exact .inr (.inl ⟨rfl, Option.some.inj (hfields.2.symm.trans hnewKernel)⟩)
    refine .inr (.inr ⟨hfields.1, ?_⟩)
    have hfields' := hfields.2
    rwa [thread?, hold other hotherUser hotherKernel] at hfields'
  constructor
  case queues =>
    refine hsound.queues.congr fun priority _ place hplace => ?_
    rw [hold place (hsound.ne_of_unused huser hplace) (hsound.ne_of_unused hkernel hplace)]
    exact ⟨rfl, rfl⟩
  case lists => exact hsound.lists
  case current_iff => exact hsound.current_iff
  case queued_iff => exact hsound.queued_iff
  case waiting_iff => exact hsound.waiting_iff
  case cursor =>
    intro other hcurrent cell hcell
    have hspot := (hsound.current_iff other).mp hcurrent
    obtain ⟨fields, hfields⟩ := hsound.placed other (by simp [hspot])
    obtain ⟨hotherUser, hotherKernel⟩ := hthere hfields
    rw [hold other hotherUser hotherKernel] at hcell
    exact hsound.cursor other hcurrent cell hcell
  case placed =>
    intro other hspot
    obtain ⟨fields, hfields⟩ := hsound.placed other hspot
    exact ⟨fields, hkept hfields⟩
  case fits =>
    intro other fields hfields
    rcases hcases hfields with ⟨rfl, rfl⟩ | ⟨rfl, rfl⟩ | hfields
    · rw [hsound.idle_of_unused huser]
      exact ⟨.inl rfl, rfl⟩
    · rw [hsound.idle_of_unused hkernel]
      exact ⟨.inl rfl, rfl⟩
    · exact hsound.fits other fields hfields
  case twins =>
    intro other fields hfields
    rcases hcases hfields with ⟨rfl, rfl⟩ | ⟨rfl, rfl⟩ | hfields
    · exact ⟨kernel, _, rfl, ⟨hsentinel hkernel, hnewKernel⟩, rfl, hne.symm,
        .inl (hsound.idle_of_unused huser)⟩
    · exact ⟨user, _, rfl, ⟨hsentinel huser, hnewUser⟩, rfl, hne,
        .inl (hsound.idle_of_unused hkernel)⟩
    · obtain ⟨twin, twinFields, htwin, htwinThread, hback, htwinNe, hidle⟩ :=
        hsound.twins other fields hfields
      exact ⟨twin, twinFields, htwin, hkept htwinThread, hback, htwinNe, hidle⟩

/-! ## Events -/

/-- `event_init` at a place that no event and no waiter uses. -/
theorem eventInit_ok (hsound : Sound lossy memory current layout)
    (hevent : memory.events event = none) (hhead : memory.waiters (waiterHead event) = none)
    (htail : memory.waiters (waiterTail event) = none) :
    Sound lossy (eventInit event memory) current
      { layout with waiters := update layout.waiters event [] } := by
  have hne : waiterHead event ≠ waiterTail event := by
    unfold waiterHead waiterTail
    omega
  have hother : ∀ second, memory.HasEvent second → second ≠ event := by
    rintro second hsecond rfl
    simp [Memory.HasEvent, hevent] at hsecond
  have houtHead : ∀ second, memory.HasEvent second →
      waiterHead event ∉ waiterHead second :: (layout.waiters second ++ [waiterTail second]) := by
    intro second hsecond hmem
    simpa [hhead] using (hsound.lists.strung second hsecond).isSome hmem
  have houtTail : ∀ second, memory.HasEvent second →
      waiterTail event ∉ waiterHead second :: (layout.waiters second ++ [waiterTail second]) := by
    intro second hsecond hmem
    simpa [htail] using (hsound.lists.strung second hsecond).isSome hmem
  have hkept : ∀ place, place ≠ waiterHead event → place ≠ waiterTail event →
      (eventInit event memory).waiters place = memory.waiters place := by
    intro place hplaceHead hplaceTail
    simp only [eventInit, update_of_ne hplaceTail, update_of_ne hplaceHead]
  have hlive : ∀ second, (eventInit event memory).HasEvent second ↔
      second = event ∨ memory.HasEvent second := by
    intro second
    unfold Memory.HasEvent eventInit
    by_cases hsame : second = event
    · simp [hsame]
    · simp [hsame]
  constructor
  case queues => exact hsound.queues
  case lists =>
    refine hsound.lists.insert (fun second hsecond => (hlive second).mp hsecond) ?_ houtHead
      houtTail ?_
    · refine .nil hne ?_ ?_
      · simp [eventInit, update_of_ne hne]
      · simp [eventInit]
    · intro second hsecond place hplace
      refine hkept place (fun hsame => ?_) (fun hsame => ?_)
      · exact houtHead second hsecond (hsame ▸ hplace)
      · exact houtTail second hsecond (hsame ▸ hplace)
  case current_iff => exact hsound.current_iff
  case queued_iff => exact hsound.queued_iff
  case waiting_iff =>
    intro second waiter thread
    rw [hsound.waiting_iff]
    by_cases hsame : second = event
    · subst hsame
      refine iff_of_false (fun hwaits => ?_) (by simp)
      exact hother second hwaits.1 rfl
    · simp only [hlive, or_iff_right hsame, update_of_ne hsame]
      refine and_congr_right fun hsecond => and_congr_right fun hmem => ?_
      rw [hkept waiter (fun hwaiter => ?_) (fun hwaiter => ?_)]
      · exact houtHead second hsecond (hwaiter ▸ by simp [hmem])
      · exact houtTail second hsecond (hwaiter ▸ by simp [hmem])
  case cursor => exact hsound.cursor
  case placed => exact hsound.placed
  case fits => exact hsound.fits
  case twins => exact hsound.twins

/-- `event_free` of an event without waiters. -/
theorem eventFree_ok (hsound : Sound lossy memory current layout) (hevent : memory.HasEvent event)
    (hempty : (memory.waiters (waiterHead event)).map Cell.next = some (waiterTail event)) :
    Sound lossy (eventFree event memory) current layout := by
  have hwaiters : layout.waiters event = [] := by
    cases hcons : layout.waiters event with
    | nil => rfl
    | cons waiter rest =>
        obtain ⟨cell, -, -, hcell, hnext, hne, -⟩ := hsound.first_waiter hevent hcons
        rw [hcell] at hempty
        exact absurd (hnext.symm.trans (Option.some.inj hempty)) hne
  have hlive : ∀ second, (eventFree event memory).HasEvent second ↔
      second ≠ event ∧ memory.HasEvent second := by
    intro second
    unfold Memory.HasEvent eventFree
    by_cases hsame : second = event
    · simp [hsame]
    · simp [hsame]
  have hkept : ∀ second, (eventFree event memory).HasEvent second →
      ∀ place ∈ waiterHead second :: (layout.waiters second ++ [waiterTail second]),
        (eventFree event memory).waiters place = memory.waiters place := by
    intro second hsecond place hplace
    obtain ⟨hne, hsecond⟩ := (hlive second).mp hsecond
    have hout : place ∉ waiterHead event :: (layout.waiters event ++ [waiterTail event]) :=
      fun hmem => hne (hsound.lists.eq_of_mem hsecond hevent hplace hmem)
    simp only [List.mem_cons, List.mem_append, List.not_mem_nil, or_false, not_or] at hout
    simp only [eventFree, update_of_ne hout.2.2, update_of_ne hout.1]
  constructor
  case queues => exact hsound.queues
  case lists => exact hsound.lists.shrink (fun second hsecond => ((hlive second).mp hsecond).2) hkept
  case current_iff => exact hsound.current_iff
  case queued_iff => exact hsound.queued_iff
  case waiting_iff =>
    intro second waiter thread
    rw [hsound.waiting_iff]
    by_cases hsame : second = event
    · subst hsame
      refine iff_of_false (by simp [hwaiters]) fun hwaits => ?_
      exact ((hlive second).mp hwaits.1).1 rfl
    · constructor
      · rintro ⟨hsecond, hmem, hvalue⟩
        have hsecond' := (hlive second).mpr ⟨hsame, hsecond⟩
        refine ⟨hsecond', hmem, ?_⟩
        rwa [hkept second hsecond' waiter (by simp [hmem])]
      · rintro ⟨hsecond, hmem, hvalue⟩
        rw [hkept second hsecond waiter (by simp [hmem])] at hvalue
        exact ⟨((hlive second).mp hsecond).2, hmem, hvalue⟩
  case cursor => exact hsound.cursor
  case placed => exact hsound.placed
  case fits => exact hsound.fits
  case twins => exact hsound.twins

/-! ## The end of threads -/

/-- `thread_free` of a thread in no spot, whose twin is in none. -/
theorem threadFree_ok (hsound : Sound lossy memory none layout)
    (hthread : memory.HasThread thread record) (hspot : layout.spot thread = .idle)
    (halone : layout.Alone record) :
    ∃ memory', threadFree thread memory = .ok memory' ∧ Sound lossy memory' none layout := by
  obtain ⟨twin, other, htwin, hother, hback, hne, -⟩ := hsound.twins thread record hthread
  have hspotTwin := halone twin htwin
  generalize hmemory : ({ memory with
    threads := update (update memory.threads twin none) thread none } : Memory) =
      memory'
  have hgone : ∀ place, place = thread ∨ place = twin → memory'.threads place = none := by
    rintro place (rfl | rfl) <;> simp [← hmemory, update_apply]
  have hkept : ∀ place, place ≠ thread → place ≠ twin →
      memory'.threads place = memory.threads place := by
    intro place hplace hplaceTwin
    simp [← hmemory, update_of_ne hplace, update_of_ne hplaceTwin]
  have hthreads {place : Nat} {fields : Thread} : memory'.HasThread place fields ↔
      place ≠ thread ∧ place ≠ twin ∧ memory.HasThread place fields := by
    unfold Memory.HasThread thread?
    by_cases hplace : place = thread ∨ place = twin
    · rw [hgone place hplace]
      rcases hplace with rfl | rfl <;> simp
    · obtain ⟨hplace, hplaceTwin⟩ := not_or.mp hplace
      rw [hkept place hplace hplaceTwin]
      simp [hplace, hplaceTwin]
  have hspots {place : Nat} (hplace : layout.spot place ≠ .idle) :
      place ≠ thread ∧ place ≠ twin := by
    constructor <;> rintro rfl
    · exact hplace hspot
    · exact hplace hspotTwin
  refine ⟨memory', ?_, ?_⟩
  · -- neither sleeps, so that no waiter is freed
    have hasleep {place : Nat} {fields : Thread} (hfields : memory.HasThread place fields)
        (hidle : layout.spot place = .idle) : fields.state ≠ .uninterruptableWait := by
      have hfits := hsound.fits place fields hfields
      rw [hidle] at hfits
      rcases hfits.1 with hstate | hstate | hstate | hstate <;> simp [hstate]
    have hasleepTwin := hasleep hother hspotTwin
    have hrelease := threadRelease_of_eq
      (Memory.thread?_put_self hother.2 fun fields => { fields with twin := none }) hasleepTwin
    have hthread' : ({ memory with threads := update memory.threads twin none } :
        Memory).thread? thread = some record := by
      simp only [thread?, update_of_ne hne.symm]
      exact hthread.2
    have hput : update (memory.put twin fun fields =>
        { fields with twin := none }).threads twin none = update memory.threads twin none :=
      update_idem ..
    rw [threadFree, Memory.readThread_of_eq hthread.2, ok_bind, htwin]
    simp only [Memory.setThread_of_eq hother.2, ok_bind, hrelease, hput]
    rw [← hmemory]
    exact threadRelease_of_eq hthread' (hasleep hthread hspot)
  constructor
  case queues =>
    refine hsound.queues.congr fun priority _ place hplace => ?_
    have hout {other : Nat} {fields : Thread} (hfields : memory.HasThread other fields)
        (hidle : layout.spot other = .idle) : place ≠ other := by
      rintro rfl
      exact hsound.notMem_queue hfields (by simp [hidle]) priority hplace
    rw [hkept place (hout hthread hspot) (hout hother hspotTwin)]
    exact ⟨rfl, rfl⟩
  case lists =>
    rw [← hmemory]
    exact hsound.lists
  case current_iff => exact hsound.current_iff
  case queued_iff => exact hsound.queued_iff
  case waiting_iff =>
    rw [← hmemory]
    exact hsound.waiting_iff
  case cursor => exact fun _ hcurrent => by cases hcurrent
  case placed =>
    intro place hplace
    obtain ⟨fields, hfields⟩ := hsound.placed place hplace
    obtain ⟨hplaceThread, hplaceTwin⟩ := hspots hplace
    exact ⟨fields, hthreads.mpr ⟨hplaceThread, hplaceTwin, hfields⟩⟩
  case fits => exact fun place fields hfields => hsound.fits place fields (hthreads.mp hfields).2.2
  case twins =>
    intro place fields hfields
    obtain ⟨hplace, hplaceTwin, hfields⟩ := hthreads.mp hfields
    obtain ⟨partner, partnerFields, hpartner, hpartnerThread, hpartnerBack, hpartnerNe, hidle⟩ :=
      hsound.twins place fields hfields
    -- a thread with a twin among the two is the other of them
    refine ⟨partner, partnerFields, hpartner, hthreads.mpr ⟨?_, ?_, hpartnerThread⟩, hpartnerBack,
      hpartnerNe, hidle⟩
    · rintro rfl
      cases hthread.2.symm.trans hpartnerThread.2
      exact hplaceTwin (Option.some.inj (hpartnerBack.symm.trans htwin))
    · rintro rfl
      cases hother.2.symm.trans hpartnerThread.2
      exact hplace (Option.some.inj (hpartnerBack.symm.trans hback))

end Sound

end PKernel.Scheduling
