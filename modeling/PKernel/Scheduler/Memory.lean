import PKernel.Scheduler.Operations

/-! # What the calls do to memory

Each change of a thread's fields, and each change of a list, told by what is afterwards
in the cells, without regard to what the lists mean.
-/

namespace PKernel.Scheduling

open Library.LinkedList
open Function (update update_apply update_comm update_eq_self update_idem update_of_ne update_self)

section Cells

variable {α : Type} {store : Store α} {place : Nat} {cell : Cell α}

theorem readCell_of_eq (hcell : store place = some cell) : readCell store place = .ok cell := by
  rw [readCell, hcell]

theorem writeCell_of_eq (hcell : store place = some cell) (change : Cell α → Cell α) :
    writeCell store place change = .ok (update store place (some (change cell))) := by
  rw [writeCell, readCell_of_eq hcell, ok_bind]
  rfl

variable {ι : Type} [DecidableEq ι] {live : ι → Prop} {head tail : ι → Nat} {places : ι → List Nat}

/-- A cell that is in no list gets its place at the end of one. -/
theorem linkLast_of_family (hfamily : Family store live head tail places) (index : ι)
    (hlive : live index) (hcell : store place = some cell)
    (hfresh : ∀ second, live second → place ∉ head second :: (places second ++ [tail second])) :
    ∃ other, linkLast store (tail index) place = .ok other ∧
      Family other live head tail (update places index (places index ++ [place])) ∧
      (∀ kept, (other kept).map Cell.value = (store kept).map Cell.value) ∧
      ∀ kept, kept ≠ place →
        (∀ second, live second → kept ∉ head second :: (places second ++ [tail second])) →
        other kept = store kept := by
  have hstrung := hfamily.strung index hlive
  obtain ⟨last, hlast⟩ : ∃ last, (head index :: places index).getLast? = some last :=
    ⟨_, List.getLast?_eq_some_getLast (List.cons_ne_nil _ _)⟩
  have hlastMem : last ∈ head index :: (places index ++ [tail index]) := by
    rw [← List.cons_append]
    exact List.mem_append_left _ (List.mem_of_getLast? hlast)
  have htailMem : tail index ∈ head index :: (places index ++ [tail index]) := by simp
  obtain ⟨lastCell, hlastCell⟩ := Option.isSome_iff_exists.mp (hstrung.isSome hlastMem)
  obtain ⟨tailCell, htailCell⟩ := Option.isSome_iff_exists.mp (hstrung.isSome htailMem)
  have hprev : tailCell.prev = last := by
    have := hstrung.prev_tail
    rw [htailCell, hlast] at this
    simpa using this
  have hplaceLast : last ≠ place := fun hsame => hfresh index hlive (hsame ▸ hlastMem)
  have hplaceTail : tail index ≠ place := fun hsame => hfresh index hlive (hsame ▸ htailMem)
  have hlastTail : last ≠ tail index := by
    rintro rfl
    have hnodup := hstrung.nodup
    rw [← List.cons_append, List.nodup_append] at hnodup
    exact hnodup.2.2 _ (List.mem_of_getLast? hlast) _ (by simp) rfl
  generalize hother : update (update (update store place
    (some { cell with prev := last, next := tail index })) last
      (some { lastCell with next := place })) (tail index)
        (some { tailCell with prev := place }) = other
  have hotherPlace : other place = some ⟨cell.value, tail index, last⟩ := by
    rw [← hother, update_of_ne hplaceTail.symm, update_of_ne hplaceLast.symm,
      update_self]
  have hotherLast : other last = some { lastCell with next := place } := by
    rw [← hother, update_of_ne hlastTail, update_self]
  have hotherTail : other (tail index) = some { tailCell with prev := place } := by
    rw [← hother, update_self]
  have hotherRest : ∀ kept, kept ≠ place → kept ≠ last → kept ≠ tail index →
      other kept = store kept := by
    intro kept hkept hkeptLast hkeptTail
    rw [← hother, update_of_ne hkeptTail, update_of_ne hkeptLast,
      update_of_ne hkept]
  refine ⟨other, ?_, ?_, ?_, fun kept hkept hout => hotherRest kept hkept
    (fun hsame => hout index hlive (hsame ▸ hlastMem))
    (fun hsame => hout index hlive (hsame ▸ htailMem))⟩
  · simp only [linkLast, readCell_of_eq htailCell, ok_bind, hprev, writeCell_of_eq hcell]
    rw [writeCell_of_eq (by rw [update_of_ne hplaceLast]; exact hlastCell), ok_bind,
      writeCell_of_eq (by
        rw [update_of_ne hlastTail.symm, update_of_ne hplaceTail]
        exact htailCell), hother]
  · refine hfamily.append hlive hlast hfresh hotherPlace ?_ ?_ hotherRest
    · rw [hotherLast, hlastCell]
      rfl
    · rw [hotherTail, htailCell]
      rfl
  · intro kept
    by_cases hkept : kept = place
    · rw [hkept, hotherPlace, hcell]
      rfl
    by_cases hkeptLast : kept = last
    · rw [hkeptLast, hotherLast, hlastCell]
      rfl
    by_cases hkeptTail : kept = tail index
    · rw [hkeptTail, hotherTail, htailCell]
      rfl
    rw [hotherRest kept hkept hkeptLast hkeptTail]

/-- The store without a cell in its list: its neighbours point at each other. -/
def unlinked (store : Store α) (left right : Nat) : Store α :=
  update
    (update store left ((store left).map fun cell => { cell with next := right })) right
    ((store right).map fun cell => { cell with prev := left })

theorem unlinked_value (left right kept : Nat) :
    (unlinked store left right kept).map Cell.value = (store kept).map Cell.value := by
  unfold unlinked
  simp only [update_apply]
  split_ifs with hright hleft
  · rw [hright, Option.map_map]
    rfl
  · rw [hleft, Option.map_map]
    rfl
  · rfl

/-- Cells that point at each other already stay what they are. -/
theorem unlinked_of_joined {left right : Nat} (hjoined : Joined store left right) :
    unlinked store left right = store := by
  obtain ⟨leftCell, hleft, rfl⟩ := Option.map_eq_some_iff.mp hjoined.1
  obtain ⟨rightCell, hright, rfl⟩ := Option.map_eq_some_iff.mp hjoined.2
  unfold unlinked
  rw [hleft, hright, Option.map_some, Option.map_some, ← hleft, update_eq_self, ← hright,
    update_eq_self]

/-- A cell of a list, with what there is around it. -/
theorem unlinked_of_family (hfamily : Family store live head tail places) {index : ι}
    (hlive : live index) (before : List Nat) {after : List Nat} (hplaces : places index = before ++ place :: after) :
    ∃ left right cell, store place = some cell ∧ cell.prev = left ∧ cell.next = right ∧
      (head index :: before).getLast? = some left ∧ (after ++ [tail index]).head? = some right ∧
      (store left).isSome = true ∧ (store right).isSome = true ∧ left ≠ place ∧ right ≠ place ∧
      left ≠ right ∧
      Family (unlinked store left right) live head tail
        (update places index (before ++ after)) ∧
      ∀ second, live second → place ∉ head second ::
        (update places index (before ++ after) second ++ [tail second]) := by
  have hstrung := hfamily.strung index hlive
  rw [hplaces] at hstrung
  obtain ⟨left, right, hleft, hright, hjoinedLeft, hjoinedRight⟩ := hstrung.neighbours
  obtain ⟨cell, hcell, hprev⟩ := Option.map_eq_some_iff.mp hjoinedLeft.2
  have hnext : cell.next = right := by
    have := hjoinedRight.1
    rw [hcell] at this
    simpa using this
  have hnodup : ((head index :: before) ++ place :: (after ++ [tail index])).Nodup := by
    simpa using hstrung.nodup
  obtain ⟨-, hbehind, hapart⟩ := List.nodup_append.mp hnodup
  have hnotAfter := (List.nodup_cons.mp hbehind).1
  have hleftMem := List.mem_of_getLast? hleft
  have hrightMem := List.mem_of_mem_head? hright
  have hplaceLeft : left ≠ place := hapart left hleftMem place List.mem_cons_self
  have hplaceRight : right ≠ place := fun hsame => hnotAfter (hsame ▸ hrightMem)
  have hleftRight : left ≠ right := hapart left hleftMem right (List.mem_cons_of_mem _ hrightMem)
  refine ⟨left, right, cell, hcell, hprev, hnext, hleft, hright, ?_, ?_, hplaceLeft, hplaceRight, hleftRight,
    ?_, ?_⟩
  · exact Option.isSome_of_eq_some (Option.map_eq_some_iff.mp hjoinedLeft.1).choose_spec.1
  · exact Option.isSome_of_eq_some (Option.map_eq_some_iff.mp hjoinedRight.2).choose_spec.1
  · refine hfamily.remove hlive hplaces hleft hright ?_ ?_ ?_
    · rw [unlinked, update_of_ne hleftRight, update_self]
    · rw [unlinked, update_self]
    · intro kept _ hkeptLeft hkeptRight
      rw [unlinked, update_of_ne hkeptRight, update_of_ne hkeptLeft]
  · intro second hsecond hmem
    by_cases hsame : second = index
    · subst hsame
      rw [update_self, List.append_assoc, ← List.cons_append] at hmem
      rcases List.mem_append.mp hmem with hmem | hmem
      · exact hapart place hmem place List.mem_cons_self rfl
      · exact hnotAfter hmem
    · rw [update_of_ne hsame] at hmem
      exact hsame (hfamily.eq_of_mem hsecond hlive hmem (by simp [hplaces]))

end Cells

variable {memory : Memory} {thread : Nat} {record : Thread}

/-! ## Fields of threads -/

namespace Memory

def thread? (memory : Memory) (thread : Nat) : Option Thread :=
  (memory.threads thread).map Cell.value

/-- The memory with other fields of a thread. -/
def put (memory : Memory) (thread : Nat) (change : Thread → Thread) : Memory :=
  { memory with
    threads := update memory.threads thread
      ((memory.threads thread).map fun cell => { cell with value := change cell.value }) }

theorem put_threads_self (change : Thread → Thread) : (memory.put thread change).threads thread =
    (memory.threads thread).map fun cell => { cell with value := change cell.value } :=
  update_self ..

theorem put_threads_of_ne {other : Nat} (hne : other ≠ thread) (change : Thread → Thread) :
    (memory.put thread change).threads other = memory.threads other :=
  update_of_ne hne ..

theorem put_waiters (change : Thread → Thread) : (memory.put thread change).waiters = memory.waiters :=
  rfl

theorem thread?_put (change : Thread → Thread) (other : Nat) :
    (memory.put thread change).thread? other =
      if other = thread then (memory.thread? thread).map change else memory.thread? other := by
  simp only [thread?, put]
  by_cases hsame : other = thread
  · subst hsame
    rw [update_self, if_pos rfl, Option.map_map, Option.map_map]
    rfl
  · rw [update_of_ne hsame, if_neg hsame]

theorem thread?_put_self (hthread : memory.thread? thread = some record)
    (change : Thread → Thread) : (memory.put thread change).thread? thread = some (change record) := by
  rw [thread?_put, if_pos rfl, hthread]
  rfl

theorem thread?_put_of_ne {other : Nat} (hne : other ≠ thread) (change : Thread → Thread) :
    (memory.put thread change).thread? other = memory.thread? other := by
  rw [thread?_put, if_neg hne]

theorem thread?_put_apply (change : Thread → Thread) (other : Nat) :
    (memory.put thread change).thread? other =
      if other = thread then (memory.thread? other).map change else memory.thread? other := by
  rw [thread?_put]
  split
  next hsame => rw [hsame]
  next => rfl

/-- A change that changes nothing. -/
theorem put_self (hthread : memory.thread? thread = some record) {change : Thread → Thread}
    (hchange : change record = record) : memory.put thread change = memory := by
  obtain ⟨cell, hcell, rfl⟩ := Option.map_eq_some_iff.mp hthread
  unfold put
  have hsame : update memory.threads thread (some cell) = memory.threads := by
    rw [← hcell, update_eq_self]
  simp only [hcell, Option.map_some, hchange, hsame]

theorem put_put (first second : Thread → Thread) :
    (memory.put thread first).put thread second = memory.put thread (second ∘ first) := by
  unfold put
  simp only [update_self, update_idem, Option.map_map]
  rfl

theorem family_put {queue : ThreadPriority → List Nat} {change : Thread → Thread}
    (hfamily : Family memory.threads (fun _ => True) queueHead queueTail queue) :
    Family (memory.put thread change).threads (fun _ => True) queueHead queueTail queue := by
  refine hfamily.congr fun priority _ place _ => ?_
  unfold put
  by_cases hsame : place = thread
  · subst hsame
    simp only [update_self, Option.map_map]
    constructor <;> rfl
  · simp only [update_of_ne hsame, and_self]

theorem readThread_of_eq (hthread : memory.thread? thread = some record) :
    memory.readThread thread = .ok record := by
  obtain ⟨cell, hcell, rfl⟩ := Option.map_eq_some_iff.mp hthread
  rw [readThread, readCell_of_eq hcell]
  rfl

theorem setThread_of_eq (hthread : memory.thread? thread = some record) (change : Thread → Thread) :
    memory.setThread thread change = .ok (memory.put thread change) := by
  obtain ⟨cell, hcell, rfl⟩ := Option.map_eq_some_iff.mp hthread
  rw [setThread, writeCell_of_eq hcell, put, hcell]
  rfl

theorem setState_of_eq (hthread : memory.thread? thread = some record) (state : ThreadState) :
    memory.setState thread state = .ok (memory.put thread fun record => { record with state }) :=
  setThread_of_eq hthread _

end Memory

/-- Two cells of threads are made to point at each other. -/
def Memory.unlink (memory : Memory) (left right : Nat) : Memory :=
  { memory with threads := unlinked memory.threads left right }

theorem Memory.thread?_unlink (left right other : Nat) :
    (memory.unlink left right).thread? other = memory.thread? other :=
  unlinked_value left right other

/-- The fields of a third thread change before or after. -/
theorem Memory.unlink_put {left right : Nat} (hleft : thread ≠ left) (hright : thread ≠ right)
    (change : Thread → Thread) :
    (memory.put thread change).unlink left right = (memory.unlink left right).put thread change := by
  unfold unlink put unlinked
  simp only [update_of_ne hleft, update_of_ne hright,
    update_of_ne hleft.symm, update_of_ne hright.symm, mk.injEq, and_true]
  rw [update_comm hleft, update_comm hright]

/-! ## Lists -/

section Lists

variable {queue : ThreadPriority → List Nat}

theorem schedulerQueue_of_family
    (hfamily : Family memory.threads (fun _ => True) queueHead queueTail queue)
    (hthread : memory.thread? thread = some record)
    (hstate : record.state = .running ∨ record.state = .dead)
    (hout : ∀ priority, thread ∉ queueHead priority :: (queue priority ++ [queueTail priority])) :
    ∃ threads, schedulerQueue thread memory = .ok { memory with threads } ∧
      Family threads (fun _ => True) queueHead queueTail
        (update queue record.priority (queue record.priority ++ [thread])) ∧
      (∀ kept, (threads kept).map Cell.value = memory.thread? kept) ∧
      ∀ kept, kept ≠ thread →
        (∀ priority, kept ∉ queueHead priority :: (queue priority ++ [queueTail priority])) →
        threads kept = memory.threads kept := by
  obtain ⟨cell, hcell, -⟩ := Option.map_eq_some_iff.mp hthread
  obtain ⟨threads, hlink, hqueues, hvalues, hrest⟩ := linkLast_of_family hfamily record.priority
    trivial hcell fun priority _ => hout priority
  refine ⟨threads, ?_, hqueues, hvalues, fun kept hkept hfree =>
    hrest kept hkept fun priority _ => hfree priority⟩
  rw [schedulerQueue, Memory.readThread_of_eq hthread, ok_bind, if_pos hstate, hlink]
  rfl

/-- The states that `scheduler_queue` does not accept. -/
theorem schedulerQueue_of_other (hthread : memory.thread? thread = some record)
    (hrunning : record.state ≠ .running) (hdead : record.state ≠ .dead) :
    schedulerQueue thread memory = .ok memory := by
  rw [schedulerQueue, Memory.readThread_of_eq hthread, ok_bind, if_neg (by simp [hrunning, hdead])]
  rfl

/-- `thread_run` forgets the state of a thread that does not run. -/
theorem threadRun_eq (hthread : memory.thread? thread = some record)
    (hrunning : record.state ≠ .running) : threadRun thread memory =
      schedulerQueue thread (memory.put thread fun record => { record with state := .running }) := by
  rw [threadRun, Memory.readThread_of_eq hthread, ok_bind, if_pos hrunning,
    Memory.setState_of_eq hthread, ok_bind]

theorem dequeue_of_family
    (hfamily : Family memory.threads (fun _ => True) queueHead queueTail queue)
    {priority : ThreadPriority} {rest : List Nat} (hqueue : queue priority = thread :: rest) :
    ∃ threads, dequeue thread memory = .ok { memory with threads } ∧
      Family threads (fun _ => True) queueHead queueTail (update queue priority rest) ∧
      (∀ kept, (threads kept).map Cell.value = memory.thread? kept) ∧
      ∃ cell, threads thread = some cell ∧ cell.prev = queueHead priority ∧
        (rest ++ [queueTail priority]).head? = some cell.next := by
  obtain ⟨left, right, cell, hcell, rfl, rfl, hlast, hfirst, hleft, hright, hneLeft, hneRight, hne,
    hqueues, -⟩ := unlinked_of_family hfamily trivial [] hqueue
  refine ⟨unlinked memory.threads cell.prev cell.next, ?_, hqueues,
    fun kept => unlinked_value _ _ kept, cell, ?linked, (Option.some.inj hlast).symm, hfirst⟩
  case linked =>
    rw [unlinked, update_of_ne hneRight.symm, update_of_ne hneLeft.symm, hcell]
  obtain ⟨leftCell, hleftCell⟩ := Option.isSome_iff_exists.mp hleft
  obtain ⟨rightCell, hrightCell⟩ := Option.isSome_iff_exists.mp hright
  rw [dequeue, readCell_of_eq hcell, ok_bind, writeCell_of_eq hleftCell, ok_bind,
    readCell_of_eq (by rw [update_of_ne hneLeft.symm]; exact hcell), ok_bind,
    writeCell_of_eq (by rw [update_of_ne hne.symm]; exact hrightCell), ok_bind, unlinked,
    hleftCell, hrightCell]
  rfl

theorem waiterFree_of_family {live : Nat → Prop} {waiters : Nat → List Nat}
    (hfamily : Family memory.waiters live waiterHead waiterTail waiters) {event waiter : Nat}
    (hlive : live event) {before after : List Nat} (hwaiters : waiters event = before ++ waiter :: after) :
    ∃ store, waiterFree waiter memory = .ok { memory with waiters := store } ∧
      Family store live waiterHead waiterTail (update waiters event (before ++ after)) ∧
      ∀ kept, kept ≠ waiter → (store kept).map Cell.value = (memory.waiters kept).map Cell.value := by
  obtain ⟨left, right, cell, hcell, rfl, rfl, -, -, hleft, hright, hneLeft, hneRight, hne, hlists,
    hout⟩ := unlinked_of_family hfamily hlive before hwaiters
  obtain ⟨leftCell, hleftCell⟩ := Option.isSome_iff_exists.mp hleft
  obtain ⟨rightCell, hrightCell⟩ := Option.isSome_iff_exists.mp hright
  refine ⟨update (unlinked memory.waiters cell.prev cell.next) waiter none, ?_, ?_, ?_⟩
  · rw [waiterFree, readCell_of_eq hcell, ok_bind, writeCell_of_eq hrightCell, ok_bind,
      readCell_of_eq (by rw [update_of_ne hneRight.symm]; exact hcell), ok_bind,
      writeCell_of_eq (by rw [update_of_ne hne]; exact hleftCell), ok_bind, unlinked,
      hleftCell, hrightCell, update_comm hne]
    rfl
  · refine hlists.congr fun second hsecond place hplace => ?_
    have hkept : place ≠ waiter := fun hsame => hout second hsecond (hsame ▸ hplace)
    rw [update_of_ne hkept]
    exact ⟨rfl, rfl⟩
  · intro kept hkept
    rw [update_of_ne hkept]
    exact unlinked_value _ _ kept

/-- A thread that does not wait for an event is freed without its lists. -/
theorem threadRelease_of_eq (hthread : memory.thread? thread = some record)
    (hstate : record.state ≠ .uninterruptableWait) : threadRelease thread memory =
      .ok { memory with threads := update memory.threads thread none } := by
  rw [threadRelease, Memory.readThread_of_eq hthread, ok_bind, if_neg hstate]
  rfl

end Lists

end PKernel.Scheduling
