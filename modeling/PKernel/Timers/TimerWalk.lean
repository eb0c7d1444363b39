import PKernel.Timers.TimerList

/-! # One walk over the timers

`timer_update` and `timers_update` on timers that lie in a list. A handler that frees its timer
is followed by the subtraction from its ticks and by the read of its `next`.
-/

namespace PKernel.TimerList

open Library.LinkedList
open Timers (TimerState)
open Function (update update_of_ne update_self)

variable {κ ω : Type} {call : κ → ω → Bool × ω} {memory : Memory κ ω} {timer left right : Nat}
  {record : Record κ} {before after timers : List (Nat × Record κ)}

/-! ## Freeing -/

/-- A timer and its neighbours are three. -/
theorem Holds.apart (hlist : Holds memory (before ++ (timer, record) :: after))
    (hleft : (timersHead :: before.map Prod.fst).getLast? = some left)
    (hright : (after.map Prod.fst ++ [timersTail]).head? = some right) :
    left ≠ timer ∧ right ≠ timer ∧ left ≠ right := by
  have hnodup : ((timersHead :: before.map Prod.fst) ++
      (timer :: (after.map Prod.fst ++ [timersTail]))).Nodup := by
    simpa [Holds] using hlist.nodup
  have hmemLeft := List.mem_of_getLast? hleft
  have hmemRight := List.mem_of_mem_head? hright
  obtain ⟨-, hback, hdisjoint⟩ := List.nodup_append.mp hnodup
  refine ⟨hdisjoint _ hmemLeft _ List.mem_cons_self, ?_,
    hdisjoint _ hmemLeft _ (List.mem_cons_of_mem _ hmemRight)⟩
  rintro rfl
  exact (List.nodup_cons.mp hback).1 hmemRight

/-- `timer_free` takes the timer from the list, and leaves its fields. -/
theorem timerFree_spec (hlist : Holds memory (before ++ (timer, record) :: after))
    (hcell : memory.timers timer = some ⟨record, right, left⟩)
    (hleft : (timersHead :: before.map Prod.fst).getLast? = some left)
    (hright : (after.map Prod.fst ++ [timersTail]).head? = some right) :
    ∃ freed, timerFree memory timer = .ok freed ∧ Holds freed (before ++ after) ∧
      freed.timers timer = some ⟨record, right, left⟩ ∧ freed.rest = memory.rest ∧
      freed.trace = memory.trace ++
        [.access timer, .access right, .access timer, .access left, .free timer] := by
  obtain ⟨hneLeft, hneRight, hapart⟩ := hlist.apart hleft hright
  have hrep := hlist.split
  obtain ⟨cellLeft, hcellLeft⟩ : ∃ cell, memory.timers left = some cell := by
    refine Option.isSome_iff_exists.mp (hrep.isSome ?_)
    have hmem := List.mem_of_getLast? hleft
    simp only [List.mem_cons, List.mem_append] at hmem ⊢
    tauto
  obtain ⟨cellRight, hcellRight⟩ : ∃ cell, memory.timers right = some cell := by
    refine Option.isSome_iff_exists.mp (hrep.isSome ?_)
    have hmem := List.mem_of_mem_head? hright
    simp only [List.mem_cons, List.mem_append] at hmem ⊢
    tauto
  have hsecond : update memory.timers right (some { cellRight with prev := left }) timer =
      some ⟨record, right, left⟩ := by
    rw [update_of_ne hneRight.symm, hcell]
  have hthird : update memory.timers right (some { cellRight with prev := left }) left =
      some cellLeft := by
    rw [update_of_ne hapart, hcellLeft]
  refine ⟨⟨update (update memory.timers right
    (some { cellRight with prev := left })) left (some { cellLeft with next := right }),
      memory.rest, memory.trace ++
        [.access timer, .access right, .access timer, .access left, .free timer]⟩, ?_, ?_, ?_,
      rfl, rfl⟩
  · unfold timerFree
    rw [read_of_some hcell, ok_bind]
    simp only
    rw [@write_of_some _ _ (memory.log _) _ cellRight hcellRight, ok_bind,
      read_of_some hsecond, ok_bind]
    simp only
    rw [@write_of_some _ _ _ _ cellLeft hthird]
    simp [Memory.log]
  · have hremove : Represents (update (update memory.timers right
        (some { cellRight with prev := left })) left (some { cellLeft with next := right }))
          timersHead timersTail (before.map Prod.fst ++ after.map Prod.fst)
          (before.map Prod.snd ++ after.map Prod.snd) := by
      refine hrep.remove left right (by simp) hleft hright ?_ ?_ ?_
      · rw [update_self, hcellLeft, Option.map_some]
      · rw [update_of_ne hapart.symm, update_self, hcellRight, Option.map_some]
      · intro kept _ hkeptLeft hkeptRight
        rw [update_of_ne hkeptLeft, update_of_ne hkeptRight]
    simpa [Holds] using hremove
  · exact (update_of_ne hneLeft.symm _ _).trans hsecond

/-! ## One timer -/

/-- The memory when a handler has returned that did not free its timer. -/
def called (call : κ → ω → Bool × ω) (memory : Memory κ ω) (timer : Nat) (record : Record κ) :
    Memory κ ω :=
  { memory with
    rest := (call record.handler memory.rest).2
    trace := memory.trace ++ [.access timer, .call timer] }

theorem callHandler_eq (hcell : memory.timers timer = some ⟨record, right, left⟩) :
    callHandler call memory timer =
      if (call record.handler memory.rest).1 then timerFree (called call memory timer record) timer
      else .ok (called call memory timer record) := by
  unfold callHandler
  rw [read_of_some hcell, ok_bind]
  simp [Memory.log, called]

theorem modify_of_some (hcell : memory.timers timer = some ⟨record, right, left⟩)
    (change : Record κ → Record κ) : memory.modify timer change =
      .ok { memory.log (.access timer) with
        timers := update memory.timers timer (some ⟨change record, right, left⟩) } :=
  write_of_some hcell _

theorem timerUpdate_quiet (hcell : memory.timers timer = some ⟨record, right, left⟩)
    (hdue : record.due = false) : timerUpdate call memory timer =
      .ok ⟨update memory.timers timer (some ⟨record.ticked, right, left⟩), memory.rest,
        memory.trace ++ [.update timer, .access timer, .access timer]⟩ := by
  unfold timerUpdate
  rw [@modify_of_some _ _ (memory.log (.update timer)) _ _ _ _ hcell, ok_bind,
    @read_of_some _ _ _ _ ⟨record.ticked, right, left⟩ (update_self _ _ _), ok_bind]
  unfold Record.due at hdue
  simp only
  cases hstate : record.state with
  | waiting =>
      have hticked : record.ticked.state = .waiting := hstate
      simp only [hstate, decide_eq_false_iff_not] at hdue
      simp only [hticked, if_neg hdue]
      simp [Memory.log]
  | running =>
      have hticked : record.ticked.state = .running := hstate
      simp only [hstate, Bool.and_eq_false_iff, decide_eq_false_iff_not] at hdue
      simp only [hticked]
      rw [if_neg (by tauto)]
      simp [Memory.log]

/-- The memory when the handler of a due timer is called, after some accesses. -/
def atHandler (memory : Memory κ ω) (timer right left : Nat) (record : Record κ) (count : Nat) :
    Memory κ ω :=
  ⟨update memory.timers timer (some ⟨record.ticked.started, right, left⟩), memory.rest,
    memory.trace ++ .update timer :: List.replicate count (.access timer)⟩

/-- A tick that calls the handler gets to it, and then goes on with the timer. -/
theorem timerUpdate_due (hcell : memory.timers timer = some ⟨record, right, left⟩)
    (hdue : record.due = true) : ∃ count, timerUpdate call memory timer = (do
      let memory ← callHandler call (atHandler memory timer right left record count) timer
      memory.modify timer (Record.rewound · record.state)) := by
  unfold timerUpdate
  rw [@modify_of_some _ _ (memory.log (.update timer)) _ _ _ _ hcell, ok_bind,
    @read_of_some _ _ _ _ ⟨record.ticked, right, left⟩ (update_self _ _ _), ok_bind]
  unfold Record.due at hdue
  simp only
  cases hstate : record.state with
  | waiting =>
      have hticked : record.ticked.state = .waiting := hstate
      simp only [hstate, decide_eq_true_eq] at hdue
      refine ⟨3, ?_⟩
      simp only [hticked, if_pos hdue]
      rw [@modify_of_some _ _ _ _ _ _ record.ticked (update_self _ _ _), ok_bind]
      simp [Memory.log, atHandler, List.replicate]
  | running =>
      have hticked : record.ticked.state = .running := hstate
      have hstarted : record.ticked.started = record.ticked := by
        rw [Record.started, ← hticked]
      simp only [hstate, Bool.and_eq_true, decide_eq_true_eq] at hdue
      refine ⟨2, ?_⟩
      simp only [hticked, if_pos hdue]
      simp [Memory.log, atHandler, hstarted, List.replicate]

/-- The tick calls a handler that frees its timer. -/
def frees (call : κ → ω → Bool × ω) (rest : ω) (record : Record κ) : Bool :=
  record.due && (call record.handler rest).1

/-- What the tick of a timer leaves of all else. -/
def restAfter (call : κ → ω → Bool × ω) (rest : ω) (record : Record κ) : ω :=
  if record.due then (call record.handler rest).2 else rest

/-- What is left of the timer itself. -/
def leftOf (call : κ → ω → Bool × ω) (rest : ω) (timer : Nat) (record : Record κ) :
    List (Nat × Record κ) :=
  if frees call rest record then [] else [(timer, record.after)]

/-- What is done in the tick of a timer. -/
structure Ticked (timer : Nat) (due freed : Bool) (events : List Event) : Prop where
  updates : ∀ place, events.count (.update place) = if timer = place then 1 else 0
  calls : ∀ place, events.count (.call place) = if timer = place ∧ due = true then 1 else 0
  kept : freed = false → ∀ place, .free place ∉ events
  dangling : freed = true →
    ∃ first last, events = first ++ .free timer :: last ∧ .access timer ∈ last

/-- A timer that is on no list does not matter to one. -/
theorem Holds.update_off (hlist : Holds memory timers) {other : Memory κ ω} {changed : Option (Cell (Record κ))}
    (hoff : timer ∉ timersHead :: (timers.map Prod.fst ++ [timersTail]))
    (hother : other.timers = update memory.timers timer changed) : Holds other timers := by
  refine hlist.congr fun place hplace => ?_
  rw [hother, update_of_ne]
  rintro rfl
  exact hoff hplace

/-- `timer_update` on a timer of the list. -/
theorem timerUpdate_spec (hlist : Holds memory (before ++ (timer, record) :: after)) :
    ∃ next events, timerUpdate call memory timer = .ok next ∧
      Holds next (before ++ leftOf call memory.rest timer record ++ after) ∧
      next.rest = restAfter call memory.rest record ∧
      (next.timers timer).map Cell.next = (after.map Prod.fst ++ [timersTail]).head? ∧
      next.trace = memory.trace ++ events ∧
      Ticked timer record.due (frees call memory.rest record) events := by
  obtain ⟨left, right, hcell, hleft, hright⟩ := hlist.exists_cell
  rw [hright]
  cases hdue : record.due with
  | false =>
      refine ⟨_, _, timerUpdate_quiet hcell hdue, ?_, ?_, ?_, rfl, ?_⟩
      · have hset : Holds (⟨update memory.timers timer (some ⟨record.ticked, right, left⟩),
            memory.rest, memory.trace ++ [.update timer, .access timer, .access timer]⟩ : Memory κ ω)
            (before ++ (timer, record.ticked) :: after) := hlist.set hcell rfl
        simpa [leftOf, frees, hdue, Record.after] using hset
      · simp [restAfter, hdue]
      · simp
      · constructor
        · intro place
          simp [List.count_cons]
        · intro place
          simp
        · simp
        · simp [frees, hdue]
  | true =>
      obtain ⟨count, hupdate⟩ := timerUpdate_due hcell hdue
      rw [hupdate]
      have hself : (atHandler memory timer right left record count).timers timer =
          some ⟨record.ticked.started, right, left⟩ := update_self _ _ _
      have hstarted : Holds (called call (atHandler memory timer right left record count) timer
          record.ticked.started) (before ++ (timer, record.ticked.started) :: after) :=
        hlist.set hcell rfl
      rw [callHandler_eq hself]
      cases hfrees : (call record.handler memory.rest).1 with
      | false =>
          have hcall : (call record.ticked.started.handler
              (atHandler memory timer right left record count).rest).1 = false := hfrees
          have hrewound := @modify_of_some _ _ (called call
            (atHandler memory timer right left record count) timer record.ticked.started) _ _ _ _
            hself (Record.rewound · record.state)
          rw [if_neg (by simp [hcall]), ok_bind, hrewound]
          refine ⟨_, .update timer :: (List.replicate count (.access timer) ++
            [.access timer, .call timer, .access timer]), rfl, ?_, ?_, ?_, ?_, ?_⟩
          · have hset : Holds (⟨update memory.timers timer (some ⟨record.after, right, left⟩),
                memory.rest, []⟩ : Memory κ ω) (before ++ (timer, record.after) :: after) :=
              hlist.set hcell rfl
            simpa [leftOf, frees, hdue, hfrees, Holds, Record.after, called, atHandler] using hset
          · simp [restAfter, hdue, called, atHandler, Memory.log]
            rfl
          · simp
          · simp [called, atHandler, Memory.log]
          · constructor
            · intro place
              simp [List.count_cons, List.count_append, List.count_replicate]
            · intro place
              simp [List.count_cons, List.count_append, List.count_replicate]
            · simp
            · simp [frees, hdue, hfrees]
      | true =>
          have hcall : (call record.ticked.started.handler
              (atHandler memory timer right left record count).rest).1 = true := hfrees
          rw [if_pos hcall]
          obtain ⟨freed, hfree, hholds, hfreedCell, hrest, htrace⟩ :=
            timerFree_spec hstarted hself hleft hright
          have hoff : timer ∉ timersHead :: ((before ++ after).map Prod.fst ++ [timersTail]) := by
            have hnodup := hlist.nodup
            rw [List.map_append, List.map_cons, List.append_assoc, List.cons_append,
              ← List.cons_append, List.nodup_middle, List.nodup_cons] at hnodup
            simpa using hnodup.1
          rw [hfree, ok_bind, modify_of_some hfreedCell]
          refine ⟨_, .update timer :: (List.replicate count (.access timer) ++ [.access timer,
            .call timer, .access timer, .access right, .access timer, .access left, .free timer,
              .access timer]), rfl, ?_, ?_, ?_, ?_, ?_⟩
          · have hleftOver : Holds { freed.log (.access timer) with
                timers := update freed.timers timer
                  (some ⟨record.ticked.started.rewound record.state, right, left⟩) }
                (before ++ after) := hholds.update_off hoff rfl
            simpa [leftOf, frees, hdue, hfrees] using hleftOver
          · simp [restAfter, hdue, called, atHandler, Memory.log, hrest]
            rfl
          · simp
          · simp [called, atHandler, Memory.log, htrace]
          · constructor
            · intro place
              simp [List.count_cons, List.count_append, List.count_replicate]
            · intro place
              simp [List.count_cons, List.count_append, List.count_replicate]
            · simp [frees, hdue, hfrees]
            · intro _
              exact ⟨.update timer :: (List.replicate count (.access timer) ++ [.access timer,
                .call timer, .access timer, .access right, .access timer, .access left]),
                  [.access timer], by simp, by simp⟩

/-! ## All timers -/

/-- The timers that a walk leaves on the list. -/
def survivors (call : κ → ω → Bool × ω) : ω → List (Nat × Record κ) → List (Nat × Record κ)
  | _, [] => []
  | rest, (timer, record) :: timers =>
      leftOf call rest timer record ++ survivors call (restAfter call rest record) timers

/-- No handler that a walk calls frees its timer. -/
def Spares (call : κ → ω → Bool × ω) : ω → List (Nat × Record κ) → Prop
  | _, [] => True
  | rest, (_, record) :: timers =>
      frees call rest record = false ∧ Spares call (restAfter call rest record) timers

/-- What is done in a walk. -/
structure Walked (call : κ → ω → Bool × ω) (rest : ω) (timers : List (Nat × Record κ))
    (events : List Event) : Prop where
  updates : ∀ place, events.count (.update place) = (timers.map Prod.fst).count place
  calls : ∀ place, events.count (.call place) =
    ((timers.filter fun timer => timer.2.due).map Prod.fst).count place
  kept : Spares call rest timers → ∀ place, .free place ∉ events
  dangling : ¬Spares call rest timers →
    ∃ place first last, events = first ++ .free place :: last ∧ .access place ∈ last

/-- The walk behind one timer more. -/
theorem Walked.cons {rest : ω} {first second : List Event}
    (hticked : Ticked timer record.due (frees call rest record) first)
    (hwalked : Walked call (restAfter call rest record) timers second) :
    Walked call rest ((timer, record) :: timers) (first ++ .access timer :: second) := by
  constructor
  case updates =>
    intro place
    simp [List.count_cons, hticked.updates, hwalked.updates, Nat.add_comm]
  case calls =>
    intro place
    rw [List.count_append, List.count_cons_of_ne (by simp), hticked.calls, hwalked.calls]
    cases hdue : record.due with
    | true => simp [hdue, List.count_cons, Nat.add_comm]
    | false => simp [hdue]
  case kept =>
    rintro ⟨hspares, hrest⟩ place hmem
    rcases List.mem_append.mp hmem with hfirst | hsecond
    · exact hticked.kept hspares place hfirst
    · rcases List.mem_cons.mp hsecond with hsame | hsecond
      · cases hsame
      · exact hwalked.kept hrest place hsecond
  case dangling =>
    intro hspares
    cases hfrees : frees call rest record with
    | true =>
        obtain ⟨front, back, rfl, hmem⟩ := hticked.dangling hfrees
        exact ⟨timer, front, back ++ .access timer :: second, by simp, List.mem_append_left _ hmem⟩
    | false =>
        obtain ⟨place, front, back, rfl, hmem⟩ :=
          hwalked.dangling fun hrest => hspares ⟨hfrees, hrest⟩
        exact ⟨place, first ++ .access timer :: front, back, by simp, hmem⟩

/-- The walk gets from a timer to the end, over the fields of the timers it freed. -/
theorem updateLoop_spec {fuel : Nat} (hlist : Holds memory (before ++ timers))
    (hfirst : (timers.map Prod.fst ++ [timersTail]).head? = some timer)
    (hfuel : timers.length < fuel) :
    ∃ next events, updateLoop call fuel memory timer = .ok next ∧
      Holds next (before ++ survivors call memory.rest timers) ∧
      next.trace = memory.trace ++ events ∧ Walked call memory.rest timers events := by
  induction timers generalizing memory before timer fuel with
  | nil =>
      obtain ⟨fuel, rfl⟩ := Nat.exists_eq_succ_of_ne_zero (Nat.pos_iff_ne_zero.mp hfuel)
      obtain rfl : timersTail = timer := Option.some.inj hfirst
      refine ⟨memory, [], ?_, hlist, (List.append_nil _).symm, ?_⟩
      · rw [updateLoop, if_pos rfl, pure_eq_ok]
      · exact ⟨by simp, by simp, by simp, by simp [Spares]⟩
  | cons item timers ih =>
      obtain ⟨place, record⟩ := item
      obtain ⟨fuel, rfl⟩ := Nat.exists_eq_succ_of_ne_zero (Nat.pos_iff_ne_zero.mp (Nat.zero_lt_of_lt hfuel))
      obtain rfl : place = timer := Option.some.inj hfirst
      have hne : place ≠ timersTail := by
        rintro rfl
        exact hlist.tail_notMem (by simp)
      obtain ⟨updated, first, hupdate, hholds, hrest, hnext, htrace, hticked⟩ :=
        timerUpdate_spec hlist
      obtain ⟨right, hright⟩ : ∃ right, (timers.map Prod.fst ++ [timersTail]).head? = some right :=
        ⟨_, List.head?_eq_some_head (List.append_ne_nil_of_right_ne_nil _ (List.cons_ne_nil _ _))⟩
      rw [hright] at hnext
      obtain ⟨cell, hcell, rfl⟩ := Option.map_eq_some_iff.mp hnext
      obtain ⟨next, second, hloop, hleft, hlast, hwalked⟩ :=
        @ih (updated.log (.access place)) _ _ _ hholds hright (Nat.lt_of_succ_lt_succ hfuel)
      have hsame : (updated.log (.access place)).rest = restAfter call memory.rest record := hrest
      rw [hsame] at hleft hwalked
      refine ⟨next, first ++ .access place :: second, ?_, ?_, ?_, .cons hticked hwalked⟩
      · rw [updateLoop, if_neg hne, hupdate, ok_bind, read_of_some hcell, ok_bind]
        exact hloop
      · rw [survivors, ← List.append_assoc]
        exact hleft
      · rw [hlast, Memory.log, htrace]
        simp

/-- `timers_update`. -/
theorem timersUpdate_spec {fuel : Nat} (hlist : Holds memory timers) (hfuel : timers.length < fuel) :
    ∃ next events, timersUpdate call fuel memory = .ok next ∧
      Holds next (survivors call memory.rest timers) ∧
      next.trace = memory.trace ++ .access timersHead :: events ∧
      Walked call memory.rest timers events := by
  obtain ⟨first, hfirst⟩ : ∃ first, (timers.map Prod.fst ++ [timersTail]).head? = some first :=
    ⟨_, List.head?_eq_some_head (List.append_ne_nil_of_right_ne_nil _ (List.cons_ne_nil _ _))⟩
  have hhead := hlist.next_head
  rw [hfirst] at hhead
  obtain ⟨cell, hcell, rfl⟩ := Option.map_eq_some_iff.mp hhead
  obtain ⟨next, events, hloop, hholds, htrace, hwalked⟩ :=
    @updateLoop_spec _ _ call (memory.log (.access timersHead)) _ [] _ _ hlist hfirst hfuel
  refine ⟨next, events, ?_, hholds, ?_, hwalked⟩
  · rw [timersUpdate, read_of_some hcell, ok_bind]
    exact hloop
  · rw [htrace, Memory.log]
    simp

/-! ## Freed timers -/

/-- A walk updates the timers of a list once each, and touches none that has been freed. -/
structure UpdatedSafely (timers : List (Nat × Record κ)) (events : List Event) : Prop where
  once : ∀ place, events.count (.update place) = if place ∈ timers.map Prod.fst then 1 else 0
  safe : ∀ first last place, events = first ++ .free place :: last → .access place ∉ last

/-- What one call of `timers_update` does. -/
def UpdatesSafely (call : κ → ω → Bool × ω) (memory : Memory κ ω)
    (timers : List (Nat × Record κ)) : Prop :=
  ∃ enough, ∀ fuel, enough ≤ fuel → ∃ next events, timersUpdate call fuel memory = .ok next ∧
    next.trace = memory.trace ++ events ∧ UpdatedSafely timers events

theorem UpdatesSafely.spares (hupdates : UpdatesSafely call memory timers)
    (hlist : Holds memory timers) : Spares call memory.rest timers := by
  obtain ⟨enough, hupdates⟩ := hupdates
  obtain ⟨next, events, hcall, htrace, hsafe⟩ :=
    hupdates (max enough (timers.length + 1)) (Nat.le_max_left _ _)
  obtain ⟨twin, walked, htwin, -, htwinTrace, hwalked⟩ := timersUpdate_spec hlist
    (Nat.lt_of_lt_of_le (Nat.lt_succ_self _) (Nat.le_max_right enough (timers.length + 1)))
  obtain rfl : next = twin := Except.ok.inj (hcall.symm.trans htwin)
  obtain rfl : events = .access timersHead :: walked :=
    List.append_cancel_left (htrace.symm.trans htwinTrace)
  by_contra hspares
  obtain ⟨place, first, last, rfl, hmem⟩ := hwalked.dangling hspares
  exact hsafe.safe (.access timersHead :: first) last place (by simp) hmem

/-- A walk is safe exactly if no handler that it calls frees its timer. Such a timer is written to
when its handler returns. -/
theorem updatesSafely_iff (hlist : Holds memory timers) :
    UpdatesSafely call memory timers ↔ Spares call memory.rest timers := by
  constructor
  · exact fun hupdates => hupdates.spares hlist
  · intro hspares
    refine ⟨timers.length + 1, fun fuel hfuel => ?_⟩
    obtain ⟨next, walked, hcall, -, htrace, hwalked⟩ := timersUpdate_spec hlist hfuel
    refine ⟨next, _, hcall, htrace, ?_, ?_⟩
    · intro place
      have hnodup : (timers.map Prod.fst).Nodup :=
        ((List.nodup_cons.mp hlist.nodup).2).of_append_left
      rw [List.count_cons_of_ne (by simp), hwalked.updates, hnodup.count]
    · intro first last place hevents _
      have hfree : .free place ∈ Event.access timersHead :: walked := by
        rw [hevents]
        simp
      rcases List.mem_cons.mp hfree with hsame | hmem
      · cases hsame
      · exact hwalked.kept hspares place hmem

/-- The three handlers of the kernel: those of `syscall_alarm` and `syscall_nanosleep` free their
timer. -/
def kernelHandler : Timers.Handler → Unit → Bool × Unit
  | .alarm _, rest => (true, rest)
  | .nanosleep _, rest => (true, rest)
  | .blink, rest => (false, rest)

/-- A timer that is due at once, in a list of its own. -/
theorem exists_single (handler : Timers.Handler) : ∃ memory : Memory Timers.Handler Unit,
    Holds memory [(3, ⟨.waiting, 0, 0, 0, handler⟩)] := by
  have hempty := timersInit_holds (⟨.waiting, 0, 0, 0, handler⟩ : Record Timers.Handler) ()
  obtain ⟨made, -, hholds, -⟩ := timerInit_spec hempty (by decide : 3 ∉ [timersHead, timersTail])
    handler 0 0
  exact ⟨made, hholds⟩

/-- The cursor blinks. -/
theorem updatesSafely_blink : ∃ memory : Memory Timers.Handler Unit,
    UpdatesSafely kernelHandler memory [(3, ⟨.waiting, 0, 0, 0, .blink⟩)] := by
  obtain ⟨memory, hlist⟩ := exists_single .blink
  exact ⟨memory, (updatesSafely_iff hlist).mpr ⟨rfl, trivial⟩⟩

/-- A sleep is over, and its timer is written to behind `heap_free`. -/
theorem not_updatesSafely_nanosleep : ∃ memory : Memory Timers.Handler Unit,
    Holds memory [(3, ⟨.waiting, 0, 0, 0, .nanosleep 0⟩)] ∧
      ¬UpdatesSafely kernelHandler memory [(3, ⟨.waiting, 0, 0, 0, .nanosleep 0⟩)] := by
  obtain ⟨memory, hlist⟩ := exists_single (.nanosleep 0)
  refine ⟨memory, hlist, fun hupdates => ?_⟩
  have hspares : true = false := (hupdates.spares hlist).1
  cases hspares

end PKernel.TimerList
