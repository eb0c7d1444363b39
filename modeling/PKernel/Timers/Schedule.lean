import PKernel.Timers.TimerWalk

/-! # When handlers are called

The ticks of a timer, as its state says what they are compared with, count the calls of
`timers_update` since its last call. Whatever else happens to the list meanwhile, the handler is
called as often as the two periods of the timer say.
-/

namespace PKernel.TimerList

open Library.LinkedList
open Timers (TimerState)

variable {κ ω : Type} {call : κ → ω → Bool × ω} {memory next made later : Memory κ ω}
  {timer startTicks intervalTicks count : Nat} {handler : κ} {record : Record κ}
  {timers : List (Nat × Record κ)}

/-- Some calls of `timers_update`, while other timers are made and freed and everything else
changes. One timer is only freed by its handler. -/
inductive Runs (call : κ → ω → Bool × ω) (kept : Nat) (start : Memory κ ω) :
    Nat → Memory κ ω → Prop
  | refl : Runs call kept start 0 start
  | update {count fuel : Nat} {memory next : Memory κ ω} (hruns : Runs call kept start count memory)
      (hcall : timersUpdate call fuel memory = .ok next) : Runs call kept start (count + 1) next
  | init {count timer startTicks intervalTicks : Nat} {memory next : Memory κ ω} {handler : κ}
      {timers : List (Nat × Record κ)} (hruns : Runs call kept start count memory)
      (hlist : Holds memory timers)
      (hfresh : timer ∉ timersHead :: (timers.map Prod.fst ++ [timersTail]))
      (hcall : timerInit memory timer handler startTicks intervalTicks = .ok next) :
      Runs call kept start count next
  | free {count timer : Nat} {memory next : Memory κ ω} {record : Record κ}
      {before after : List (Nat × Record κ)} (hruns : Runs call kept start count memory)
      (hlist : Holds memory (before ++ (timer, record) :: after)) (hkept : timer ≠ kept)
      (hcall : timerFree memory timer = .ok next) : Runs call kept start count next
  | other {count : Nat} {memory : Memory κ ω} (hruns : Runs call kept start count memory)
      (rest : ω) : Runs call kept start count { memory with rest }

/-- The calls of a handler so far. -/
def calls (memory : Memory κ ω) (timer : Nat) : Nat := memory.trace.count (.call timer)

/-- The calls that the periods of a timer ask for. -/
def scheduledCalls (startTicks intervalTicks count : Nat) : Nat :=
  if count < startTicks then 0
  else if intervalTicks = 0 then 1
  else 1 + (count - startTicks) / intervalTicks

/-! ## The ticks of one timer -/

/-- A timer some ticks after it was made. -/
structure Phase (handler : κ) (startTicks intervalTicks count : Nat) (record : Record κ) : Prop where
  handler : record.handler = handler
  start : record.startTicks = startTicks
  interval : record.intervalTicks = intervalTicks
  waiting : count < startTicks → record.state = .waiting ∧ record.currentTicks = count
  running : startTicks ≤ count → record.state = .running ∧
    (intervalTicks ≠ 0 → record.currentTicks = (count - startTicks) % intervalTicks)

/-- A remainder that is followed by the divisor, or by the next remainder. -/
theorem div_mod_succ (number : Nat) {divisor : Nat} (hpos : divisor ≠ 0) :
    (number % divisor + 1 = divisor ∧ (number + 1) % divisor = 0 ∧
        (number + 1) / divisor = number / divisor + 1) ∨
      (number % divisor + 1 < divisor ∧ (number + 1) % divisor = number % divisor + 1 ∧
        (number + 1) / divisor = number / divisor) := by
  have hlt : number % divisor < divisor := Nat.mod_lt _ (Nat.pos_of_ne_zero hpos)
  have hsum := Nat.div_add_mod number divisor
  rcases Nat.lt_or_ge (number % divisor + 1) divisor with hbelow | hreached
  · refine .inr ⟨hbelow, ?_⟩
    have hnumber : number + 1 = number % divisor + 1 + divisor * (number / divisor) := by omega
    rw [hnumber, Nat.add_mul_mod_self_left, Nat.mod_eq_of_lt hbelow,
      Nat.add_mul_div_left _ _ (Nat.pos_of_ne_zero hpos), Nat.div_eq_of_lt hbelow, Nat.zero_add]
    exact ⟨rfl, rfl⟩
  · have hend : number % divisor + 1 = divisor := by omega
    refine .inl ⟨hend, ?_⟩
    have hnumber : number + 1 = divisor * (number / divisor + 1) := by
      rw [Nat.mul_add, Nat.mul_one]
      omega
    rw [hnumber, Nat.mul_mod_right, Nat.mul_div_cancel_left _ (Nat.pos_of_ne_zero hpos)]
    exact ⟨rfl, rfl⟩

theorem Phase.due (hphase : Phase handler startTicks intervalTicks count record)
    (hstart : startTicks < 2 ^ 64) (hinterval : intervalTicks < 2 ^ 64) :
    record.due = true ↔ count + 1 = startTicks ∨ startTicks ≤ count ∧ intervalTicks ≠ 0 ∧
      (count - startTicks) % intervalTicks + 1 = intervalTicks := by
  rcases Nat.lt_or_ge count startTicks with hbefore | hbehind
  · obtain ⟨hstate, hticks⟩ := hphase.waiting hbefore
    have hticked : u64 (record.currentTicks + 1) = count + 1 := by
      rw [hticks, u64_eq_self (by omega)]
    simp only [Record.due, hstate, Record.ticked, hticked, hphase.start, decide_eq_true_eq]
    omega
  · obtain ⟨hstate, hticks⟩ := hphase.running hbehind
    simp only [Record.due, hstate, Record.ticked, hphase.interval, Bool.and_eq_true,
      decide_eq_true_eq]
    by_cases hzero : intervalTicks = 0
    · simp only [hzero, ne_eq, not_true_eq_false, false_and, and_false, or_false, false_iff]
      omega
    · have hlt : (count - startTicks) % intervalTicks < intervalTicks :=
        Nat.mod_lt _ (Nat.pos_of_ne_zero hzero)
      rw [hticks hzero, u64_eq_self (by omega)]
      simp only [hzero, ne_eq, not_false_eq_true, true_and]
      omega

/-- The next tick. -/
theorem Phase.after (hphase : Phase handler startTicks intervalTicks count record)
    (hpos : 1 ≤ startTicks) (hstart : startTicks < 2 ^ 64) (hinterval : intervalTicks < 2 ^ 64) :
    Phase handler startTicks intervalTicks (count + 1) record.after := by
  have hdue := hphase.due hstart hinterval
  rw [Record.after]
  split
  next hfires =>
    refine ⟨hphase.handler, hphase.start, hphase.interval, ?_, fun _ => ⟨rfl, fun hne => ?_⟩⟩
    · rcases hdue.mp hfires with hreached | ⟨hbehind, -⟩ <;> omega
    · rcases hdue.mp hfires with hreached | ⟨hbehind, -, hend⟩
      · obtain ⟨hstate, hticks⟩ := hphase.waiting (by omega)
        simp only [Record.rewound, Record.started, Record.ticked, Record.period, hstate, hticks,
          hphase.start, u64]
        rw [show count + 1 - startTicks = 0 by omega, Nat.zero_mod]
        omega
      · obtain ⟨hstate, hticks⟩ := hphase.running hbehind
        rcases div_mod_succ (count - startTicks) hne with ⟨-, hmod, -⟩ | ⟨hlt, -⟩
        · rw [show count + 1 - startTicks = count - startTicks + 1 by omega, hmod]
          simp only [Record.rewound, Record.started, Record.ticked, Record.period, hstate,
            hticks hne, hphase.interval, u64]
          omega
        · omega
  next hquiet =>
    have hnot := hquiet
    rw [hdue] at hnot
    refine ⟨hphase.handler, hphase.start, hphase.interval, fun hbefore => ?_, fun hbehind => ?_⟩
    · obtain ⟨hstate, hticks⟩ := hphase.waiting (by omega)
      exact ⟨hstate, by rw [Record.ticked, hticks, u64_eq_self (by omega)]⟩
    · obtain ⟨hstate, hticks⟩ := hphase.running (by omega)
      refine ⟨hstate, fun hne => ?_⟩
      rcases div_mod_succ (count - startTicks) hne with ⟨hend, -⟩ | ⟨hlt, hmod, -⟩
      · exact absurd (.inr ⟨by omega, hne, hend⟩) hnot
      · rw [show count + 1 - startTicks = count - startTicks + 1 by omega, hmod, Record.ticked,
          hticks hne, u64_eq_self (by omega)]

theorem Phase.scheduledCalls (hphase : Phase handler startTicks intervalTicks count record)
    (hstart : startTicks < 2 ^ 64) (hinterval : intervalTicks < 2 ^ 64) :
    TimerList.scheduledCalls startTicks intervalTicks (count + 1) =
      TimerList.scheduledCalls startTicks intervalTicks count + if record.due then 1 else 0 := by
  have hdue := hphase.due hstart hinterval
  unfold TimerList.scheduledCalls
  rcases Nat.lt_trichotomy (count + 1) startTicks with hbefore | hreached | hbehind
  · rw [if_pos hbefore, if_pos (by omega), if_neg (fun hfires => by rcases hdue.mp hfires with h | h <;> omega)]
  · rw [if_neg (by omega), if_pos (by omega : count < startTicks), if_pos (hdue.mpr (.inl hreached)),
      hreached, Nat.sub_self, Nat.zero_div]
    split <;> rfl
  · rw [if_neg (by omega), if_neg (by omega : ¬count < startTicks)]
    by_cases hzero : intervalTicks = 0
    · rw [if_pos hzero, if_pos hzero, if_neg (fun hfires => by
        rcases hdue.mp hfires with h | h
        · omega
        · exact h.2.1 hzero)]
    · rw [if_neg hzero, if_neg hzero, show count + 1 - startTicks = count - startTicks + 1 by omega]
      rcases div_mod_succ (count - startTicks) hzero with ⟨hend, -, hdiv⟩ | ⟨hlt, -, hdiv⟩
      · rw [hdiv, if_pos (hdue.mpr (.inr ⟨by omega, hzero, hend⟩)), Nat.add_assoc]
      · rw [hdiv, if_neg (fun hfires => by rcases hdue.mp hfires with h | h <;> omega), Nat.add_zero]

/-! ## A run -/

/-- A memory holds one list. -/
theorem Holds.unique {others : List (Nat × Record κ)} (hlist : Holds memory timers)
    (hother : Holds memory others) : timers = others := by
  have hplaces := Represents.places_unique hlist.joined hother.joined hlist.tail_notMem
    hother.tail_notMem
  have hvalues := Represents.unique hlist hother
  rw [← List.zip_unzip timers, ← List.zip_unzip others, List.unzip_eq_map, List.unzip_eq_map,
    hplaces, hvalues]

theorem Holds.nodup_places (hlist : Holds memory timers) : (timers.map Prod.fst).Nodup :=
  (List.nodup_cons.mp hlist.nodup).2.of_append_left

/-- A timer whose handler does not free it stays on the list. -/
theorem mem_survivors (hkeeps : ∀ rest, (call record.handler rest).1 = false)
    (hmem : (timer, record) ∈ timers) (rest : ω) : (timer, record.after) ∈ survivors call rest timers := by
  induction timers generalizing rest with
  | nil => cases hmem
  | cons item timers ih =>
      rcases List.mem_cons.mp hmem with rfl | hmem
      · simp [survivors, leftOf, frees, hkeeps]
      · exact List.mem_append_right _ (ih hmem _)

/-- It is called where it is due. -/
theorem count_due (hnodup : (timers.map Prod.fst).Nodup) (hmem : (timer, record) ∈ timers) :
    ((timers.filter fun timer => timer.2.due).map Prod.fst).count timer =
      if record.due then 1 else 0 := by
  have hsublist : ((timers.filter fun timer => timer.2.due).map Prod.fst).Nodup :=
    hnodup.sublist (List.filter_sublist.map Prod.fst)
  rw [hsublist.count]
  refine if_congr ?_ rfl rfl
  constructor
  · intro hplace
    obtain ⟨⟨place, other⟩, hother, rfl⟩ := List.mem_map.mp hplace
    obtain ⟨hother, hdue⟩ := List.mem_filter.mp hother
    have hsame := List.inj_on_of_nodup_map hnodup hmem hother rfl
    rw [(Prod.mk.inj hsame).2]
    exact hdue
  · intro hdue
    exact List.mem_map.mpr ⟨_, List.mem_filter.mpr ⟨hmem, hdue⟩, rfl⟩

/-- More fuel does not change a walk that ends. -/
theorem updateLoop_mono {fuel : Nat} (hcall : updateLoop call fuel memory timer = .ok next)
    (more : Nat) : updateLoop call (fuel + more) memory timer = .ok next := by
  induction fuel generalizing memory timer with
  | zero => cases hcall
  | succ fuel ih =>
      rw [Nat.succ_add, updateLoop]
      rw [updateLoop] at hcall
      split
      next htail => rwa [if_pos htail] at hcall
      next htail =>
        rw [if_neg htail] at hcall
        obtain ⟨updated, hupdate, hcall⟩ := bind_eq_ok.mp hcall
        obtain ⟨⟨cell, memory⟩, hread, hcall⟩ := bind_eq_ok.mp hcall
        rw [hupdate, ok_bind, hread, ok_bind]
        exact ih hcall

/-- A call of `timers_update` that returned. -/
theorem timersUpdate_ok {fuel : Nat} (hlist : Holds memory timers)
    (hcall : timersUpdate call fuel memory = .ok next) : ∃ events,
      Holds next (survivors call memory.rest timers) ∧
      next.trace = memory.trace ++ .access timersHead :: events ∧
      Walked call memory.rest timers events := by
  obtain ⟨twin, events, htwin, hspec⟩ :=
    timersUpdate_spec hlist (show timers.length < fuel + (timers.length + 1) by omega)
  obtain ⟨⟨head, read⟩, hread, hloop⟩ := bind_eq_ok.mp hcall
  rw [timersUpdate, hread, ok_bind] at htwin
  obtain rfl : next = twin := Except.ok.inj
    ((updateLoop_mono hloop (timers.length + 1)).symm.trans htwin)
  exact ⟨events, hspec⟩

/-- A timer is on the list, in its phase, and its handler has been called as it asks. -/
structure Scheduled (handler : κ) (timer startTicks intervalTicks base count : Nat)
    (memory : Memory κ ω) : Prop where
  listed : ∃ timers record, Holds memory timers ∧ (timer, record) ∈ timers ∧
    Phase handler startTicks intervalTicks count record
  called : calls memory timer = base + scheduledCalls startTicks intervalTicks count

variable {base : Nat}

theorem Scheduled.update {fuel : Nat}
    (hscheduled : Scheduled handler timer startTicks intervalTicks base count memory)
    (hpos : 1 ≤ startTicks) (hstart : startTicks < 2 ^ 64) (hinterval : intervalTicks < 2 ^ 64)
    (hkeeps : ∀ rest, (call handler rest).1 = false)
    (hcall : timersUpdate call fuel memory = .ok next) :
    Scheduled handler timer startTicks intervalTicks base (count + 1) next := by
  obtain ⟨timers, record, hlist, hmem, hphase⟩ := hscheduled.listed
  obtain ⟨events, hholds, htrace, hwalked⟩ := timersUpdate_ok hlist hcall
  have hkeepsRecord (rest : ω) : (call record.handler rest).1 = false := by
    rw [hphase.handler, hkeeps]
  refine ⟨⟨_, _, hholds, mem_survivors hkeepsRecord hmem _, hphase.after hpos hstart hinterval⟩, ?_⟩
  rw [calls, htrace, List.count_append, List.count_cons_of_ne (by simp), hwalked.calls,
    count_due hlist.nodup_places hmem, hphase.scheduledCalls hstart hinterval, ← Nat.add_assoc,
    ← hscheduled.called, calls]

theorem Scheduled.run (hscheduled : Scheduled handler timer startTicks intervalTicks base 0 made)
    (hpos : 1 ≤ startTicks) (hstart : startTicks < 2 ^ 64) (hinterval : intervalTicks < 2 ^ 64)
    (hkeeps : ∀ rest, (call handler rest).1 = false) (hruns : Runs call timer made count later) :
    Scheduled handler timer startTicks intervalTicks base count later := by
  induction hruns with
  | refl => exact hscheduled
  | update _ hcall ih => exact ih.update hpos hstart hinterval hkeeps hcall
  | @init count fresh _ _ memory next _ timers _ hlist hfresh hcall ih =>
      obtain ⟨others, record, hothers, hmem, hphase⟩ := ih.listed
      obtain rfl := hothers.unique hlist
      obtain ⟨twin, htwin, hholds, -, places, htrace⟩ := timerInit_spec hlist hfresh _ _ _
      obtain rfl : next = twin := Except.ok.inj (hcall.symm.trans htwin)
      refine ⟨⟨_, _, hholds, List.mem_cons_of_mem _ hmem, hphase⟩, ?_⟩
      have hnone : (places.map Event.access).count (.call timer) = 0 :=
        List.count_eq_zero.mpr (by simp)
      rw [← ih.called, calls, calls, htrace, List.count_append, hnone, Nat.add_zero]
  | @free count freed memory next record before after _ hlist hkept hcall ih =>
      obtain ⟨others, record, hothers, hmem, hphase⟩ := ih.listed
      obtain rfl := hothers.unique hlist
      obtain ⟨left, right, hcell, hleft, hright⟩ := hlist.exists_cell
      obtain ⟨twin, htwin, hholds, -, -, htrace⟩ := timerFree_spec hlist hcell hleft hright
      obtain rfl : next = twin := Except.ok.inj (hcall.symm.trans htwin)
      refine ⟨⟨_, _, hholds, ?_, hphase⟩, ?_⟩
      · rcases List.mem_append.mp hmem with hbefore | hafter
        · exact List.mem_append_left _ hbefore
        · rcases List.mem_cons.mp hafter with hsame | hafter
          · exact absurd (Prod.mk.inj hsame).1.symm hkept
          · exact List.mem_append_right _ hafter
      · rw [← ih.called, calls, calls, htrace, List.count_append]
        simp
  | other _ rest ih => exact ⟨ih.listed, ih.called⟩

/-- After some calls of `timers_update` the handler of a timer that it does not free has been
called as often as its periods ask, and `timers_update` returns. -/
theorem timer_schedule (hlist : Holds memory timers)
    (hfresh : timer ∉ timersHead :: (timers.map Prod.fst ++ [timersTail]))
    (hpos : 1 ≤ startTicks) (hstart : startTicks < 2 ^ 64) (hinterval : intervalTicks < 2 ^ 64)
    (hkeeps : ∀ rest, (call handler rest).1 = false)
    (hmade : timerInit memory timer handler startTicks intervalTicks = .ok made)
    (hruns : Runs call timer made count later) :
    calls later timer = calls made timer + scheduledCalls startTicks intervalTicks count ∧
      ∃ enough, ∀ fuel, enough ≤ fuel → ∃ next, timersUpdate call fuel later = .ok next := by
  obtain ⟨twin, htwin, hholds, -⟩ := timerInit_spec hlist hfresh handler startTicks intervalTicks
  obtain rfl : made = twin := Except.ok.inj (hmade.symm.trans htwin)
  have hnew : Phase handler startTicks intervalTicks 0
      ⟨.waiting, 0, startTicks, intervalTicks, handler⟩ :=
    ⟨rfl, rfl, rfl, fun _ => ⟨rfl, rfl⟩, fun hzero => by omega⟩
  have hscheduled : Scheduled handler timer startTicks intervalTicks (calls made timer) 0 made :=
    ⟨⟨_, _, hholds, List.mem_cons_self, hnew⟩, by
      rw [scheduledCalls, if_pos (show 0 < startTicks by omega), Nat.add_zero]⟩
  obtain ⟨⟨timers, -, hlater, -⟩, hcalled⟩ := hscheduled.run hpos hstart hinterval hkeeps hruns
  refine ⟨hcalled, timers.length + 1, fun fuel hfuel => ?_⟩
  obtain ⟨next, -, hcall, -⟩ := timersUpdate_spec hlater hfuel
  exact ⟨next, hcall⟩

/-- Any number of ticks is a run. -/
theorem exists_runs (hlist : Holds memory timers) (kept count : Nat) : ∃ later timers,
    Runs call kept memory count later ∧ Holds later timers := by
  induction count with
  | zero => exact ⟨memory, timers, .refl, hlist⟩
  | succ count ih =>
      obtain ⟨later, walked, hruns, hlater⟩ := ih
      obtain ⟨next, -, hcall, hnext, -⟩ := timersUpdate_spec hlater (Nat.lt_succ_self _)
      exact ⟨next, _, .update hruns hcall, hnext⟩

/-- A timer with a start of 2 and an interval of 1 is called twice in three ticks. -/
theorem timer_schedule_three : ∃ made later : Memory Timers.Handler Unit,
    Runs kernelHandler 3 made 3 later ∧ calls later 3 = calls made 3 + 2 := by
  have hempty := timersInit_holds (⟨.waiting, 0, 0, 0, .blink⟩ : Record Timers.Handler) ()
  obtain ⟨made, hmade, hholds, -⟩ := timerInit_spec hempty (by decide : 3 ∉ [timersHead, timersTail])
    .blink 2 1
  obtain ⟨later, -, hruns, -⟩ := exists_runs hholds 3 3
  exact ⟨made, later, hruns, (timer_schedule (timersInit_holds _ _) (by decide) (by decide)
    (by decide) (by decide) (fun _ => rfl) hmade hruns).1⟩

end PKernel.TimerList
