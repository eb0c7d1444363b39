import PKernel.Library.LinkedList
import PKernel.Timers.Timer

/-! # The list of timers in memory

`timer.c` on the timers as they lie in memory, with the pointers of their list, and with a
trace of what is done to them. `heap_free` leaves the bytes of a block as they are, so that a
timer can still be read once it is freed; the trace tells that it was.
-/

namespace PKernel.TimerList

open Library.LinkedList
open Timers (TimerState)
open Function (update update_of_ne update_self)

/-- The fields of a `timer_t` but its pointers, with the handler and its cookie as one. -/
structure Record (κ : Type) where
  state : TimerState
  currentTicks : Nat
  startTicks : Nat
  intervalTicks : Nat
  handler : κ
deriving DecidableEq, Repr

namespace Record

variable {κ : Type} (record : Record κ)

/-- `current_ticks++`. -/
def ticked : Record κ := { record with currentTicks := u64 (record.currentTicks + 1) }

def started : Record κ := { record with state := .running }

/-- The field that is compared with the ticks in a state, and then subtracted from them. -/
def period : TimerState → Nat
  | .waiting => record.startTicks
  | .running => record.intervalTicks

/-- The ticks without a period. -/
def rewound (state : TimerState) : Record κ :=
  { record with currentTicks := u64 (record.currentTicks + 2 ^ 64 - record.period state) }

/-- The next tick calls the handler. -/
def due : Bool :=
  match record.state with
  | .waiting => record.ticked.startTicks ≤ record.ticked.currentTicks
  | .running => record.ticked.intervalTicks ≠ 0 &&
      record.ticked.intervalTicks ≤ record.ticked.currentTicks

/-- The record behind a tick, if the timer is not freed. -/
def after : Record κ :=
  if record.due then record.ticked.started.rewound record.state else record.ticked

end Record

/-- What is done to a timer. -/
inductive Event where
  /-- A field is read or written. -/
  | access (timer : Nat)
  /-- `timer_update` starts on it. -/
  | update (timer : Nat)
  /-- Its handler is called. -/
  | call (timer : Nat)
  /-- `heap_free` gets it. -/
  | free (timer : Nat)
deriving DecidableEq, Repr

/-- The timers, all else that handlers change, and what has been done so far. -/
structure Memory (κ ω : Type) where
  timers : Store (Record κ)
  rest : ω
  trace : List Event

/-- `&timers_head`. -/
def timersHead : Nat := 1

/-- `&timers_tail`. -/
def timersTail : Nat := 2

variable {κ ω : Type}

namespace Memory

def log (memory : Memory κ ω) (event : Event) : Memory κ ω :=
  { memory with trace := memory.trace ++ [event] }

def read (memory : Memory κ ω) (timer : Nat) : Except Fault (Cell (Record κ) × Memory κ ω) :=
  match memory.timers timer with
  | some cell => .ok (cell, memory.log (.access timer))
  | none => .error .badPointer

def write (memory : Memory κ ω) (timer : Nat) (change : Cell (Record κ) → Cell (Record κ)) :
    Except Fault (Memory κ ω) :=
  match memory.timers timer with
  | some cell => .ok
      { memory.log (.access timer) with
        timers := update memory.timers timer (some (change cell)) }
  | none => .error .badPointer

/-- A write to the fields other than the pointers. -/
def modify (memory : Memory κ ω) (timer : Nat) (change : Record κ → Record κ) :
    Except Fault (Memory κ ω) :=
  memory.write timer fun cell => { cell with value := change cell.value }

end Memory

/-! ## The functions -/

/-- `timers_init`. The sentinels are timers of which only the pointers are used. -/
def timersInit (blank : Record κ) (rest : ω) : Memory κ ω where
  timers place :=
    if place = timersHead then some ⟨blank, timersTail, 0⟩
    else if place = timersTail then some ⟨blank, 0, timersHead⟩
    else none
  rest := rest
  trace := []

/-- `timer_init`, where `heap_alloc` returns `timer`. -/
def timerInit (memory : Memory κ ω) (timer : Nat) (handler : κ) (startTicks intervalTicks : Nat) :
    Except Fault (Memory κ ω) := do
  let (head, memory) ← memory.read timersHead
  let memory := { memory.log (.access timer) with
    timers := update memory.timers timer
      (some ⟨⟨.waiting, 0, startTicks, intervalTicks, handler⟩, head.next, timersHead⟩) }
  let memory ← memory.write head.next fun next => { next with prev := timer }
  memory.write timersHead fun head => { head with next := timer }

/-- `timer_free`. -/
def timerFree (memory : Memory κ ω) (timer : Nat) : Except Fault (Memory κ ω) := do
  let (cell, memory) ← memory.read timer
  let memory ← memory.write cell.next fun next => { next with prev := cell.prev }
  let (cell, memory) ← memory.read timer
  let memory ← memory.write cell.prev fun prev => { prev with next := cell.next }
  return memory.log (.free timer)

section Handlers

-- Whether the handler frees its timer, and what it leaves of all else.
variable (call : κ → ω → Bool × ω)

/-- `timer->handler(timer)`. -/
def callHandler (memory : Memory κ ω) (timer : Nat) : Except Fault (Memory κ ω) := do
  let (cell, memory) ← memory.read timer
  let (frees, rest) := call cell.value.handler memory.rest
  let memory := { memory.log (.call timer) with rest }
  if frees then timerFree memory timer else return memory

/-- `timer_update`. -/
def timerUpdate (memory : Memory κ ω) (timer : Nat) : Except Fault (Memory κ ω) := do
  let memory ← (memory.log (.update timer)).modify timer Record.ticked
  let (cell, memory) ← memory.read timer
  match cell.value.state with
  | .waiting =>
      if cell.value.startTicks ≤ cell.value.currentTicks then
        let memory ← memory.modify timer Record.started
        let memory ← callHandler call memory timer
        memory.modify timer (Record.rewound · .waiting)
      else return memory
  | .running =>
      if cell.value.intervalTicks ≠ 0 ∧ cell.value.intervalTicks ≤ cell.value.currentTicks then
        let memory ← callHandler call memory timer
        memory.modify timer (Record.rewound · .running)
      else return memory

/-- The loop of `timers_update`. -/
def updateLoop : Nat → Memory κ ω → Nat → Except Fault (Memory κ ω)
  | 0, _, _ => .error .nontermination
  | fuel + 1, memory, timer =>
      if timer = timersTail then return memory
      else do
        let memory ← timerUpdate call memory timer
        let (cell, memory) ← memory.read timer
        updateLoop fuel memory cell.next

/-- `timers_update`. -/
def timersUpdate (fuel : Nat) (memory : Memory κ ω) : Except Fault (Memory κ ω) := do
  let (head, memory) ← memory.read timersHead
  updateLoop call fuel memory head.next

end Handlers

/-- The timers from head to tail, with their addresses. -/
def Holds (memory : Memory κ ω) (timers : List (Nat × Record κ)) : Prop :=
  Represents memory.timers timersHead timersTail (timers.map Prod.fst) (timers.map Prod.snd)

variable {memory other : Memory κ ω} {timer left right : Nat} {record : Record κ}
  {cell : Cell (Record κ)} {before after timers : List (Nat × Record κ)}

/-! ## Reads and writes -/

theorem read_of_some (hcell : memory.timers timer = some cell) :
    memory.read timer = .ok (cell, memory.log (.access timer)) := by
  rw [Memory.read, hcell]

theorem write_of_some (hcell : memory.timers timer = some cell)
    (change : Cell (Record κ) → Cell (Record κ)) : memory.write timer change =
      .ok { memory.log (.access timer) with
        timers := update memory.timers timer (some (change cell)) } := by
  rw [Memory.write, hcell]

theorem Holds.split (hlist : Holds memory (before ++ (timer, record) :: after)) :
    Represents memory.timers timersHead timersTail
      (before.map Prod.fst ++ timer :: after.map Prod.fst)
      (before.map Prod.snd ++ record :: after.map Prod.snd) := by
  simpa [Holds] using hlist

/-- A timer on the list and its neighbours. -/
theorem Holds.exists_cell (hlist : Holds memory (before ++ (timer, record) :: after)) : ∃ left right,
    memory.timers timer = some ⟨record, right, left⟩ ∧
      (timersHead :: before.map Prod.fst).getLast? = some left ∧
        (after.map Prod.fst ++ [timersTail]).head? = some right := by
  have hrep := hlist.split
  obtain ⟨left, hleft⟩ : ∃ left, (timersHead :: before.map Prod.fst).getLast? = some left :=
    ⟨_, List.getLast?_eq_some_getLast (List.cons_ne_nil _ _)⟩
  obtain ⟨right, hright⟩ : ∃ right, (after.map Prod.fst ++ [timersTail]).head? = some right :=
    ⟨_, List.head?_eq_some_head (List.append_ne_nil_of_right_ne_nil _ (List.cons_ne_nil _ _))⟩
  have hvalue := (List.cons.inj (hrep.values_split (by simp)).2).1
  have hnext := (hrep.joined_after right hright).1
  have hprev := (hrep.joined_before left hleft).2
  obtain ⟨cell, hcell, hvalue⟩ := Option.map_eq_some_iff.mp hvalue
  rw [hcell, Option.map_some, Option.some.injEq] at hnext hprev
  obtain ⟨value, next, prev⟩ := cell
  obtain rfl : value = record := hvalue
  obtain rfl : next = right := hnext
  obtain rfl : prev = left := hprev
  exact ⟨_, _, hcell, hleft, hright⟩

/-- The list is the same where its cells are. -/
theorem Holds.congr (hlist : Holds memory timers)
    (hsame : ∀ place ∈ timersHead :: (timers.map Prod.fst ++ [timersTail]),
      other.timers place = memory.timers place) : Holds other timers := by
  refine ⟨isChain_joined_congr hlist.joined fun place hplace => ?_, hlist.nodup, ?_⟩
  · rw [hsame place hplace]
    exact ⟨rfl, rfl⟩
  · rw [← hlist.values]
    exact List.map_congr_left fun place hplace => by
      rw [hsame place (List.mem_cons_of_mem _ (List.mem_append_left _ hplace))]

/-- Another record for a timer. -/
theorem Holds.set (hlist : Holds memory (before ++ (timer, record) :: after)) {changed : Record κ}
    (hcell : memory.timers timer = some ⟨record, right, left⟩)
    (hother : other.timers = update memory.timers timer (some ⟨changed, right, left⟩)) :
    Holds other (before ++ (timer, changed) :: after) := by
  have hrep := hlist.split
  have hself : other.timers timer = some ⟨changed, right, left⟩ := by
    rw [hother, update_self]
  have hset := hrep.setValue (by simp) hcell hself fun kept hkept => by
    rw [hother, update_of_ne hkept]
  simpa [Holds] using hset

/-! ## Making a timer -/

theorem timersInit_holds (blank : Record κ) (rest : ω) : Holds (timersInit blank rest) [] := by
  refine ⟨?_, ?_, rfl⟩
  · exact List.isChain_pair.mpr ⟨rfl, rfl⟩
  · change [timersHead, timersTail].Nodup
    decide

/-- `timer_init` puts a timer in front. -/
theorem timerInit_spec (hlist : Holds memory timers)
    (hfresh : timer ∉ timersHead :: (timers.map Prod.fst ++ [timersTail])) (handler : κ)
    (startTicks intervalTicks : Nat) : ∃ made,
      timerInit memory timer handler startTicks intervalTicks = .ok made ∧
      Holds made ((timer, ⟨.waiting, 0, startTicks, intervalTicks, handler⟩) :: timers) ∧
      made.rest = memory.rest ∧
        ∃ places : List Nat, made.trace = memory.trace ++ places.map Event.access := by
  obtain ⟨right, hright⟩ : ∃ right, (timers.map Prod.fst ++ [timersTail]).head? = some right :=
    ⟨_, List.head?_eq_some_head (List.append_ne_nil_of_right_ne_nil _ (List.cons_ne_nil _ _))⟩
  have hnext := hlist.next_head
  rw [hright] at hnext
  obtain ⟨head, hhead, rfl⟩ := Option.map_eq_some_iff.mp hnext
  have hmemRight := List.mem_of_mem_head? hright
  obtain ⟨cellRight, hcellRight⟩ := Option.isSome_iff_exists.mp
    (hlist.isSome (List.mem_cons_of_mem timersHead hmemRight))
  have hneHead : timersHead ≠ timer := fun hsame => hfresh (by simp [hsame])
  have hneRight : head.next ≠ timer := fun hsame =>
    hfresh (hsame ▸ List.mem_cons_of_mem timersHead hmemRight)
  have hapart : timersHead ≠ head.next := fun hsame =>
    (List.nodup_cons.mp hlist.nodup).1 (hsame ▸ hmemRight)
  have hsecond : update memory.timers timer
      (some ⟨⟨.waiting, 0, startTicks, intervalTicks, handler⟩, head.next, timersHead⟩) head.next =
        some cellRight := by
    rw [update_of_ne hneRight, hcellRight]
  have hthird : update (update memory.timers timer
      (some ⟨⟨.waiting, 0, startTicks, intervalTicks, handler⟩, head.next, timersHead⟩)) head.next
        (some { cellRight with prev := timer }) timersHead = some head := by
    rw [update_of_ne hapart, update_of_ne hneHead, hhead]
  refine ⟨⟨update (update (update memory.timers timer
    (some ⟨⟨.waiting, 0, startTicks, intervalTicks, handler⟩, head.next, timersHead⟩)) head.next
      (some { cellRight with prev := timer })) timersHead (some { head with next := timer }),
        memory.rest, memory.trace ++
          [.access timersHead, .access timer, .access head.next, .access timersHead]⟩, ?_, ?_, rfl,
      [timersHead, timer, head.next, timersHead], rfl⟩
  · unfold timerInit
    rw [read_of_some hhead, ok_bind]
    simp only
    rw [@write_of_some _ _ _ _ cellRight hsecond, ok_bind, @write_of_some _ _ _ _ head hthird]
    simp [Memory.log]
  · have hempty : Represents memory.timers timersHead timersTail ([] ++ timers.map Prod.fst)
        ([] ++ timers.map Prod.snd) := hlist
    refine Represents.insert timersHead head.next hempty rfl rfl hright (by simpa using hfresh)
      ?_ ?_ ?_ ?_
    · simp only
      rw [update_of_ne hneHead.symm, update_of_ne hneRight.symm,
        update_self]
    · simp only
      rw [update_self, hhead, Option.map_some]
    · simp only
      rw [update_of_ne hapart.symm, update_self, hcellRight, Option.map_some]
    · intro kept hkept hkeptLeft hkeptRight
      simp only
      rw [update_of_ne hkeptLeft, update_of_ne hkeptRight,
        update_of_ne hkept]

end PKernel.TimerList
