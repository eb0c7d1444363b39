import PKernel.Library.Ring
import PKernel.Library.Transition
import PKernel.Scheduler.Operations

/-! # Signal tables

`signal.c`. The signals of a process wait in a ring with a head, a tail and a size. A signal
that is put into it may interrupt a thread of the process, and a thread that is resumed takes
one out and reacts to it.
-/

namespace PKernel.Signals

open Scheduling Library.Ring Library.Transition

/-- `SIGNAL_QUEUE_SIZE`. -/
def queueSize : Nat := 10

/-- `signal_action_t`. -/
inductive SignalAction where
  | actTerminate
  | actIgnore
  | actStop
  | actContinue
deriving DecidableEq, Repr

/-- `signal_t`. Without a handler of the user `user_handler` is zero. -/
structure Signal where
  action : SignalAction
  userHandler : Nat
deriving DecidableEq, Repr

/-- `signal_table_t`. -/
structure SignalTable where
  handlers : Nat → Signal
  signalQueueSize : Nat
  signalQueueHead : Nat
  signalQueueTail : Nat
  signalQueue : Nat → Nat

/-- What signals need of `process_t`. -/
structure Process where
  threads : List Nat
  signalTable : SignalTable

/-- `signal_table_init`, with the entries of `signal_defaults` and whatever is in the memory of
the ring. -/
def signalTableInit (signalDefaults : Nat → SignalAction) (signalQueue : Nat → Nat) :
    SignalTable where
  handlers sig := ⟨signalDefaults sig, 0⟩
  signalQueueSize := 0
  signalQueueHead := 0
  signalQueueTail := 0
  signalQueue := signalQueue

/-- The loop of `signal_table_invoke` over the threads, with the thread that it came from. It
stops with none at the first that is not in an interruptable wait. -/
def signalTarget (memory : Memory) : Option Nat → List Nat → Except Fault (Option Nat)
  | last, [] => return last
  | _, thread :: rest => do
      if (← memory.readThread thread).state ≠ .interruptableWait then return none
      signalTarget memory (some thread) rest

/-- The ring with a signal behind its last. -/
def SignalTable.push (st : SignalTable) (sig : Nat) : SignalTable :=
  { st with
    signalQueue := Function.update st.signalQueue st.signalQueueTail sig
    signalQueueTail := u64 (st.signalQueueTail + 1) % queueSize
    signalQueueSize := u64 (st.signalQueueSize + 1) }

/-- `signal_table_invoke`, where `_SIG_COUNT` is `sigCount`. -/
def signalTableInvoke (sigCount : Nat) (process : Process) (sig : Nat) (memory : Memory) :
    Except Fault (Option Refusal × Process × Memory) := do
  if sigCount ≤ sig then return (some .noSig, process, memory)
  if process.signalTable.signalQueueSize = queueSize then return (some .sigFull, process, memory)
  let process := { process with signalTable := process.signalTable.push sig }
  match ← signalTarget memory none process.threads with
  | none => return (none, process, memory)
  | some thread =>
      let (result, memory) ← threadInterrupt thread memory
      return (result, process, memory)

/-- What a thread does about a signal before it is resumed. -/
inductive Response where
  /-- `process_kill` and `scheduler_yield`. -/
  | terminate
  | nothing
  /-- `push_tsr` and `push_function`. -/
  | call (userHandler sig : Nat)
deriving DecidableEq, Repr

def Signal.response (signal : Signal) (sig : Nat) : Response :=
  if signal.userHandler = 0 then
    match signal.action with
    | .actTerminate => .terminate
    | .actContinue | .actIgnore | .actStop => .nothing
  else .call signal.userHandler sig

/-- `signal_table_resume`, up to the response, with the signal that it took. -/
def signalTableResume (st : SignalTable) : Except Refusal (Nat × Response × SignalTable) :=
  if st.signalQueueSize = 0 then .error .sigEmpty
  else
    let sig := st.signalQueue st.signalQueueHead
    let st := { st with
      signalQueueHead := u64 (st.signalQueueHead + 1) % queueSize
      signalQueueSize := st.signalQueueSize - 1 }
    .ok (sig, (st.handlers sig).response sig, st)

/-- `signal_table_set`, and `signal_table_reset`, which sets no handler. -/
def signalTableSet (sigCount : Nat) (st : SignalTable) (sig userHandler : Nat) : SignalTable :=
  if sigCount ≤ sig then st
  else { st with
    handlers := Function.update st.handlers sig { st.handlers sig with userHandler } }

/-! ## The queue of the signals -/

/-- The signals in the ring. -/
def SignalTable.pending (st : SignalTable) : List Nat :=
  contents st.signalQueue queueSize st.signalQueueHead st.signalQueueSize

/-- The three numbers belong together, and lead nowhere outside of the ring. -/
structure SignalTable.Sound (st : SignalTable) : Prop where
  size : st.signalQueueSize ≤ queueSize
  head : st.signalQueueHead < queueSize
  tail : st.signalQueueTail = (st.signalQueueHead + st.signalQueueSize) % queueSize

namespace SignalTable

variable {st : SignalTable}

theorem Sound.tail_lt (hsound : st.Sound) : st.signalQueueTail < queueSize := by
  rw [hsound.tail]
  exact Nat.mod_lt _ (by decide)

theorem pending_length : st.pending.length = st.signalQueueSize := contents_length

theorem sound_init (signalDefaults : Nat → SignalAction) (signalQueue : Nat → Nat) :
    (signalTableInit signalDefaults signalQueue).Sound :=
  ⟨Nat.zero_le _, Nat.zero_lt_succ _, rfl⟩

/-- The sums of `size_t` do not wrap. -/
theorem u64_succ {position : Nat} (hposition : position ≤ queueSize) :
    u64 (position + 1) = position + 1 := by
  apply u64_eq_self
  unfold queueSize at hposition
  omega

/-- A signal comes behind the others. -/
theorem Sound.push (hsound : st.Sound) (hroom : st.signalQueueSize ≠ queueSize) (sig : Nat) :
    (st.push sig).Sound ∧ (st.push sig).pending = st.pending ++ [sig] := by
  have hsize := hsound.size
  have hlt : st.signalQueueSize < queueSize := by omega
  have hcount := u64_succ hsize
  have hnext := u64_succ hsound.tail_lt.le
  constructor
  · refine ⟨?_, hsound.head, ?_⟩
    · simp only [SignalTable.push, hcount]
      exact hlt
    · simp only [SignalTable.push, hcount, hnext]
      rw [hsound.tail, Nat.mod_add_mod, Nat.add_assoc]
  · simp only [pending, SignalTable.push, hcount]
    rw [hsound.tail]
    exact contents_push hlt sig

/-- The first signal is taken. -/
theorem Sound.resume (hsound : st.Sound) (hsize : st.signalQueueSize ≠ 0) :
    ∃ sig response st', signalTableResume st = .ok (sig, response, st') ∧ st'.Sound ∧
      st.pending = sig :: st'.pending := by
  obtain ⟨rest, hrest⟩ := Nat.exists_eq_succ_of_ne_zero hsize
  have hnext := u64_succ hsound.head.le
  have hbound := hsound.size
  refine ⟨_, _, _, if_neg hsize, ⟨?_, Nat.mod_lt _ (by decide), ?_⟩, ?_⟩
  · simp only
    omega
  · simp only [hnext]
    rw [hsound.tail, Nat.mod_add_mod]
    congr 1
    omega
  · simp only [pending, hnext, contents_mod]
    rw [hrest, contents_pop, Nat.mod_eq_of_lt hsound.head, Nat.succ_sub_one]

end SignalTable

/-! ## Runs -/

variable {memory : Memory} {process : Process}

/-- The thread that is interrupted is in an interruptable wait. -/
theorem state_of_signalTarget {threads : List Nat} {last : Option Nat} {thread : Nat}
    (htarget : signalTarget memory last threads = .ok (some thread)) :
    last = some thread ∨
      ∃ record, memory.readThread thread = .ok record ∧ record.state = .interruptableWait := by
  induction threads generalizing last with
  | nil => exact .inl (Except.ok.inj htarget)
  | cons first rest ih =>
      rw [signalTarget, bind_eq_ok] at htarget
      obtain ⟨record, hrecord, htarget⟩ := htarget
      split at htarget
      next => simp at htarget
      next hstate =>
        rcases ih htarget with hlast | hlater
        · cases hlast
          exact .inr ⟨record, hrecord, not_not.mp hstate⟩
        · exact .inr hlater

/-- `signal_table_invoke` refuses a signal only when the queue is full, and then nothing has
changed. -/
theorem signalTableInvoke_cases {sigCount sig : Nat} (hsig : sig < sigCount)
    {result : Option Refusal} {process' : Process} {memory' : Memory}
    (hinvoke : signalTableInvoke sigCount process sig memory = .ok (result, process', memory')) :
    (process.signalTable.signalQueueSize = queueSize ∧ result = some .sigFull ∧
        process' = process ∧ memory' = memory) ∨
      (process.signalTable.signalQueueSize ≠ queueSize ∧ result = none ∧
        process' = { process with signalTable := process.signalTable.push sig }) := by
  rw [signalTableInvoke, if_neg (Nat.not_le.mpr hsig)] at hinvoke
  split at hinvoke
  next hfull =>
    cases hinvoke
    exact .inl ⟨hfull, rfl, rfl, rfl⟩
  next hroom =>
    refine .inr ⟨hroom, ?_⟩
    rw [bind_eq_ok] at hinvoke
    obtain ⟨target, htarget, hinvoke⟩ := hinvoke
    cases target with
    | none =>
        cases hinvoke
        exact ⟨rfl, rfl⟩
    | some thread =>
        -- `thread_interrupt` does not fail for a thread in an interruptable wait
        obtain ⟨record, hrecord, hstate⟩ := (state_of_signalTarget htarget).resolve_left nofun
        simp only [threadInterrupt, hrecord, hstate, ok_bind, bind_eq_ok, pure_eq_ok,
          Except.ok.injEq, Prod.mk.injEq] at hinvoke
        obtain ⟨_, ⟨_, _, rfl⟩, rfl, rfl, -⟩ := hinvoke
        exact ⟨rfl, rfl⟩

/-- A process with its threads' memory, the signals that were accepted and those that were
taken. -/
structure History where
  process : Process
  memory : Memory
  accepted : List Nat
  taken : List Nat

/-- What can happen to the signals of a process. Threads come, go and change meanwhile. -/
inductive Event where
  | invoke (sig : Nat)
  | resume
  | set (sig userHandler : Nat)
  | threads (threads : List Nat) (memory : Memory)

/-- A signal number that is valid is sent, a thread takes a signal or finds none, or something
else happens. -/
inductive Step (sigCount : Nat) : History → Event → History → Prop
  | invoke {history : History} {sig : Nat} {result : Option Refusal} {process : Process}
      {memory : Memory} (hsig : sig < sigCount)
      (hinvoke : signalTableInvoke sigCount history.process sig history.memory =
        .ok (result, process, memory)) :
      Step sigCount history (.invoke sig) { history with
        process, memory
        accepted := if result = none then history.accepted ++ [sig] else history.accepted }
  | resume {history : History} {sig : Nat} {response : Response} {signalTable : SignalTable}
      (hresume : signalTableResume history.process.signalTable = .ok (sig, response, signalTable)) :
      Step sigCount history .resume { history with
        process := { history.process with signalTable }
        taken := history.taken ++ [sig] }
  | empty {history : History} {refusal : Refusal}
      (hresume : signalTableResume history.process.signalTable = .error refusal) :
      Step sigCount history .resume history
  | set {history : History} (sig userHandler : Nat) :
      Step sigCount history (.set sig userHandler) { history with
        process := { history.process with
          signalTable := signalTableSet sigCount history.process.signalTable sig userHandler } }
  | threads {history : History} (threads : List Nat) (memory : Memory) :
      Step sigCount history (.threads threads memory)
        { history with process := { history.process with threads }, memory }

/-- The signals of one process, from `signal_table_init` on. -/
def system (sigCount : Nat) (signalDefaults : Nat → SignalAction) : System History Event where
  init history := history.accepted = [] ∧ history.taken = [] ∧
    ∃ signalQueue, history.process.signalTable = signalTableInit signalDefaults signalQueue
  step := Step sigCount

/-- The signals that were accepted and not taken are in the ring, in their order. -/
structure History.Sound (history : History) : Prop where
  table : history.process.signalTable.Sound
  accepted : history.accepted = history.taken ++ history.process.signalTable.pending

namespace History.Sound

variable {sigCount : Nat} {history next : History} {event : Event}

theorem step (hsound : history.Sound) (hstep : Step sigCount history event next) : next.Sound := by
  cases hstep with
  | invoke hsig hinvoke =>
      rcases signalTableInvoke_cases hsig hinvoke with ⟨-, rfl, rfl, -⟩ | ⟨hroom, rfl, rfl⟩
      · exact ⟨hsound.table, by simpa using hsound.accepted⟩
      · obtain ⟨htable, hpending⟩ := hsound.table.push hroom _
        refine ⟨htable, ?_⟩
        rw [if_pos rfl, hpending, ← List.append_assoc, ← hsound.accepted]
  | resume hresume =>
      have hsize : history.process.signalTable.signalQueueSize ≠ 0 := by
        intro hzero
        simp [signalTableResume, hzero] at hresume
      obtain ⟨sig, response, st, hresume', htable, hpending⟩ := hsound.table.resume hsize
      rw [hresume'] at hresume
      cases hresume
      refine ⟨htable, ?_⟩
      rw [hsound.accepted, hpending, List.append_assoc, List.singleton_append]
  | empty => exact hsound
  | set sig userHandler =>
      unfold signalTableSet
      split
      next => exact ⟨hsound.table, hsound.accepted⟩
      next => exact ⟨⟨hsound.table.size, hsound.table.head, hsound.table.tail⟩, hsound.accepted⟩
  | threads => exact ⟨hsound.table, hsound.accepted⟩

end History.Sound

theorem sound_of_reachable {sigCount : Nat} {signalDefaults : Nat → SignalAction}
    {history : History} (hreach : (system sigCount signalDefaults).Reachable history) :
    history.Sound := by
  refine hreach.invariant ⟨?_, fun history event next hsound hstep => hsound.step hstep⟩
  rintro history ⟨haccepted, htaken, signalQueue, htable⟩
  refine ⟨htable ▸ SignalTable.sound_init signalDefaults signalQueue, ?_⟩
  rw [haccepted, htaken, htable]
  rfl

/-- The signals taken are the first of the accepted ones, in their order, and the next one is
taken next. A signal is refused exactly when as many are untaken as the ring holds, and then
nothing has changed. -/
theorem signals_queued {sigCount : Nat} {signalDefaults : Nat → SignalAction}
    {history : History} (hreach : (system sigCount signalDefaults).Reachable history) :
    history.taken <+: history.accepted ∧
      (match signalTableResume history.process.signalTable with
        | .ok (sig, _, _) => history.accepted[history.taken.length]? = some sig
        | .error refusal => refusal = .sigEmpty ∧ history.taken = history.accepted) ∧
      (∀ sig result process memory, sig < sigCount →
        signalTableInvoke sigCount history.process sig history.memory =
          .ok (result, process, memory) →
        (result = none ∨ result = some .sigFull) ∧
        (result = some .sigFull ↔ history.accepted.length = history.taken.length + queueSize) ∧
        (result = some .sigFull → process = history.process ∧ memory = history.memory)) ∧
      history.process.signalTable.signalQueueHead < queueSize ∧
      history.process.signalTable.signalQueueTail < queueSize := by
  have hsound := sound_of_reachable hreach
  have haccepted := hsound.accepted
  refine ⟨⟨_, haccepted.symm⟩, ?_, ?_, hsound.table.head, hsound.table.tail_lt⟩
  · by_cases hsize : history.process.signalTable.signalQueueSize = 0
    · have hpending : history.process.signalTable.pending = [] := by
        rw [SignalTable.pending, hsize, contents_zero]
      rw [hpending, List.append_nil] at haccepted
      rw [signalTableResume, if_pos hsize]
      exact ⟨rfl, haccepted.symm⟩
    · obtain ⟨sig, response, st, hresume, -, hpending⟩ := hsound.table.resume hsize
      rw [hresume]
      simp [haccepted, hpending]
  · intro sig result process memory hsig hinvoke
    have hlength : history.accepted.length =
        history.taken.length + history.process.signalTable.signalQueueSize := by
      rw [haccepted, List.length_append, SignalTable.pending_length]
    rcases signalTableInvoke_cases hsig hinvoke with ⟨hfull, rfl, rfl, rfl⟩ | ⟨hroom, rfl, -⟩
    · exact ⟨.inr rfl, by simp [hlength, hfull], fun _ => ⟨rfl, rfl⟩⟩
    · exact ⟨.inl rfl, by simp [hlength, hroom], nofun⟩

/-- A signal is sent and taken. -/
theorem signals_queued_after_resume : ∃ history,
    (system 4 fun _ => .actIgnore).Reachable history ∧ history.taken = [3] ∧
      history.taken <+: history.accepted := by
  let start : History :=
    ⟨⟨[], signalTableInit (fun _ => .actIgnore) fun _ => 0⟩, schedulerInit.memory, [], []⟩
  have hinit : (system 4 fun _ => .actIgnore).Reachable start := .init ⟨rfl, rfl, _, rfl⟩
  have hstep : Step 4 start (.invoke 3) _ := .invoke (by decide) rfl
  have hresume := (hinit.step hstep).step (.resume rfl)
  exact ⟨_, hresume, rfl, (signals_queued hresume).1⟩

end PKernel.Signals
