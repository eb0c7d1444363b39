import Mathlib.Data.Nat.Bitwise
import PKernel.Library.Transition
import PKernel.Programs.Arguments
import PKernel.Signals.Delivery

/-! # The I/O privilege level of user threads

The flags that a thread is resumed with are those of its record, which comes from the processor,
from another thread, or from `pop_tsr`, which takes it from the stack of the thread as it stands
there. A program that sets the I/O privilege level in that record gets what it asks for.
-/

namespace PKernel.Signals.Privilege

open Pman
open Tsr (TaskStateRecord)
open Library.Transition

/-- The bits 12 and 13 of the flags. -/
def iopl (flags : Nat) : Nat := flags >>> 12 &&& 3

section Code

/-- The registers that `_resume_tsr_user` enters user mode with. -/
def resumeTsrUser (tsr : TaskStateRecord) : TaskStateRecord :=
  { tsr with flags := tsr.flags ||| 0x200 }

/-- The record of `thread_create_user`. -/
def threadCreateUser (stack size : Nat) : TaskStateRecord :=
  Tsr.tsrSetStack ⟨0, 0, 0, 0, 0, 0, 0, 0, 0, 0, 0, 0, 0, 0, 0, 0, 0, 0⟩ stack size

/-- The record of `thread_create_fork`, with the result of `syscall_fork` in the child. -/
def threadCreateFork (target : TaskStateRecord) : TaskStateRecord := Tsr.tsrLoadReturn target 0

end Code

/-! ## Threads and the processor -/

/-- The user threads, and the one that runs with the registers in the processor. -/
structure Machine where
  threads : Nat → Option Thread
  running : Option (Nat × TaskStateRecord)

def Machine.setThread (machine : Machine) (id : Nat) (thread : Thread) : Machine :=
  { machine with threads := Function.update machine.threads id (some thread) }

theorem Machine.setThread_self (machine : Machine) (id : Nat) (thread : Thread) :
    (machine.setThread id thread).threads id = some thread := by
  simp [Machine.setThread]

/-- What happens to user threads. -/
inductive Event where
  | create (id stack size : Nat)
  | fork (parent child : Nat)
  /-- A program, or the kernel, writes to memory or changes the mappings. -/
  | remap (id : Nat)
  | resume (id : Nat)
  /-- An instruction in user mode. -/
  | execute
  /-- An interrupt or a system call in user mode. -/
  | enter
  | deliver (id userHandler sig : Nat)
  | signalret (id : Nat)
  | loadReturn (id value : Nat)
  | loadPc (id pc : Nat)
  | setStack (id stack size : Nat)
  | pushMainArgs (id argc : Nat) (argv : List Nat)

variable {machine next : Machine} {event : Event} {thread : Thread} {id : Nat}

/-- Steps of user threads and of the kernel. In user mode nothing changes the I/O privilege
level. -/
inductive Step : Machine → Event → Machine → Prop
  | create {machine : Machine} {id stack size pagingContext : Nat} {paging : State}
      (hfree : machine.threads id = none) : Step machine (.create id stack size)
        (machine.setThread id ⟨threadCreateUser stack size, pagingContext, paging⟩)
  | fork {machine : Machine} {parent child pagingContext : Nat} {thread : Thread} {paging : State}
      (hparent : machine.threads parent = some thread) (hfree : machine.threads child = none) :
      Step machine (.fork parent child)
        (machine.setThread child ⟨threadCreateFork thread.tsr, pagingContext, paging⟩)
  | remap {machine : Machine} {id : Nat} {thread : Thread} {paging : State}
      (hthread : machine.threads id = some thread) :
      Step machine (.remap id) (machine.setThread id { thread with paging })
  | resume {machine : Machine} {id : Nat} {thread : Thread}
      (hthread : machine.threads id = some thread) (hidle : machine.running = none) :
      Step machine (.resume id) { machine with running := some (id, resumeTsrUser thread.tsr) }
  | execute {machine : Machine} {id : Nat} {tsr tsr' : TaskStateRecord}
      (hrunning : machine.running = some (id, tsr)) (huser : iopl tsr'.flags = iopl tsr.flags) :
      Step machine .execute { machine with running := some (id, tsr') }
  | enter {machine : Machine} {id : Nat} {thread : Thread} {tsr : TaskStateRecord}
      (hrunning : machine.running = some (id, tsr)) (hthread : machine.threads id = some thread) :
      Step machine .enter { machine.setThread id { thread with tsr } with running := none }
  | deliver {machine : Machine} {id userHandler sig : Nat} {thread called : Thread}
      (hthread : machine.threads id = some thread)
      (hcall : callHandler thread userHandler sig = .ok called) :
      Step machine (.deliver id userHandler sig) (machine.setThread id called)
  | signalret {machine : Machine} {id : Nat} {thread popped : Thread}
      (hthread : machine.threads id = some thread) (hpop : popTsr thread = .ok popped) :
      Step machine (.signalret id) (machine.setThread id popped)
  | loadReturn {machine : Machine} {id value : Nat} {thread : Thread}
      (hthread : machine.threads id = some thread) : Step machine (.loadReturn id value)
        (machine.setThread id { thread with tsr := Tsr.tsrLoadReturn thread.tsr value })
  | loadPc {machine : Machine} {id pc : Nat} {thread : Thread}
      (hthread : machine.threads id = some thread) : Step machine (.loadPc id pc)
        (machine.setThread id { thread with tsr := Tsr.tsrLoadPc thread.tsr pc })
  | setStack {machine : Machine} {id stack size : Nat} {thread : Thread}
      (hthread : machine.threads id = some thread) : Step machine (.setStack id stack size)
        (machine.setThread id { thread with tsr := Tsr.tsrSetStack thread.tsr stack size })
  | pushMainArgs {machine : Machine} {id argc : Nat} {argv : List Nat} {thread : Thread}
      {tsr : TaskStateRecord} {paging : State} (hthread : machine.threads id = some thread)
      (hpush : Programs.pushMainArgs thread.pagingContext thread.paging thread.tsr argc argv =
        .ok (tsr, paging)) :
      Step machine (.pushMainArgs id argc argv) (machine.setThread id { thread with tsr, paging })

/-- Runs from a machine without user threads. -/
def system : System Machine Event where
  init machine := (∀ id, machine.threads id = none) ∧ machine.running = none
  step := Step

/-! ## The flags in a record on a stack -/

/-- The flags in the record at the stack pointer. -/
def frameFlags (thread : Thread) : Except Fault Nat := do
  loadWord thread.paging ((← thread.kernRsp) + 8 * 17)

/-- A thread that returns from a handler has a record with level 0 on its stack. -/
def HarmlessReturn (machine : Machine) (event : Event) : Prop :=
  ∀ id thread flags, event = .signalret id → machine.threads id = some thread →
    frameFlags thread = .ok flags → iopl flags = 0

theorem loadWords_getElem {paging : State} {vaddr count : Nat} {words : List Nat}
    (hload : loadWords paging vaddr count = .ok words) {i : Nat} (hi : i < count) :
    loadWord paging (vaddr + 8 * i) = .ok (words.getD i 0) := by
  induction count generalizing vaddr words i with
  | zero => omega
  | succ count ih =>
      obtain ⟨word, hword, hload⟩ := bind_eq_ok.mp hload
      obtain ⟨rest, hrest, hload⟩ := bind_eq_ok.mp hload
      obtain rfl : word :: rest = words := Except.ok.inj hload
      cases i with
      | zero => simpa using hword
      | succ i =>
          have hnext := ih hrest (show i < count by omega)
          rw [show vaddr + 8 + 8 * i = vaddr + 8 * (i + 1) by omega] at hnext
          simpa using hnext

/-- `pop_tsr` takes the flags from the stack. -/
theorem popTsr_flags {popped : Thread} (hpop : popTsr thread = .ok popped) :
    frameFlags thread = .ok popped.tsr.flags := by
  obtain ⟨kernRsp, hrsp, hpop⟩ := bind_eq_ok.mp hpop
  obtain ⟨words, hload, hpop⟩ := bind_eq_ok.mp hpop
  cases hpop
  rw [frameFlags, hrsp, ok_bind, loadWords_getElem hload (i := 17) (by decide)]
  rfl

/-- `push_tsr` sets the stack pointer only. -/
theorem pushTsr_frame {pushed : Thread} (hpush : pushTsr thread = .ok pushed) :
    ∃ rsp, pushed.tsr = { thread.tsr with rsp } := by
  obtain ⟨kernRsp, _, hpush⟩ := bind_eq_ok.mp hpush
  obtain ⟨paging, _, hpush⟩ := bind_eq_ok.mp hpush
  simp only [pure_eq_ok, Except.ok.injEq] at hpush
  refine ⟨u64 (thread.tsr.rsp + 2 ^ 64 - Tsr.recordSize), ?_⟩
  rw [← hpush]

/-- `push_function` sets it too, and the registers for the call. -/
theorem pushFunction_frame {called : Thread} {addr : Nat} {argv : List Nat}
    (hcall : pushFunction thread addr argv = .ok called) :
    ∃ rsp, called.tsr = { pushArgs { thread.tsr with rsp } argv with rip := addr } := by
  obtain ⟨kernRsp, _, hcall⟩ := bind_eq_ok.mp hcall
  obtain ⟨paging, _, hcall⟩ := bind_eq_ok.mp hcall
  simp only [pure_eq_ok, Except.ok.injEq] at hcall
  refine ⟨u64 (thread.tsr.rsp + 2 ^ 64 - 8), ?_⟩
  rw [← hcall]

theorem callHandler_flags {called : Thread} {userHandler sig : Nat}
    (hcall : callHandler thread userHandler sig = .ok called) :
    called.tsr.flags = thread.tsr.flags := by
  obtain ⟨pushed, hpush, hcall⟩ := bind_eq_ok.mp hcall
  obtain ⟨rsp, hpushed⟩ := pushTsr_frame hpush
  obtain ⟨last, hcalled⟩ := pushFunction_frame hcall
  rw [hcalled, hpushed]
  rfl

theorem iopl_resume (flags : Nat) : iopl (flags ||| 0x200) = iopl flags := by
  simp [iopl, Nat.shiftRight_or_distrib]

/-! ## All runs -/

/-- No record and no register holds a level other than 0. -/
structure Unprivileged (machine : Machine) : Prop where
  records : ∀ id thread, machine.threads id = some thread → iopl thread.tsr.flags = 0
  registers : ∀ id tsr, machine.running = some (id, tsr) → iopl tsr.flags = 0

theorem Unprivileged.setThread (hunprivileged : Unprivileged machine)
    (hflags : iopl thread.tsr.flags = 0) : Unprivileged (machine.setThread id thread) := by
  refine ⟨?_, hunprivileged.registers⟩
  intro other found hfound
  by_cases heq : other = id
  · simp only [Machine.setThread, heq, Function.update_self, Option.some.injEq] at hfound
    rw [← hfound]
    exact hflags
  · simp only [Machine.setThread, Function.update_of_ne heq] at hfound
    exact hunprivileged.records other found hfound

/-- Each step but a return from a handler hands on the level of a record or of the processor. -/
theorem step_unprivileged (hunprivileged : Unprivileged machine)
    (hharmless : HarmlessReturn machine event) (hstep : Step machine event next) :
    Unprivileged next := by
  obtain ⟨hrecords, hregisters⟩ := hunprivileged
  have hself : Unprivileged machine := ⟨hrecords, hregisters⟩
  -- the functions on records leave the flags, by their lemmas
  cases hstep with
  | create hfree =>
      refine hself.setThread ?_
      simp [threadCreateUser, iopl]
  | @fork parent child _ thread _ hparent hfree =>
      refine hself.setThread ?_
      simpa [threadCreateFork] using hrecords parent thread hparent
  | @remap id thread _ hthread => exact hself.setThread (hrecords id thread hthread)
  | @resume id thread hthread hidle =>
      refine ⟨hrecords, ?_⟩
      intro other tsr hrunning
      cases hrunning
      exact (iopl_resume thread.tsr.flags).trans (hrecords _ _ hthread)
  | execute hrunning huser =>
      refine ⟨hrecords, ?_⟩
      intro other tsr hnow
      cases hnow
      exact huser.trans (hregisters _ _ hrunning)
  | @enter id thread tsr hrunning hthread =>
      have hset : Unprivileged (machine.setThread id { thread with tsr }) :=
        hself.setThread (hregisters _ _ hrunning)
      exact ⟨hset.records, nofun⟩
  | deliver hthread hcall =>
      exact hself.setThread (callHandler_flags hcall ▸ hrecords _ _ hthread)
  | @signalret id thread popped hthread hpop =>
      exact hself.setThread (hharmless id thread _ rfl hthread (popTsr_flags hpop))
  | @loadReturn id value thread hthread =>
      refine hself.setThread ?_
      simpa using hrecords id thread hthread
  | @loadPc id pc thread hthread =>
      refine hself.setThread ?_
      simpa using hrecords id thread hthread
  | @setStack id stack size thread hthread =>
      refine hself.setThread ?_
      simpa using hrecords id thread hthread
  | @pushMainArgs id argc argv thread tsr paging hthread hpush =>
      obtain ⟨htsr, _⟩ := Programs.pushMainArgs_frame hpush
      refine hself.setThread ?_
      rw [show tsr.flags = thread.tsr.flags by rw [htsr]]
      exact hrecords id thread hthread

theorem unprivileged_inductive : (system.restrict HarmlessReturn).Inductive Unprivileged where
  init machine := by
    rintro ⟨hthreads, hrunning⟩
    refine ⟨?_, ?_⟩
    · intro id thread hthread
      rw [hthreads id] at hthread
      cases hthread
    · intro id tsr hnow
      rw [hrunning] at hnow
      cases hnow
  step machine event next hunprivileged hstep :=
    step_unprivileged hunprivileged hstep.1 hstep.2

/-- In every run whose threads return from handlers with records of level 0 only, no thread is
resumed with another level. -/
theorem resumed_without_io (hreach : (system.restrict HarmlessReturn).Reachable machine)
    (hthread : machine.threads id = some thread) : iopl (resumeTsrUser thread.tsr).flags = 0 :=
  (iopl_resume thread.tsr.flags).trans
    ((hreach.invariant unprivileged_inductive).records id thread hthread)

/-! ## One thread -/

/-- A machine with one thread, of the process with context 1. -/
def machineOf (tsr : TaskStateRecord) (paging : State) : Machine where
  threads := Function.update (fun _ => none) 0 (some ⟨tsr, 1, paging⟩)
  running := none

theorem machineOf_threads (tsr : TaskStateRecord) (paging : State) :
    (machineOf tsr paging).threads 0 = some ⟨tsr, 1, paging⟩ := by
  simp [machineOf]

theorem machineOf_setThread (tsr tsr' : TaskStateRecord) (paging paging' : State) :
    (machineOf tsr paging).setThread 0 ⟨tsr', 1, paging'⟩ = machineOf tsr' paging' := by
  simp [machineOf, Machine.setThread]

theorem step_create (paging : State) : Step ⟨fun _ => none, none⟩ (.create 0 0x8000 0x1000)
    (machineOf (threadCreateUser 0x8000 0x1000) paging) := .create rfl

theorem harmless_of_ne (hevent : ∀ id, event ≠ .signalret id) : HarmlessReturn machine event :=
  fun id _ _ hreturn => absurd hreturn (hevent id)

/-- What a program may do to its registers and its memory before it calls the kernel. -/
theorem reachable_run {tsr : TaskStateRecord} {paging : State}
    (hreach : (system.restrict HarmlessReturn).Reachable (machineOf tsr paging)) (rsp : Nat)
    (paging' : State) : (system.restrict HarmlessReturn).Reachable
      (machineOf { resumeTsrUser tsr with rsp } paging') := by
  have hthread := machineOf_threads tsr paging
  have hresumed := hreach.step ⟨harmless_of_ne (by simp), .resume hthread rfl⟩
  have hexecuted : (system.restrict HarmlessReturn).Reachable
      { machineOf tsr paging with running := some (0, { resumeTsrUser tsr with rsp }) } :=
    hresumed.step ⟨harmless_of_ne (by simp), .execute rfl rfl⟩
  have hentered : (system.restrict HarmlessReturn).Reachable
      (machineOf { resumeTsrUser tsr with rsp } paging) := by
    have henter := hexecuted.step ⟨harmless_of_ne (by simp), .enter rfl hthread⟩
    simpa [machineOf, Machine.setThread] using henter
  have hremap : ∀ tsr', Step (machineOf tsr' paging) (.remap 0)
      ((machineOf tsr' paging).setThread 0 ⟨tsr', 1, paging'⟩) :=
    fun tsr' => .remap (machineOf_threads tsr' paging)
  simp only [machineOf_setThread] at hremap
  exact hentered.step ⟨harmless_of_ne (by simp), hremap _⟩

/-- A program puts a record on its stack, like its own but for the flags. -/
theorem exists_forged {flags : Nat} (hflags : flags < 2 ^ 64) : ∃ tsr paging popped,
    (system.restrict HarmlessReturn).Reachable (machineOf tsr paging) ∧
      popTsr ⟨tsr, 1, paging⟩ = .ok popped ∧ popped.tsr.flags = flags := by
  obtain ⟨paging, hstack, _⟩ := onStack_share
  obtain ⟨base, place, hbacked⟩ := hstack 0
  have hvalid : TaskStateRecord.Valid
      ⟨0, 0, 0, 0, 0, 0, 0, 0x8800, 0, 0, 0, 0, 0, 0, 0, 0, 0, flags⟩ := by
    intro word hword
    simp only [TaskStateRecord.words, List.mem_cons, List.not_mem_nil, or_false] at hword
    omega
  obtain ⟨memory, _, hwords, _⟩ :=
    hbacked.reached.storeWords 0x700 hvalid (show 0x700 + 8 * 18 ≤ 0x1000 by decide)
  have hforged := hbacked.store memory
    { resumeTsrUser (threadCreateUser 0x8000 0x1000) with rsp := 0x8700 }
  have hinit : (system.restrict HarmlessReturn).Reachable ⟨fun _ => none, none⟩ :=
    .init ⟨fun _ => rfl, rfl⟩
  exact ⟨_, _, _, reachable_run (hinit.step ⟨harmless_of_ne (by simp), step_create paging⟩) 0x8700
    { paging with memory }, popTsr_ok hforged (i := 0x700) rfl (by decide) hwords, rfl⟩

/-- A thread returns from a handler with the flags that it had. -/
theorem resumed_without_io_returned : ∃ machine thread,
    (system.restrict HarmlessReturn).Reachable machine ∧ machine.threads 0 = some thread ∧
      thread.tsr.flags = 0x202 ∧ iopl (resumeTsrUser thread.tsr).flags = 0 := by
  obtain ⟨tsr, paging, popped, hreach, hpop, hflags⟩ := exists_forged (show 0x202 < 2 ^ 64 by decide)
  have hthread := machineOf_threads tsr paging
  have hharmless : HarmlessReturn (machineOf tsr paging) (.signalret 0) := by
    rintro id thread flags hevent hfound hframe
    cases hevent
    cases hthread.symm.trans hfound
    cases (popTsr_flags hpop).symm.trans hframe
    rw [hflags]
    decide
  have hreturned := hreach.step ⟨hharmless, .signalret hthread hpop⟩
  have hlast := Machine.setThread_self (machineOf tsr paging) 0 popped
  exact ⟨_, popped, hreturned, hlast, hflags, resumed_without_io hreturned hlast⟩

/-- The flags that the program put there can have another level. -/
theorem resumed_with_io : ∃ machine thread, system.Reachable machine ∧
    machine.threads 0 = some thread ∧ iopl (resumeTsrUser thread.tsr).flags = 3 := by
  obtain ⟨tsr, paging, popped, hreach, hpop, hflags⟩ := exists_forged (show 0x3202 < 2 ^ 64 by decide)
  refine ⟨_, popped, hreach.of_restrict.step (.signalret (machineOf_threads tsr paging) hpop),
    Machine.setThread_self _ 0 _, (iopl_resume _).trans ?_⟩
  rw [hflags]
  decide

end PKernel.Signals.Privilege
