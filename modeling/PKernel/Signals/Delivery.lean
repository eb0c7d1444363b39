import PKernel.Paging.KernelMemory
import PKernel.Paging.Resizing
import PKernel.Processes.TaskState

/-! # Calls of signal handlers

`push_tsr`, `push_function` and `pop_tsr`. A thread that is to run a handler first gets its
registers saved on its stack; when the handler has returned to the trampoline, `syscall_signalret`
takes them from there. The kernel looks the stack pointer up in the mappings before it subtracts
anything from it. At the very end of the stack mapping, where an empty stack starts, the lookup
fails and the kernel writes below address 0.
-/

namespace PKernel.Signals

open Pman
open Tsr (TaskStateRecord recordSize)

/-- A thread in user mode and the memory of its process. -/
structure Thread where
  tsr : TaskStateRecord
  /-- `paging_context`. -/
  pagingContext : Nat
  paging : State

section Code

/-- `PROCESS_TRAMPOLINE_USER_VADDR`. -/
def processTrampolineUserVaddr : Nat := 0x8500000000

/-- `process_user_to_kernel` of the stack pointer. -/
def Thread.kernRsp (thread : Thread) : Except Fault Nat :=
  kernelPointer thread.paging thread.pagingContext thread.tsr.rsp

/-- `push_tsr`. -/
def pushTsr (thread : Thread) : Except Fault Thread := do
  let kernRsp := u64 ((← thread.kernRsp) + 2 ^ 64 - recordSize)
  let paging ← storeWords kernRsp thread.tsr.words thread.paging
  let tsr := { thread.tsr with rsp := u64 (thread.tsr.rsp + 2 ^ 64 - recordSize) }
  return { thread with tsr, paging }

/-- `push_args`. -/
def pushArgs (tsr : TaskStateRecord) (argv : List Nat) : TaskStateRecord :=
  { tsr with
    rdi := argv.getD 0 tsr.rdi
    rsi := argv.getD 1 tsr.rsi
    rdx := argv.getD 2 tsr.rdx
    rcx := argv.getD 3 tsr.rcx
    r8 := argv.getD 4 tsr.r8 }

/-- `push_function`. -/
def pushFunction (thread : Thread) (addr : Nat) (argv : List Nat) : Except Fault Thread := do
  let kernRsp := u64 ((← thread.kernRsp) + 2 ^ 64 - 8)
  let paging ← storeWord thread.paging kernRsp processTrampolineUserVaddr
  let tsr := { thread.tsr with rsp := u64 (thread.tsr.rsp + 2 ^ 64 - 8) }
  return { thread with tsr := { pushArgs tsr argv with rip := addr }, paging }

/-- The calls in `signal_table_resume` for a signal with a handler of the process. -/
def callHandler (thread : Thread) (userHandler sig : Nat) : Except Fault Thread := do
  pushFunction (← pushTsr thread) userHandler [sig]

/-- `pop_tsr`, which `syscall_signalret` calls. -/
def popTsr (thread : Thread) : Except Fault Thread := do
  let words ← loadWords thread.paging (← thread.kernRsp) (recordSize / 8)
  return { thread with tsr := .ofWords words }

end Code

/-! ## The stack mapping -/

/-- The bytes of a mapping from `bottom` on are those of the kernel from `base` on. -/
structure Backed (thread : Thread) (bottom size base : Nat) (place : Nat → Nat) : Prop where
  translated : ∀ i < size, processUserToKernel thread.paging thread.pagingContext (bottom + i) =
    .ok (some (base + i))
  reached : Reached thread.paging base size place
  bottomEnd : bottom + size ≤ 2 ^ 64
  baseEnd : base + size ≤ 2 ^ 64

/-- A stack mapping, wherever its pages are. -/
def OnStack (thread : Thread) (bottom size : Nat) : Prop :=
  ∃ base place, Backed thread bottom size base place

/-- A byte of the process. -/
def peek (thread : Thread) (vaddr : Nat) : Except Fault UInt8 := do
  loadByte thread.paging (← kernelPointer thread.paging thread.pagingContext vaddr)

variable {thread next before after : Thread} {bottom size base userHandler sig : Nat}
  {place : Nat → Nat}

namespace Backed

theorem kernRsp (hbacked : Backed thread bottom size base place) {i : Nat} (hi : i < size)
    (hrsp : thread.tsr.rsp = bottom + i) : thread.kernRsp = .ok (base + i) := by
  rw [Thread.kernRsp, hrsp, kernelPointer, hbacked.translated i hi]
  rfl

theorem peek (hbacked : Backed thread bottom size base place) {i : Nat} (hi : i < size) :
    peek thread (bottom + i) = .ok (thread.paging.memory (place i)) := by
  rw [Signals.peek, kernelPointer, hbacked.translated i hi]
  exact hbacked.reached.loadByte hi

/-- Stores of the kernel do not move the stack. -/
theorem store (hbacked : Backed thread bottom size base place) (memory : Nat → UInt8)
    (tsr : TaskStateRecord) :
    Backed { thread with tsr, paging := { thread.paging with memory } } bottom size base place :=
  ⟨fun i hi => (processUserToKernel_memory memory _ _).trans (hbacked.translated i hi),
    hbacked.reached.congr memory, hbacked.bottomEnd, hbacked.baseEnd⟩

end Backed

/-! ## One delivery and one return -/

/-- The registers of a thread can be saved: the stack pointer is in the stack mapping, with room
below it for the record and a return address. -/
structure Deliverable (thread : Thread) (bottom size : Nat) : Prop where
  valid : thread.tsr.Valid
  room : bottom + recordSize + 8 ≤ thread.tsr.rsp
  inside : thread.tsr.rsp < bottom + size

theorem callHandler_ok (hbacked : Backed thread bottom size base place)
    (hdeliverable : Deliverable thread bottom size) {i : Nat} (hrsp : thread.tsr.rsp = bottom + i)
    (userHandler sig : Nat) :
    ∃ memory, callHandler thread userHandler sig = .ok { thread with
        tsr := { thread.tsr with rsp := bottom + (i - recordSize - 8), rdi := sig,
                                 rip := userHandler }
        paging := { thread.paging with memory } } ∧
      wordsAt (memory ∘ place) (i - recordSize) (recordSize / 8) = thread.tsr.words ∧
      ∀ j < size, j < i - recordSize - 8 ∨ i ≤ j →
        memory (place j) = thread.paging.memory (place j) := by
  obtain ⟨hvalid, hroom, hinside⟩ := hdeliverable
  rw [hrsp] at hroom hinside
  have hsize : recordSize = 144 := rfl
  have hbottom := hbacked.bottomEnd
  have hbase := hbacked.baseEnd
  have hbelow : ∀ {start offset count : Nat}, start + offset < 2 ^ 64 → count ≤ offset →
      u64 (start + offset + 2 ^ 64 - count) = start + (offset - count) := by
    intro start offset count hlt hle
    unfold u64
    omega
  -- the record
  obtain ⟨between, hstore, hholds, hbetween⟩ :=
    hbacked.reached.storeWords (i - recordSize) hvalid
      (show i - recordSize + 8 * 18 ≤ size by omega)
  have hpush : pushTsr thread = .ok { thread with
      tsr := { thread.tsr with rsp := bottom + (i - recordSize) }
      paging := { thread.paging with memory := between } } := by
    have hkern : u64 (base + i + 2 ^ 64 - recordSize) = base + (i - recordSize) :=
      hbelow (by omega) (by omega)
    have hstack : u64 (bottom + i + 2 ^ 64 - recordSize) = bottom + (i - recordSize) :=
      hbelow (by omega) (by omega)
    simp only [pushTsr, hbacked.kernRsp (by omega) hrsp, ok_bind, hkern, hstore, hrsp, hstack,
      pure_eq_ok]
  -- the return address
  have hpushed := hbacked.store between
    { thread.tsr with rsp := bottom + (i - recordSize) }
  obtain ⟨memory, hreturn, hmemory⟩ := hpushed.reached.storeBytes (i - recordSize - 8)
    8 (by omega) processTrampolineUserVaddr
  refine ⟨memory, ?_, ?_, ?_⟩
  · have hkern : u64 (base + (i - recordSize) + 2 ^ 64 - 8) = base + (i - recordSize - 8) :=
      hbelow (by omega) (by omega)
    have hstack : u64 (bottom + (i - recordSize) + 2 ^ 64 - 8) = bottom + (i - recordSize - 8) :=
      hbelow (by omega) (by omega)
    rw [callHandler, hpush, ok_bind]
    simp only [pushFunction, hpushed.kernRsp (by omega) rfl, ok_bind, hkern, storeWord, hreturn,
      hstack, pure_eq_ok]
    rfl
  · rw [← hholds]
    apply wordsAt_congr
    intro j hlow hhigh
    have hj : j < i := by
      rw [show recordSize / 8 = 18 from rfl] at hhigh
      omega
    exact (hmemory j (by omega)).trans (Library.ByteMemory.storeLE_apply_of_outside (by omega))
  · intro j hj hout
    refine (hmemory j hj).trans ((Library.ByteMemory.storeLE_apply_of_outside (by omega)).trans ?_)
    exact hbetween j hj (by
      rw [show thread.tsr.words.length = 18 from rfl]
      omega)

theorem popTsr_ok (hbacked : Backed thread bottom size base place) {i : Nat}
    (hrsp : thread.tsr.rsp = bottom + i) (hroom : i + recordSize ≤ size) {tsr : TaskStateRecord}
    (hwords : wordsAt (thread.paging.memory ∘ place) i (recordSize / 8) = tsr.words) :
    popTsr thread = .ok { thread with tsr } := by
  have hwidth : 8 * (recordSize / 8) = recordSize := rfl
  have hload := hbacked.reached.loadWords i (recordSize / 8) (by omega)
  have hi : i < size := Nat.lt_of_lt_of_le (Nat.lt_add_of_pos_right (by decide)) hroom
  rw [popTsr, hbacked.kernRsp hi hrsp, ok_bind, hload, ok_bind, hwords,
    TaskStateRecord.ofWords_words]
  rfl

/-! ## Nested handlers -/

/-- What a thread does between a delivery and the return that belongs to it. The addresses that
are `live` are left alone by its programs and by the rest of the kernel, and no record is put on
them. They are those of the records that are yet to be popped, and any others of interest. -/
inductive Handling (bottom size : Nat) : (Nat → Prop) → Thread → Thread → Prop
  | done {live : Nat → Prop} {thread : Thread} : Handling bottom size live thread thread
  | run {live : Nat → Prop} {before between after : Thread} (hstack : OnStack between bottom size)
      (hkept : ∀ vaddr, live vaddr → peek between vaddr = peek before vaddr)
      (hrest : Handling bottom size live between after) : Handling bottom size live before after
  | signal {live : Nat → Prop} {before called returned popped after : Thread}
      {userHandler sig : Nat} (hdeliverable : Deliverable before bottom size)
      (hapart : ∀ vaddr, live vaddr →
        vaddr + recordSize + 8 < before.tsr.rsp ∨ before.tsr.rsp ≤ vaddr)
      (hcall : callHandler before userHandler sig = .ok called)
      (hhandler : Handling bottom size
        (fun vaddr => live vaddr ∨
          before.tsr.rsp ≤ vaddr + recordSize ∧ vaddr < before.tsr.rsp) called returned)
      (hreturn : returned.tsr.rsp + recordSize = before.tsr.rsp)
      (hpop : popTsr returned = .ok popped)
      (hrest : Handling bottom size live popped after) : Handling bottom size live before after

/-- A stack pointer in the stack mapping is so many bytes above its bottom. -/
theorem Deliverable.offset (hdeliverable : Deliverable thread bottom size) :
    ∃ i, thread.tsr.rsp = bottom + i ∧ recordSize + 8 ≤ i ∧ i < size := by
  obtain ⟨_, hroom, hinside⟩ := hdeliverable
  exact ⟨thread.tsr.rsp - bottom, by omega, by omega, by omega⟩

/-- A delivery leaves the stack where it is and writes below the stack pointer only. -/
theorem callHandler_keeps (hstack : OnStack before bottom size)
    (hdeliverable : Deliverable before bottom size)
    (hcall : callHandler before userHandler sig = .ok after) :
    OnStack after bottom size ∧ ∀ vaddr, bottom ≤ vaddr → vaddr < bottom + size →
      (vaddr + recordSize + 8 < before.tsr.rsp ∨ before.tsr.rsp ≤ vaddr) →
      peek after vaddr = peek before vaddr := by
  obtain ⟨base, place, hbacked⟩ := hstack
  obtain ⟨i, hrsp, hroom, hinside⟩ := hdeliverable.offset
  obtain ⟨memory, hcalled, _, hkept⟩ := callHandler_ok hbacked hdeliverable hrsp userHandler sig
  cases hcalled.symm.trans hcall
  have hafter := hbacked.store memory { before.tsr with
    rsp := bottom + (i - recordSize - 8), rdi := sig, rip := userHandler }
  refine ⟨⟨base, place, hafter⟩, ?_⟩
  intro vaddr hlow hhigh hout
  obtain ⟨j, rfl⟩ := Nat.exists_eq_add_of_le hlow
  have hj : j < size := by omega
  rw [hafter.peek hj, hbacked.peek hj]
  exact congrArg Except.ok (hkept j hj (by omega))

/-- A return changes nothing but the registers. -/
theorem popTsr_keeps (hpop : popTsr before = .ok after) :
    ∃ tsr, after = { before with tsr } := by
  obtain ⟨kernRsp, _, hpop⟩ := bind_eq_ok.mp hpop
  obtain ⟨words, _, hpop⟩ := bind_eq_ok.mp hpop
  exact ⟨_, (Except.ok.inj hpop).symm⟩

/-- Whatever handlers run in between, the stack stays where it is for the kernel, and what is live
is not written to. -/
theorem Handling.keeps {live : Nat → Prop} (hhandling : Handling bottom size live before after)
    (hlive : ∀ vaddr, live vaddr → bottom ≤ vaddr ∧ vaddr < bottom + size)
    (hstack : OnStack before bottom size) :
    OnStack after bottom size ∧ ∀ vaddr, live vaddr → peek after vaddr = peek before vaddr := by
  induction hhandling with
  | done => exact ⟨hstack, fun _ _ => rfl⟩
  | run hbetween hkept _ ih =>
      obtain ⟨hafter, hrest⟩ := ih hlive hbetween
      exact ⟨hafter, fun vaddr hvaddr => (hrest vaddr hvaddr).trans (hkept vaddr hvaddr)⟩
  | @signal live before called returned popped after userHandler sig hdeliverable hapart hcall _ _
      hpop _ ihHandler ihRest =>
      obtain ⟨hcalled, hcallKept⟩ := callHandler_keeps hstack hdeliverable hcall
      obtain ⟨i, hrsp, hroom, hinside⟩ := hdeliverable.offset
      have hwider : ∀ vaddr, (live vaddr ∨
          before.tsr.rsp ≤ vaddr + recordSize ∧ vaddr < before.tsr.rsp) →
          bottom ≤ vaddr ∧ vaddr < bottom + size := by
        rintro vaddr (hvaddr | ⟨hlow, hhigh⟩)
        · exact hlive vaddr hvaddr
        · omega
      obtain ⟨hreturned, hhandlerKept⟩ := ihHandler hwider hcalled
      obtain ⟨tsr, rfl⟩ := popTsr_keeps hpop
      obtain ⟨base, place, hbacked⟩ := hreturned
      have hpopped : OnStack { returned with tsr } bottom size :=
        ⟨base, place, hbacked.store returned.paging.memory tsr⟩
      obtain ⟨hafter, hrestKept⟩ := ihRest hlive hpopped
      refine ⟨hafter, fun vaddr hvaddr => ?_⟩
      calc peek after vaddr
        _ = peek returned vaddr := hrestKept vaddr hvaddr
        _ = peek called vaddr := hhandlerKept vaddr (.inl hvaddr)
        _ = peek before vaddr :=
          hcallKept vaddr (hlive vaddr hvaddr).1 (hlive vaddr hvaddr).2 (hapart vaddr hvaddr)

/-- A thread whose stack pointer is in its stack mapping gets all its registers back from
`syscall_signalret`, and finds its stack as the handlers left it. -/
theorem handler_returns (live : Nat → Prop) (hstack : OnStack before bottom size)
    (hdeliverable : Deliverable before bottom size)
    (hlive : ∀ vaddr, live vaddr → before.tsr.rsp ≤ vaddr ∧ vaddr < bottom + size)
    (userHandler sig : Nat) :
    ∃ called, callHandler before userHandler sig = .ok called ∧
      ∀ returned, Handling bottom size (fun vaddr => live vaddr ∨
          before.tsr.rsp ≤ vaddr + recordSize ∧ vaddr < before.tsr.rsp) called returned →
        returned.tsr.rsp + recordSize = before.tsr.rsp →
        ∃ after, popTsr returned = .ok after ∧ after.tsr = before.tsr ∧
          ∀ vaddr, live vaddr → peek after vaddr = peek before vaddr := by
  obtain ⟨base, place, hbacked⟩ := hstack
  obtain ⟨i, hrsp, hroom, hinside⟩ := hdeliverable.offset
  obtain ⟨memory, hcall, hholds, hkept⟩ := callHandler_ok hbacked hdeliverable hrsp userHandler sig
  refine ⟨_, hcall, ?_⟩
  intro returned hhandling hreturn
  have hcalled := hbacked.store memory { before.tsr with
    rsp := bottom + (i - recordSize - 8), rdi := sig, rip := userHandler }
  obtain ⟨⟨base', place', hreturned⟩, hhandlerKept⟩ := hhandling.keeps (by
    rintro vaddr (hvaddr | ⟨hlow, hhigh⟩)
    · have := hlive vaddr hvaddr
      omega
    · omega) ⟨base, place, hcalled⟩
  -- the record is what it was, wherever the kernel finds it now
  have hrecord : wordsAt (returned.paging.memory ∘ place') (i - recordSize) (recordSize / 8) =
      before.tsr.words := by
    rw [← hholds]
    apply wordsAt_congr
    intro j hlow hhigh
    have hwidth : 8 * (recordSize / 8) = recordSize := rfl
    have hj : j < size := by omega
    have hbyte := hhandlerKept (bottom + j) (.inr ⟨by omega, by omega⟩)
    rw [hreturned.peek hj, hcalled.peek hj] at hbyte
    exact Except.ok.inj hbyte
  refine ⟨_, popTsr_ok hreturned (i := i - recordSize) (by omega) (by omega) hrecord, rfl, ?_⟩
  intro vaddr hvaddr
  calc peek { returned with tsr := before.tsr } vaddr
    _ = peek returned vaddr := rfl
    _ = _ := hhandlerKept vaddr (.inl hvaddr)
    _ = peek before vaddr := by
      have hrange := hlive vaddr hvaddr
      exact (callHandler_keeps ⟨base, place, hbacked⟩ hdeliverable hcall).2 vaddr (by omega)
        hrange.2 (.inr hrange.1)

/-! ## Mappings as stacks -/

/-- The pages of a root are pages, and different ones. -/
def PagesApart (root : Mapping) : Prop :=
  (∀ i paddr, root.frame? i = some paddr → pageSize ∣ paddr) ∧
  ∀ i j paddr, root.frame? i = some paddr → root.frame? j = some paddr → i = j

/-- The end of a mapping is in the address space. -/
theorem mapping_end {windows : Nat → List (Nat × Nat)} {state : State} {id : Nat}
    {mapping : Mapping} {target : Context} (hlaid : LaidOut windows state)
    (hmapping : state.mappings id = some mapping)
    (htarget : state.contexts mapping.context = some target) :
    mapping.vaddr + mapping.sizePages * pageSize ≤ 2 ^ 64 := by
  obtain ⟨region, hregion, _, hrange⟩ :=
    Valloc.mem_reserved.mp (hlaid.mem_reserved hmapping htarget)
  obtain ⟨hvaddr, hsize⟩ := Prod.mk.inj hrange
  have hend := (hlaid.wellFormed _ target htarget).bounds hregion
  rw [hvaddr, hsize]
  unfold Valloc.regionSize pageSize at *
  omega

/-- No other mapping of a context has an address of a mapping. -/
theorem getVaddr_of_mapping {windows : Nat → List (Nat × Nat)} {state : State} {id i : Nat}
    {mapping : Mapping} {target : Context} (hlaid : LaidOut windows state)
    (hmapping : state.mappings id = some mapping)
    (htarget : state.contexts mapping.context = some target)
    (hi : i < mapping.sizePages * pageSize) :
    getVaddr state mapping.context (mapping.vaddr + i) = .ok (some id) := by
  have haligned := (hlaid.vacant_release hmapping htarget).1
  cases hanswer : getVaddr state mapping.context (mapping.vaddr + i) with
  | error fault =>
      unfold getVaddr at hanswer
      rw [State.context_eq_ok.mpr htarget, ok_bind] at hanswer
      cases hanswer
  | ok answer =>
  cases answer with
  | none =>
      exfalso
      unfold getVaddr at hanswer
      rw [State.context_eq_ok.mpr htarget, ok_bind, pure_eq_ok, Except.ok.injEq] at hanswer
      have hmiss := List.find?_eq_none.mp hanswer id (hlaid.mem_listed hmapping htarget)
      simp only [hmapping, decide_eq_true_eq] at hmiss
      omega
  | some other =>
      obtain ⟨found, hother, hcontext, j, hj, hpage⟩ := getVaddr_spec hlaid htarget hanswer
      have hotherTarget : state.contexts found.context = some target := hcontext ▸ htarget
      by_cases hsame : other = id
      · rw [hsame]
      have hin := inRange_add (hlaid.vacant_release hother hotherTarget).1 hj
      have hown : InRange mapping.range (found.vaddr / pageSize + j) := by
        rw [← hpage, Mapping.range, inRange_iff haligned]
        obtain ⟨first, hfirst⟩ := haligned
        rw [hfirst]
        unfold pageSize at *
        omega
      exact absurd (hlaid.apart hsame hother hmapping hcontext hotherTarget) (hin.not_apart hown)

/-- The bytes of a root lie where its pages are. -/
def rootPlace (root : Mapping) (i : Nat) : Nat :=
  (root.frame? (i / pageSize)).getD 0 + i % pageSize

/-- The kernel reaches the bytes of a root, each at a place of its own. -/
theorem reached_of_sound {state : State} {held : List Nat} {id : Nat} {root : Mapping}
    (hsound : Sound held state) (hroot : state.mappings id = some root)
    (hisRoot : root.kind.isRoot = true) (hapart : PagesApart root) :
    Reached state root.vaddr (root.sizePages * pageSize) (rootPlace root) := by
  obtain ⟨_, ⟨windows, hlaid⟩, hmirrored, ⟨hkernel, hroots⟩⟩ := hsound
  have hcontext := hroots id root hroot hisRoot
  obtain ⟨kernel, hkernel⟩ := Option.isSome_iff_exists.mp hkernel
  have hend := mapping_end hlaid hroot (hcontext ▸ hkernel)
  obtain ⟨first, hfirst⟩ := (hlaid.vacant_release hroot (hcontext ▸ hkernel)).1
  have hpage : ∀ i < root.sizePages * pageSize, i / pageSize < root.sizePages := fun i hi =>
    Nat.div_lt_of_lt_mul (by rwa [Nat.mul_comm])
  constructor
  case address =>
    intro i hi
    obtain ⟨paddr, hpaddr, hleaf⟩ := hmirrored.mapped hroot (hcontext ▸ hkernel) (hpage i hi)
    have hframe : root.frame? (i / pageSize) = some paddr := by
      rwa [State.frame?, Kind.lender?_eq_none_iff.mpr hisRoot] at hpaddr
    have hsame : (root.vaddr + i) / pageSize = root.vaddr / pageSize + i / pageSize := by
      rw [hfirst]
      unfold pageSize
      omega
    have hoffset : (root.vaddr + i) % pageSize = i % pageSize := by
      rw [hfirst]
      unfold pageSize
      omega
    have hu64 : u64 (root.vaddr + i) = root.vaddr + i := u64_eq_self (by omega)
    rw [kernelAddress, State.context_eq_ok.mpr hkernel, ok_bind, hu64, Pman.translate, hsame, hleaf,
      rootPlace, hframe, hoffset]
    rfl
  case apart =>
    intro i hi j hj hsamePlace
    have hwhole := hmirrored.whole id root hroot
    obtain ⟨paddr, hpaddr⟩ :=
      Option.isSome_iff_exists.mp (hwhole.frame_isSome hisRoot (hpage i hi))
    obtain ⟨other, hother⟩ :=
      Option.isSome_iff_exists.mp (hwhole.frame_isSome hisRoot (hpage j hj))
    simp only [rootPlace, hpaddr, hother, Option.getD_some] at hsamePlace
    obtain ⟨frame, rfl⟩ := hapart.1 _ _ hpaddr
    obtain ⟨otherFrame, rfl⟩ := hapart.1 _ _ hother
    have hframes : pageSize * frame = pageSize * otherFrame := by
      unfold pageSize at *
      omega
    have hpages := hapart.2 _ _ _ hpaddr (hframes ▸ hother)
    unfold pageSize at *
    omega

/-- In every state between calls of the manager a mapping that a process was lent can be its
stack. -/
theorem onStack_of_sound {held : List Nat} {id lender : Nat} {mapping root : Mapping}
    (hsound : Sound held thread.paging) (hmapping : thread.paging.mappings id = some mapping)
    (hcontext : mapping.context = thread.pagingContext)
    (hlender : mapping.kind.lender? = some lender)
    (hroot : thread.paging.mappings lender = some root) (hapart : PagesApart root) :
    OnStack thread mapping.vaddr (mapping.sizePages * pageSize) := by
  obtain ⟨found, hfound, hisRoot⟩ := hsound.counted.lender id mapping lender hmapping hlender
  obtain rfl : root = found := Option.some.inj (hroot.symm.trans hfound)
  have hreached := reached_of_sound hsound hroot hisRoot hapart
  obtain ⟨hcounted, ⟨windows, hlaid⟩, _, ⟨hkernel, hroots⟩⟩ := hsound
  obtain ⟨target, htarget⟩ := Option.isSome_iff_exists.mp (hcounted.context id mapping hmapping)
  obtain ⟨kernel, hkernel⟩ := Option.isSome_iff_exists.mp hkernel
  have hend := mapping_end hlaid hroot (hroots lender root hroot hisRoot ▸ hkernel)
  have hrootId : thread.paging.root id = .ok lender :=
    State.root_of_lender (Nat.zero_lt_of_lt (hcounted.id_lt hmapping)) hmapping hlender hroot
      hisRoot
  rw [hlaid.loanSize id mapping lender root hmapping hlender hroot] at hreached hend
  refine ⟨root.vaddr, rootPlace root, ⟨?_, hreached, mapping_end hlaid hmapping htarget, hend⟩⟩
  intro i hi
  rw [processUserToKernel, ← hcontext, getVaddr_of_mapping hlaid hmapping htarget hi, ok_bind]
  simp only [State.mapping_eq_ok.mpr hmapping, hrootId, State.mapping_eq_ok.mpr hroot, ok_bind,
    pure_eq_ok, Except.ok.injEq, Option.some.injEq]
  omega

/-! ## A stack of one page -/

/-- A thread of the process with context 1. -/
def threadOf (paging : State) (rsp : Nat) : Thread where
  tsr := ⟨1, 2, 3, 4, 5, 6, 7, rsp, 8, 9, 10, 11, 12, 13, 14, 15, 16, 0x202⟩
  pagingContext := 1
  paging := paging

/-- The page at 0x8000 can be a stack, but the kernel does not find its end. -/
theorem onStack_share : ∃ paging, (∀ rsp, OnStack (threadOf paging rsp) 0x8000 0x1000) ∧
    callHandler (threadOf paging 0x9000) 0x8100000000 3 = .error .badPointer := by
  have hcalls : ∃ dropped vaddr,
      SharesPage 4096 ⟨true, false, false, false⟩ dropped ∧
      dropped.mappings 1 = some ⟨1, ⟨true, false, false, false⟩, 0x8000, 1, .shared 0⟩ ∧
      dropped.mappings 0 =
        some ⟨kernelContext, ⟨true, false, false, false⟩, vaddr, 1, .alloc 1 [0x5000]⟩ ∧
      callHandler (threadOf dropped 0x9000) 0x8100000000 3 = .error .badPointer :=
    ⟨_, _, ⟨_, _, rfl, rfl, rfl, rfl, rfl⟩, rfl, rfl, rfl⟩
  obtain ⟨dropped, vaddr, hshares, hmapping, hroot, hfault⟩ := hcalls
  have hreach := hshares.reachable (by decide)
  refine ⟨dropped, fun rsp => ?_, hfault⟩
  have hsound : Pman.Sound [] (threadOf dropped rsp).paging :=
    Pman.sound_of_reachable (pagesFrom_exact _) hreach
  have hpages : ∀ i paddr, [0x5000][i]? = some paddr → i = 0 ∧ paddr = 0x5000 := by
    intro i paddr hpaddr
    cases i with
    | zero => exact ⟨rfl, (Option.some.inj hpaddr).symm⟩
    | succ i => simp at hpaddr
  refine onStack_of_sound hsound hmapping rfl rfl hroot ⟨?_, ?_⟩
  · intro i paddr hpaddr
    obtain ⟨_, rfl⟩ := hpages i paddr hpaddr
    exact ⟨5, rfl⟩
  · intro i j paddr hi hj
    rw [(hpages i paddr hi).1, (hpages j paddr hj).1]

/-- A handler that returns at once. -/
theorem handler_returns_at_once : ∃ thread called after,
    callHandler thread 0x8100000000 3 = .ok called ∧
      popTsr { called with tsr := { called.tsr with rsp := called.tsr.rsp + 8 } } = .ok after ∧
      after.tsr = thread.tsr := by
  obtain ⟨dropped, hstacks, _⟩ := onStack_share
  have hstack := hstacks 0x8800
  have hdeliverable : Deliverable (threadOf dropped 0x8800) 0x8000 0x1000 := by
    refine ⟨?_, ?_, ?_⟩
    · intro word hword
      simp only [TaskStateRecord.words, threadOf, List.mem_cons, List.not_mem_nil, or_false] at hword
      omega
    · show 0x8000 + 144 + 8 ≤ 0x8800
      decide
    · show 0x8800 < 0x8000 + 0x1000
      decide
  obtain ⟨called, hcall, hreturns⟩ :=
    handler_returns (fun _ => False) hstack hdeliverable (fun _ h => h.elim) 0x8100000000 3
  obtain ⟨base, place, hbacked⟩ := hstack
  obtain ⟨memory, hcalled, _⟩ := callHandler_ok hbacked hdeliverable (i := 0x800) rfl 0x8100000000 3
  cases hcalled.symm.trans hcall
  have hreturned : OnStack _ 0x8000 0x1000 := ⟨base, place, hbacked.store memory
    { (threadOf dropped 0x8800).tsr with
      rsp := 0x8000 + (0x800 - recordSize - 8) + 8, rdi := 3, rip := 0x8100000000 }⟩
  obtain ⟨after, hpop, hsame, _⟩ := hreturns _ (.run hreturned (fun _ _ => rfl) .done) rfl
  exact ⟨_, _, after, hcall, hpop, hsame⟩

/-- An empty stack: the frames would fit below its end, but the kernel does not find them. -/
theorem callHandler_at_end : ∃ thread, OnStack thread 0x8000 0x1000 ∧
    thread.tsr.rsp = 0x9000 ∧ callHandler thread 0x8100000000 3 = .error .badPointer := by
  obtain ⟨paging, hstack, hfault⟩ := onStack_share
  exact ⟨threadOf paging 0x9000, hstack 0x9000, rfl, hfault⟩

end PKernel.Signals
