import PKernel.Paging.KernelMemory
import PKernel.Programs.Loader

/-! # Arguments of programs

The kernel reaches the memory of a process through the roots of its mappings. That way
`process_push_args` puts the strings of an argument vector into a new mapping of the process, and
`push_main_args` the vector itself onto the stack.
-/

namespace PKernel.Programs

open Pman

section Code

/-! ## The argument vector -/

/-- The loop of `push_main_args`. -/
def storePointers (argv : List Nat) (kernRsp : Nat) : Nat → Pman.State → Except Fault Pman.State
  | 0, state => .ok state
  | i + 1, state => do
      let state ← storePointers argv kernRsp i state
      match argv[i]? with
      | some pointer => storeWord state (kernRsp + 8 * i) pointer
      | none => throw .badPointer

/-- `push_main_args`. -/
def pushMainArgs (context : Nat) (state : Pman.State) (tsr : Tsr.TaskStateRecord) (argc : Nat)
    (argv : List Nat) : Except Fault (Tsr.TaskStateRecord × Pman.State) := do
  let kernRsp ← kernelPointer state context tsr.rsp
  let kernRsp := u64 (kernRsp + 2 ^ 64 - u64 (8 * argc))
  let state ← storePointers argv kernRsp argc state
  let state ← storeWord state (u64 (kernRsp + 2 ^ 64 - 8)) argc
  return ({ tsr with rsp := u64 (tsr.rsp + 2 ^ 64 - u64 (8 * (1 + argc))) }, state)

/-- The sum of `strlen(argv[i]) + 1`. -/
def requiredSize (state : Pman.State) : List Nat → Except Fault Nat
  | [] => .ok 0
  | arg :: args => do
      let string ← stringAt state arg
      return u64 (string.chars.length + 1 + (← requiredSize state args))

/-- The second loop of `process_push_args`, from `pos` on, with the pointers it stores. -/
def copyStrings (kernBuf userBuf : Nat) : Nat → Pman.State → List Nat →
    Except Fault (List Nat × Pman.State)
  | _, state, [] => .ok ([], state)
  | pos, state, arg :: args => do
      let length := (← stringAt state arg).chars.length
      let kernel ← state.context kernelContext
      let memory ← memcpy kernel.table state.memory (kernBuf + pos) arg (length + 1)
      let (pointers, state) ←
        copyStrings kernBuf userBuf (pos + length + 1) { state with memory } args
      return ((userBuf + pos) :: pointers, state)

variable (palloc : Pman.State → Nat → Option (List Nat))

/-- The part of `process_push_args` for a vector that is not empty. The heap has memory for
`process->argv`. -/
def newArguments (context : Nat) (state : Pman.State) (argv : List Nat) :
    Except Fault (List Nat × Pman.State) := do
  let size ← requiredSize state argv
  let (kernMapping, state) ← addAlloc palloc state kernelContext ⟨false, false, false, false⟩ 0 size
  let (userMapping, state) ← addShared state context ⟨false, false, false, false⟩ kernMapping 0
  let kernBuf := (← state.mapping kernMapping).vaddr
  let userBuf := (← state.mapping userMapping).vaddr
  let (pointers, state) ← copyStrings kernBuf userBuf 0 state argv
  return (pointers, ← unmap state kernMapping)

/-- `process->argv`, with the strings it points to in place. -/
def argumentPointers (context : Nat) (state : Pman.State) (argv : List Nat) :
    Except Fault (List Nat × Pman.State) :=
  if argv = [] then .ok ([], state) else newArguments palloc context state argv

/-- `process_push_args`, with the vector as a list of `argc` addresses of the kernel. -/
def processPushArgs (process : Process) (state : Pman.State) (argv : List Nat) :
    Except Fault (Process × Pman.State) := do
  let (pointers, state) ← argumentPointers palloc process.pagingContext state argv
  let process := { process with argc := argv.length, argv := pointers }
  let (tsr, state) ←
    pushMainArgs process.pagingContext state process.tsr process.argc process.argv
  return ({ process with tsr }, state)

end Code

/-! ## What the functions change -/

section Frames

variable {palloc : Pman.State → Nat → Option (List Nat)} {state next : Pman.State}
  {context argc : Nat} {tsr tsr' : Tsr.TaskStateRecord} {argv pointers : List Nat}
  {process process' : Process}

theorem storePointers_frame {kernRsp count : Nat}
    (hcall : storePointers argv kernRsp count state = .ok next) :
    ∃ memory, next = { state with memory } := by
  induction count generalizing next with
  | zero => exact ⟨state.memory, (Except.ok.inj hcall).symm⟩
  | succ count ih =>
      obtain ⟨between, hrest, hpointer⟩ := bind_eq_ok.mp hcall
      obtain ⟨memory, rfl⟩ := ih hrest
      cases hentry : argv[count]? with
      | none => simp [hentry] at hpointer
      | some pointer =>
          simp only [hentry] at hpointer
          obtain ⟨last, rfl⟩ := storeBytes_frame hpointer
          exact ⟨last, rfl⟩

/-- `push_main_args` writes to memory and moves the stack pointer down. -/
theorem pushMainArgs_frame (hcall : pushMainArgs context state tsr argc argv = .ok (tsr', next)) :
    tsr' = { tsr with rsp := u64 (tsr.rsp + 2 ^ 64 - u64 (8 * (1 + argc))) } ∧
      ∃ memory, next = { state with memory } := by
  obtain ⟨kernRsp, _, hcall⟩ := bind_eq_ok.mp hcall
  obtain ⟨stored, hpointers, hcall⟩ := bind_eq_ok.mp hcall
  obtain ⟨last, hargc, hcall⟩ := bind_eq_ok.mp hcall
  obtain ⟨_, rfl⟩ := storePointers_frame hpointers
  obtain ⟨memory, rfl⟩ := storeBytes_frame hargc
  cases hcall
  exact ⟨rfl, memory, rfl⟩

theorem copyStrings_frame {kernBuf userBuf pos : Nat}
    (hcall : copyStrings kernBuf userBuf pos state argv = .ok (pointers, next)) :
    ∃ memory, next = { state with memory } := by
  induction argv generalizing pos state pointers with
  | nil => exact ⟨state.memory, (Prod.mk.inj (Except.ok.inj hcall)).2.symm⟩
  | cons arg args ih =>
      obtain ⟨string, _, hcall⟩ := bind_eq_ok.mp hcall
      obtain ⟨kernel, _, hcall⟩ := bind_eq_ok.mp hcall
      obtain ⟨copied, _, hcall⟩ := bind_eq_ok.mp hcall
      obtain ⟨⟨rest, last⟩, hrest, hcall⟩ := bind_eq_ok.mp hcall
      cases hcall
      obtain ⟨memory, rfl⟩ := ih hrest
      exact ⟨memory, rfl⟩

/-- A vector that is not empty comes with a new mapping of the process. -/
theorem newArguments_mapping {held : List Nat} (hcounted : Counted state held)
    (hcall : newArguments palloc context state argv = .ok (pointers, next)) :
    ∃ id loan, state.mappings id = none ∧ next.mappings id = some loan ∧
      loan.context = context := by
  obtain ⟨size, _, hcall⟩ := bind_eq_ok.mp hcall
  obtain ⟨⟨kern, allocated⟩, halloc, hcall⟩ := bind_eq_ok.mp hcall
  obtain ⟨⟨user, shared⟩, hshare, hcall⟩ := bind_eq_ok.mp hcall
  obtain ⟨kernBuf, _, hcall⟩ := bind_eq_ok.mp hcall
  obtain ⟨userBuf, _, hcall⟩ := bind_eq_ok.mp hcall
  obtain ⟨⟨_, copied⟩, hcopy, hcall⟩ := bind_eq_ok.mp hcall
  obtain ⟨last, hunmap, hcall⟩ := bind_eq_ok.mp hcall
  cases hcall
  obtain ⟨memory, rfl⟩ := copyStrings_frame hcopy
  have hallocated := addAlloc_counted hcounted halloc
  obtain ⟨rootId, _, _, loan, _, rfl, _, hcontext, _, hmappings, _⟩ := addLoan_frame hshare
  have hfresh := hallocated.fresh _ (Nat.le_refl _)
  have hshared : Counted { shared with memory } (kern :: held) :=
    (addShared_counted hallocated hshare).congr rfl rfl rfl rfl fun _ h => h
  obtain ⟨root, _, hdrop⟩ := hshared.unmap_root List.mem_cons_self
  cases hdrop.symm.trans hunmap
  obtain ⟨_, hkern, _⟩ := hallocated.held kern List.mem_cons_self
  have hne : allocated.nextMapping ≠ kern := (Nat.ne_of_lt (hallocated.id_lt hkern)).symm
  refine ⟨allocated.nextMapping, loan, ?_, ?_, hcontext⟩
  · by_contra hlive
    obtain ⟨found, hfound⟩ := Option.ne_none_iff_exists'.mp hlive
    rw [addAlloc_mappings_of_live hcounted halloc hfound] at hfresh
    cases hfresh
  · rw [State.drop_mappings, Function.update_of_ne hne]
    simp only [hmappings, Function.update_self]

end Frames

end PKernel.Programs
