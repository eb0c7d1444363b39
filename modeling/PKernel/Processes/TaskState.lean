import PKernel.Machine

/-! # Task state records

`task_state_record_t`: the registers that a thread leaves the processor with, and the small
functions that set some of them. The record is packed, with its fields in the order in which
they stand here.
-/

namespace PKernel.Tsr

/-- `task_state_record_t`. -/
structure TaskStateRecord where
  rax : Nat
  rbx : Nat
  rcx : Nat
  rdx : Nat
  rsi : Nat
  rdi : Nat
  rbp : Nat
  rsp : Nat
  r8 : Nat
  r9 : Nat
  r10 : Nat
  r11 : Nat
  r12 : Nat
  r13 : Nat
  r14 : Nat
  r15 : Nat
  rip : Nat
  flags : Nat
deriving DecidableEq, Repr

namespace TaskStateRecord

/-- The fields in their order. -/
def words (tsr : TaskStateRecord) : List Nat :=
  [tsr.rax, tsr.rbx, tsr.rcx, tsr.rdx, tsr.rsi, tsr.rdi, tsr.rbp, tsr.rsp, tsr.r8, tsr.r9, tsr.r10,
    tsr.r11, tsr.r12, tsr.r13, tsr.r14, tsr.r15, tsr.rip, tsr.flags]

/-- The record with these fields. -/
def ofWords (words : List Nat) : TaskStateRecord :=
  let word := fun i => words.getD i 0
  ⟨word 0, word 1, word 2, word 3, word 4, word 5, word 6, word 7, word 8, word 9, word 10, word 11,
    word 12, word 13, word 14, word 15, word 16, word 17⟩

theorem ofWords_words (tsr : TaskStateRecord) : ofWords tsr.words = tsr := rfl

/-- The fields are of type `uint64_t`. -/
def Valid (tsr : TaskStateRecord) : Prop := ∀ word ∈ tsr.words, word < 2 ^ 64

end TaskStateRecord

/-- `sizeof(task_state_record_t)`. -/
def recordSize : Nat := 144

/-- `tsr_load_pc`, which `thread_load_pc` calls. -/
def tsrLoadPc (tsr : TaskStateRecord) (pc : Nat) : TaskStateRecord := { tsr with rip := pc }

/-- `tsr_load_return`. -/
def tsrLoadReturn (tsr : TaskStateRecord) (value : Nat) : TaskStateRecord := { tsr with rax := value }

/-- `tsr_set_stack`. -/
def tsrSetStack (tsr : TaskStateRecord) (stack size : Nat) : TaskStateRecord :=
  let top := u64 (stack + size + 2 ^ 64 - 8)
  { tsr with rbp := top, rsp := top }

section Flags

variable (tsr : TaskStateRecord)

@[simp]
theorem tsrLoadPc_flags (pc : Nat) : (tsrLoadPc tsr pc).flags = tsr.flags := by
  cases tsr
  rfl

@[simp]
theorem tsrLoadReturn_flags (value : Nat) : (tsrLoadReturn tsr value).flags = tsr.flags := by
  cases tsr
  rfl

@[simp]
theorem tsrSetStack_flags (stack size : Nat) : (tsrSetStack tsr stack size).flags = tsr.flags := by
  cases tsr
  rfl

end Flags

end PKernel.Tsr
