import PKernel.Paging.TeardownRun
import PKernel.Paging.KernelViews
import PKernel.Programs.Exec

/-! # What goes onto the stack

`push_main_args` translates the stack pointer once and stores the argument vector downward from
there, whatever it is that the kernel has mapped at these addresses.
-/

namespace PKernel.Programs

open Pman
open Library.Transition

/-- The addresses of the words that `push_main_args` stores, in the order of the stores. -/
def pushAddresses (kernRsp argc : Nat) : List Nat :=
  let base := u64 (kernRsp + 2 ^ 64 - u64 (8 * argc))
  (List.range argc).map (fun i => base + 8 * i) ++ [u64 (base + 2 ^ 64 - 8)]

/-! ## The stores of `push_main_args` -/

section Stores

variable {state : Pman.State} {context argc : Nat} {tsr : Tsr.TaskStateRecord} {argv : List Nat}

/-- The loop stores the pointers one after the other. -/
theorem storePointers_eq {kernRsp count : Nat} (hcount : count ≤ argv.length) :
    storePointers argv kernRsp count state = storeWords kernRsp (argv.take count) state := by
  induction count with
  | zero => rfl
  | succ count ih =>
      have hentry : argv[count]? = some argv[count] := List.getElem?_eq_getElem hcount
      have htaken : (argv.take count).length = count := List.length_take_of_le (by omega)
      rw [storePointers, ih (Nat.le_of_succ_le hcount), List.take_add_one, hentry,
        storeWords_append, htaken]
      exact bind_congr fun stored => (storeWords_singleton _ _ stored).symm

/-- The stores stay between two addresses exactly if they have room below the stack pointer. -/
theorem pushAddresses_inside {kernRsp low size : Nat} (hargc : argc ≤ 2 ^ 45)
    (hend : low + size ≤ 2 ^ 48) :
    (∀ vaddr ∈ pushAddresses kernRsp argc, ∀ i < 8,
      low ≤ u64 (vaddr + i) ∧ u64 (vaddr + i) < low + size) ↔
    low + 8 * (argc + 1) ≤ u64 kernRsp ∧ u64 kernRsp ≤ low + size := by
  constructor
  · intro hinside
    have hargcWord := hinside _ (List.mem_append_right _ (List.mem_singleton.mpr rfl))
    have hfirst := hargcWord 0 (by omega)
    have hlast := hargcWord 7 (by omega)
    rcases Nat.eq_zero_or_pos argc with rfl | hpositive
    · unfold u64 at *
      omega
    · have hpointer := hinside (u64 (kernRsp + 2 ^ 64 - u64 (8 * argc)) + 8 * (argc - 1))
        (List.mem_append_left _ (List.mem_map.mpr
          ⟨argc - 1, List.mem_range.mpr (by omega), rfl⟩)) 7 (by omega)
      unfold u64 at *
      omega
  · rintro ⟨hlow, hhigh⟩ vaddr hvaddr i hi
    rcases List.mem_append.mp hvaddr with hpointer | hargcWord
    · obtain ⟨j, hj, rfl⟩ := List.mem_map.mp hpointer
      have hj := List.mem_range.mp hj
      unfold u64 at *
      omega
    · have hvaddr := List.mem_singleton.mp hargcWord
      unfold u64 at *
      omega

end Stores

/-! ## A stack of two pages -/

section Example

variable {paging : Pman.State}

/-- Pages of its own for each mapping that is made. -/
def pagesBy (state : Pman.State) (count : Nat) : Option (List Nat) :=
  pagesFrom (0x5000 + 0x10000 * state.nextMapping) state count

theorem pagesBy_exact : Exact pagesBy := fun state => pagesFrom_exact _ state

/-- The string `"/"` at 0x8010 of the stack, and its address at 0x8020. -/
def stackBytes (paddr : Nat) : UInt8 :=
  if paddr = 0x15010 then Vfs.slash
  else if paddr = 0x15020 then 0x10
  else if paddr = 0x15021 then 0x80
  else 0

/-- A process of context 1 whose mapping 2 is its stack, and the root directory. -/
def stackWorldOf (paging : Pman.State) (rsp : Nat) : World where
  process := { (worldOf paging).process with
    tsr := { (worldOf paging).process.tsr with rsp }, stackMapping := 2 }
  paging := { paging with memory := stackBytes }
  files := (rootWorldOf paging).files

/-- The stack is at 0x8000 for the process and at 0x1000 for the kernel. -/
def StackMade (paging : Pman.State) : Prop :=
  ∃ first allocated lent target,
    addAlloc pagesBy (newContext emptyState).2 kernelContext ⟨true, false, false, false⟩ 0 4096 =
      .ok (0, first) ∧
    addAlloc pagesBy first kernelContext ⟨true, false, false, false⟩ 0 0x2000 =
      .ok (1, allocated) ∧
    allocated.contexts 1 = some target ∧ target.regions = Valloc.initial ∧
    addShared allocated 1 ⟨true, false, false, false⟩ 1 0x8000 = .ok (2, lent) ∧
    (Op.addShared 1 ⟨true, false, false, false⟩ 1 0x8000).request allocated =
      some (1, 0x8000, 2) ∧
    unmap lent 1 = .ok paging

theorem StackMade.reachable (hmade : StackMade paging) (rsp : Nat) :
    (lifetimes pagesBy).Reachable ⟨(stackWorldOf paging rsp).paging, [0]⟩ := by
  obtain ⟨first, allocated, lent, target, hfirst, halloc, hcontext, hregions, hshare, hrequest,
    hunmap⟩ := hmade
  have hreach := kernelRuns_lend
    (kernelRuns_alloc kernelRuns_newContext (by decide) hfirst) (by decide) halloc hcontext
    hshare hrequest (by decide)
    (hregions ▸ ⟨_, List.mem_cons_self, rfl, by decide, by decide⟩) hunmap
  have hstore : KernelStep pagesBy ⟨paging, [0]⟩ none ⟨(stackWorldOf paging rsp).paging, [0]⟩ :=
    .store stackBytes
  exact lifetimes_of_kernelRuns (hreach.step hstore)

end Example

end PKernel.Programs
