import PKernel.Programs.ArgumentVector

/-! # Room on the stack

`push_main_args` is given the mapping of the stack and does not look at it, and `syscall_exec`
takes any count. So what a call stores stays in the stack exactly if there is room for it between
the first address of the stack and the stack pointer.
-/

namespace PKernel.Programs

open Pman
open Library.Transition

section Code

variable (palloc : Pman.State → Nat → Option (List Nat))
  (elfLoadSegment : ProgramHeader → Nat → Table → (Nat → UInt8) → Except Fault (Nat → UInt8))
  (elfLoad : Vfs.State → Nat → Option Elf) (disc : Vfs.Disc)

/-- The path leads to a file. -/
def Opened (world : World) (path dirent : Nat) (files : Vfs.State) : Prop :=
  ∃ kernPath string,
    processUserToKernel world.paging world.process.pagingContext path = .ok (some kernPath) ∧
    stringAt world.paging kernPath = .ok string ∧
    Vfs.processOpenPath disc world.files world.process.workingDir string = .ok (some dirent, files)

/-- A call of `syscall_exec` gets to `push_main_args`, with this state of the memory, this stack
pointer and this count: in `process_push_args`, and at the end of a call that loads a program. -/
inductive Pushes (world : World) (path argv argc : Nat) : Pman.State → Nat → Nat → Prop
  | arguments {dirent : Nat} {files : Vfs.State} {kernArgv pointers : List Nat}
      {paging : Pman.State} (hopened : Opened disc world path dirent files)
      (hargv : kernelArgv world.paging world.process.pagingContext argv argc = .ok kernArgv)
      (hpointers : argumentPointers palloc world.process.pagingContext world.paging kernArgv =
        .ok (pointers, paging)) :
      Pushes world path argv argc paging world.process.tsr.rsp kernArgv.length
  | entry {dirent : Nat} {files left : Vfs.State} {kernArgv : List Nat} {process : Process}
      {paging : Pman.State} {loaded : World} {stack : Mapping}
      (hopened : Opened disc world path dirent files)
      (hargv : kernelArgv world.paging world.process.pagingContext argv argc = .ok kernArgv)
      (hpush : processPushArgs palloc world.process world.paging kernArgv = .ok (process, paging))
      (hload : loadProgram palloc elfLoadSegment elfLoad ⟨process, paging, files⟩ (some dirent) =
        .ok (none, loaded))
      (hrelease : Vfs.directoryEntryRelease loaded.files dirent = .ok left)
      (hstack : loaded.paging.mapping loaded.process.stackMapping = .ok stack) :
      Pushes world path argv argc loaded.paging
        (Tsr.tsrSetStack loaded.process.tsr stack.vaddr (stack.sizePages * pageSize)).rsp
        loaded.process.argc

/-- The root behind `process->threads[0]->stack_mapping`. It and its addresses are the same as
long as the mapping is there. -/
def stackRoot (world : World) : Except Fault Mapping := do
  world.paging.mapping (← world.paging.root world.process.stackMapping)

/-- What is to hold of a call of `syscall_exec`. -/
structure OnStack (world : World) (path argv argc : Nat) (root : Mapping) : Prop where
  /-- Every byte that `push_main_args` stores is in the stack. -/
  inside : ∀ paging rsp count kernRsp,
    Pushes palloc elfLoadSegment elfLoad disc world path argv argc paging rsp count →
    kernelPointer paging world.process.pagingContext rsp = .ok kernRsp →
    ∀ vaddr ∈ pushAddresses kernRsp count, ∀ i < 8,
      root.vaddr ≤ u64 (vaddr + i) ∧ u64 (vaddr + i) < root.vaddr + root.sizePages * pageSize
  /-- A vector that is larger than the stack is an error. -/
  rejected : root.sizePages * pageSize < 8 * (argc + 1) → ∀ result after,
    syscallExec palloc elfLoadSegment elfLoad disc world path argv argc = .ok (result, after) →
    result ≠ none

/-- Each time the call gets to `push_main_args`, the stack pointer leads the kernel into the stack
or to its end, with room for the vector and its length below. -/
def HasRoom (world : World) (path argv argc : Nat) (root : Mapping) : Prop :=
  ∀ paging rsp count kernRsp,
    Pushes palloc elfLoadSegment elfLoad disc world path argv argc paging rsp count →
    kernelPointer paging world.process.pagingContext rsp = .ok kernRsp →
    root.vaddr + 8 * (argc + 1) ≤ u64 kernRsp ∧
      u64 kernRsp ≤ root.vaddr + root.sizePages * pageSize

end Code

/-! ## The calls -/

section Calls

variable {palloc : Pman.State → Nat → Option (List Nat)}
  {elfLoadSegment : ProgramHeader → Nat → Table → (Nat → UInt8) → Except Fault (Nat → UInt8)}
  {elfLoad : Vfs.State → Nat → Option Elf} {disc : Vfs.Disc} {world after : World}
  {result : Option ExecError} {path argv argc count rsp : Nat} {paging : Pman.State} {root : Mapping}

theorem mapM_eq_ok {ε α β : Type} {call : α → Except ε β} {l : List α} {values : List β}
    (hcall : l.mapM call = .ok values) :
    values.length = l.length ∧ ∀ a ∈ l, ∃ value, call a = .ok value := by
  induction l generalizing values with
  | nil =>
      rw [List.mapM_nil, pure_eq_ok] at hcall
      cases hcall
      exact ⟨rfl, fun a ha => absurd ha List.not_mem_nil⟩
  | cons head l ih =>
      rw [List.mapM_cons] at hcall
      obtain ⟨value, hhead, hcall⟩ := bind_eq_ok.mp hcall
      obtain ⟨rest, hrest, hcall⟩ := bind_eq_ok.mp hcall
      cases hcall
      obtain ⟨hlength, hall⟩ := ih hrest
      refine ⟨congrArg (· + 1) hlength, ?_⟩
      intro a ha
      rcases List.mem_cons.mp ha with rfl | ha
      · exact ⟨value, hhead⟩
      · exact hall a ha

/-- A vector that the kernel can read is no longer than the addresses it can read at. -/
theorem kernelArgv_length {held kernArgv : List Nat} {context : Nat} (hsound : Sound held paging)
    (hcall : kernelArgv paging context argv argc = .ok kernArgv) :
    kernArgv.length = argc ∧ argc ≤ 2 ^ 45 := by
  unfold kernelArgv at hcall
  by_cases hzero : argc = 0
  · rw [if_pos hzero, pure_eq_ok, Except.ok.injEq] at hcall
    rw [← hcall, hzero]
    exact ⟨rfl, Nat.zero_le _⟩
  rw [if_neg hzero] at hcall
  obtain ⟨kernArgv', _, hcall⟩ := bind_eq_ok.mp hcall
  obtain ⟨hlength, hall⟩ := mapM_eq_ok hcall
  refine ⟨hlength.trans List.length_range, ?_⟩
  have hread : ∀ i < argc, u64 (kernArgv' + 8 * i) < 2 ^ 48 := by
    intro i hi
    obtain ⟨_, hpointer⟩ := hall i (List.mem_range.mpr hi)
    obtain ⟨_, hword, _⟩ := bind_eq_ok.mp hpointer
    obtain ⟨_, hbyte, _⟩ := bind_eq_ok.mp hword
    obtain ⟨_, haddress, _⟩ := bind_eq_ok.mp hbyte
    exact hsound.kernelAddress_lt haddress
  by_contra hlong
  have hfirst := hread 0 (Nat.pos_of_ne_zero hzero)
  have hlast := hread (2 ^ 45) (Nat.lt_of_not_le hlong)
  unfold u64 at hfirst hlast
  omega

theorem processPushArgs_process {process process' : Process} {state next : Pman.State}
    {kernArgv : List Nat}
    (hcall : processPushArgs palloc process state kernArgv = .ok (process', next)) :
    process'.argc = kernArgv.length ∧ process'.pagingContext = process.pagingContext := by
  obtain ⟨_, _, hcall⟩ := bind_eq_ok.mp hcall
  obtain ⟨_, _, hcall⟩ := bind_eq_ok.mp hcall
  obtain rfl := (Prod.mk.inj (Except.ok.inj hcall)).1
  exact ⟨rfl, rfl⟩

theorem loadProgram_process {loaded : World} {dirent : Nat}
    (hcall : loadProgram palloc elfLoadSegment elfLoad world (some dirent) = .ok (none, loaded)) :
    loaded.process.argc = world.process.argc ∧
      loaded.process.pagingContext = world.process.pagingContext := by
  obtain ⟨entry, _, hcall⟩ := bind_eq_ok.mp hcall
  by_cases hdirectory : entry.type = .directory
  · rw [if_pos hdirectory] at hcall
    obtain ⟨_, _, hcall⟩ := bind_eq_ok.mp hcall
    simp at hcall
  rw [if_neg hdirectory] at hcall
  cases helf : elfLoad world.files dirent with
  | none =>
      simp only [helf] at hcall
      obtain ⟨_, _, hcall⟩ := bind_eq_ok.mp hcall
      simp at hcall
  | some elf =>
      simp only [helf] at hcall
      obtain ⟨_, _, hcall⟩ := bind_eq_ok.mp hcall
      obtain rfl := (Prod.mk.inj (Except.ok.inj hcall)).2
      exact ⟨rfl, rfl⟩

/-- What is pushed is the count that was asked for, and no larger than memory. -/
theorem Pushes.count_eq {held : List Nat} (hsound : Sound held world.paging)
    (hpushes : Pushes palloc elfLoadSegment elfLoad disc world path argv argc paging rsp count) :
    count = argc ∧ argc ≤ 2 ^ 45 := by
  cases hpushes with
  | arguments _ hargv _ => exact kernelArgv_length hsound hargv
  | entry _ hargv hpush hload _ _ =>
      obtain ⟨hlength, hbound⟩ := kernelArgv_length hsound hargv
      have hpushed := (processPushArgs_process hpush).1
      exact ⟨((loadProgram_process hload).1.trans hpushed).trans hlength, hbound⟩

/-- A call without an error ends in `push_main_args`. -/
theorem syscallExec_pushes
    (hcall : syscallExec palloc elfLoadSegment elfLoad disc world path argv argc =
      .ok (none, after)) :
    ∃ paging rsp count kernRsp,
      Pushes palloc elfLoadSegment elfLoad disc world path argv argc paging rsp count ∧
      kernelPointer paging world.process.pagingContext rsp = .ok kernRsp := by
  obtain ⟨mapped, hmapped, hcall⟩ := bind_eq_ok.mp hcall
  cases mapped with
  | none => simp at hcall
  | some kernPath =>
  obtain ⟨string, hstring, hcall⟩ := bind_eq_ok.mp hcall
  obtain ⟨⟨found, files⟩, hopen, hcall⟩ := bind_eq_ok.mp hcall
  cases found with
  | none => simp at hcall
  | some dirent =>
  obtain ⟨kernArgv, hargv, hcall⟩ := bind_eq_ok.mp hcall
  obtain ⟨⟨process, pushed⟩, hpush, hcall⟩ := bind_eq_ok.mp hcall
  obtain ⟨⟨loaded, last⟩, hload, hcall⟩ := bind_eq_ok.mp hcall
  cases loaded with
  | some error => simp at hcall
  | none =>
  obtain ⟨entered, henter, _⟩ := bind_eq_ok.mp hcall
  obtain ⟨left, hrelease, henter⟩ := bind_eq_ok.mp henter
  obtain ⟨stack, hstack, henter⟩ := bind_eq_ok.mp henter
  obtain ⟨_, hmain, _⟩ := bind_eq_ok.mp henter
  obtain ⟨kernRsp, hkernRsp, _⟩ := bind_eq_ok.mp (mapError_eq_ok.mp hmain)
  have hpush := mapError_eq_ok.mp hpush
  have hopened : Opened disc world path dirent files :=
    ⟨kernPath, string, mapError_eq_ok.mp hmapped, mapError_eq_ok.mp hstring,
      mapError_eq_ok.mp hopen⟩
  have hcontext : last.process.pagingContext = world.process.pagingContext :=
    (loadProgram_process hload).2.trans (processPushArgs_process hpush).2
  rw [hcontext] at hkernRsp
  exact ⟨_, _, _, kernRsp, .entry hopened (mapError_eq_ok.mp hargv) hpush hload
    (mapError_eq_ok.mp hrelease) (mapError_eq_ok.mp hstack), hkernRsp⟩

/-- Where the arguments are pushed for a stack pointer in the stack. -/
theorem kernelPointer_arguments {created pointers kernArgv : List Nat} {stack : Mapping}
    (hpalloc : Exact palloc) (htidy : KernelTidy ⟨world.paging, created⟩)
    (huser : world.process.pagingContext ≠ kernelContext)
    (hholds : Holds world.paging world.process.pagingContext world.process.tsr.rsp
      world.process.stackMapping stack) (hroot : stackRoot world = .ok root)
    (hpointers : argumentPointers palloc world.process.pagingContext world.paging kernArgv =
      .ok (pointers, paging)) :
    kernelPointer paging world.process.pagingContext world.process.tsr.rsp =
      .ok (world.process.tsr.rsp - stack.vaddr + root.vaddr) := by
  obtain ⟨hsound, hkept⟩ := argumentPointers_keeps hpalloc htidy huser hpointers
  obtain ⟨hlive, hhome, hlow, hhigh⟩ := hholds
  obtain ⟨lender, base, hbefore, hafter, hbase, hbaseKept, _, _⟩ :=
    root_kept htidy.sound hsound hkept hlive (hhome ▸ huser)
  obtain ⟨rootId, hrootId, hmapping⟩ := bind_eq_ok.mp hroot
  obtain rfl : lender = rootId := Except.ok.inj (hbefore.symm.trans hrootId)
  obtain rfl : base = root :=
    Option.some.inj (hbase.symm.trans (State.mapping_eq_ok.mp hmapping))
  have hstill : Holds paging world.process.pagingContext world.process.tsr.rsp
      world.process.stackMapping stack := ⟨hkept _ stack hlive, hhome, hlow, hhigh⟩
  rw [kernelPointer, hsound.processUserToKernel_eq hstill hafter hbaseKept]
  rfl

/-- There is room for them if there is room in the stack below the stack pointer. -/
theorem room_arguments {created : List Nat} {stack : Mapping} (hpalloc : Exact palloc)
    (htidy : KernelTidy ⟨world.paging, created⟩)
    (huser : world.process.pagingContext ≠ kernelContext)
    (hholds : Holds world.paging world.process.pagingContext world.process.tsr.rsp
      world.process.stackMapping stack) (hroot : stackRoot world = .ok root)
    {pointers kernArgv : List Nat} {kernRsp : Nat}
    (hpointers : argumentPointers palloc world.process.pagingContext world.paging kernArgv =
      .ok (pointers, paging))
    (hkernRsp : kernelPointer paging world.process.pagingContext world.process.tsr.rsp =
      .ok kernRsp) :
    (root.vaddr + 8 * (argc + 1) ≤ u64 kernRsp ∧
      u64 kernRsp ≤ root.vaddr + root.sizePages * pageSize) ↔
    stack.vaddr + 8 * (argc + 1) ≤ world.process.tsr.rsp := by
  obtain rfl := Except.ok.inj
    ((kernelPointer_arguments hpalloc htidy huser hholds hroot hpointers).symm.trans hkernRsp)
  obtain ⟨rootId, hrootId, hmapping⟩ := bind_eq_ok.mp hroot
  obtain ⟨rootId', root', hrootId', hroot', _, hsize, _⟩ := htidy.sound.root hholds.live
  obtain rfl : rootId = rootId' := Except.ok.inj (hrootId.symm.trans hrootId')
  obtain rfl : root = root' :=
    Option.some.inj ((State.mapping_eq_ok.mp hmapping).symm.trans hroot')
  have hend := htidy.sound.range_le hroot'
  have hlow := hholds.low
  have hhigh := hholds.high
  rw [hsize] at *
  unfold u64
  omega

/-- What `push_main_args` stores in a call of `syscall_exec` is on the stack, and vectors that do
not fit are errors, exactly if there is room each time the call gets there. -/
theorem syscallExec_onStack {created : List Nat} (hpalloc : Exact palloc)
    (hreach : (lifetimes palloc).Reachable ⟨world.paging, created⟩)
    (hroot : stackRoot world = .ok root) :
    OnStack palloc elfLoadSegment elfLoad disc world path argv argc root ↔
      HasRoom palloc elfLoadSegment elfLoad disc world path argv argc root := by
  have hsound := (tidy_of_lifetimes hpalloc hreach).sound
  obtain ⟨rootId, _, hmapping⟩ := bind_eq_ok.mp hroot
  have hend := hsound.range_le (State.mapping_eq_ok.mp hmapping)
  constructor
  · rintro ⟨hinside, _⟩ paging rsp count kernRsp hpushes hkernRsp
    obtain ⟨rfl, hbound⟩ := hpushes.count_eq hsound
    exact (pushAddresses_inside hbound hend).mp (hinside paging rsp count kernRsp hpushes hkernRsp)
  · intro hroom
    constructor
    case inside =>
      intro paging rsp count kernRsp hpushes hkernRsp
      obtain ⟨rfl, hbound⟩ := hpushes.count_eq hsound
      exact (pushAddresses_inside hbound hend).mpr (hroom paging rsp count kernRsp hpushes hkernRsp)
    case rejected =>
      rintro hlarge result after hcall rfl
      obtain ⟨paging, rsp, count, kernRsp, hpushes, hkernRsp⟩ := syscallExec_pushes hcall
      obtain ⟨hlow, hhigh⟩ := hroom paging rsp count kernRsp hpushes hkernRsp
      omega

end Calls

/-! ## One argument -/

section Example

variable {paging : Pman.State} {rsp : Nat}

/-- The process calls `syscall_exec` with the path `"/"` and the argument `"/"`. -/
theorem stackWorld_opened (hlayout : StackLayout paging) :
    Opened (fun _ => []) (stackWorldOf paging rsp) 0x8010 Vfs.fsRoot
      (stackWorldOf paging rsp).files := by
  obtain ⟨hstring, _⟩ := List.forall₂_cons.mp hlayout.strings
  refine ⟨0x1010, StackLayout.slashPath, ?_, hstring.2, rfl⟩
  exact (processUserToKernel_memory _ _ _).trans hlayout.path

theorem stackWorld_root (hlayout : StackLayout paging) :
    stackRoot (stackWorldOf paging rsp) = .ok
      ⟨kernelContext, ⟨true, false, false, false⟩, 0x1000, 2, .alloc 1 [0x15000, 0x16000]⟩ := by
  have hroot : (stackWorldOf paging rsp).paging.root 2 = .ok 1 :=
    (getRootMapping_memory _ _ _).trans hlayout.root
  have hprocess : (stackWorldOf paging rsp).process.stackMapping = 2 := rfl
  rw [stackRoot, hprocess, hroot, ok_bind]
  exact State.mapping_eq_ok.mpr hlayout.rootLive

/-- Its arguments are pushed. -/
theorem stackWorld_pushes
    {elfLoadSegment : ProgramHeader → Nat → Table → (Nat → UInt8) → Except Fault (Nat → UInt8)}
    {elfLoad : Vfs.State → Nat → Option Elf} (hmade : StackMade paging)
    (hlayout : StackLayout paging) :
    ∃ pointers next, argumentPointers pagesBy 1 (stackWorldOf paging rsp).paging [0x1010] =
        .ok (pointers, next) ∧
      Pushes pagesBy elfLoadSegment elfLoad (fun _ => []) (stackWorldOf paging rsp) 0x8010 0x8020 1
        next rsp 1 := by
  have htidy : KernelTidy ⟨(stackWorldOf paging rsp).paging, [0]⟩ :=
    tidy_of_lifetimes pagesBy_exact (hmade.reachable rsp)
  obtain ⟨user, huser, _⟩ := hlayout.user
  obtain ⟨⟨pointers, next⟩, hnew⟩ := newArguments_returns pagesBy_exact pagesBy_spread htidy
    hlayout.unused Nat.one_ne_zero (Option.isSome_iff_exists.mpr ⟨user, huser⟩) hlayout.strings
    (by decide) (hlayout.hasMemory (by decide))
  have hpointers : argumentPointers pagesBy 1 (stackWorldOf paging rsp).paging [0x1010] =
      .ok (pointers, next) := (if_neg (by decide)).trans hnew
  exact ⟨pointers, next, hpointers, .arguments (stackWorld_opened hlayout) hlayout.argv hpointers⟩

/-- With room for them they stay on the stack. -/
theorem syscallExec_onStack_slash : ∃ (paging : Pman.State) (root : Mapping),
    (lifetimes pagesBy).Reachable ⟨(stackWorldOf paging 0x9ff8).paging, [0]⟩ ∧
      stackRoot (stackWorldOf paging 0x9ff8) = .ok root ∧
      (∃ next, Pushes pagesBy zeroSegment dataElf (fun _ => []) (stackWorldOf paging 0x9ff8) 0x8010
        0x8020 1 next 0x9ff8 1) ∧
      OnStack pagesBy zeroSegment dataElf (fun _ => []) (stackWorldOf paging 0x9ff8) 0x8010 0x8020
        1 root := by
  obtain ⟨paging, hmade, hlayout⟩ := stackMade
  have hreach := hmade.reachable 0x9ff8
  have htidy : KernelTidy ⟨(stackWorldOf paging 0x9ff8).paging, [0]⟩ :=
    tidy_of_lifetimes pagesBy_exact hreach
  have hroot := @stackWorld_root paging 0x9ff8 hlayout
  obtain ⟨_, next, _, hpushes⟩ := @stackWorld_pushes paging 0x9ff8 zeroSegment dataElf hmade hlayout
  refine ⟨paging, _, hreach, hroot, ⟨next, hpushes⟩,
    (syscallExec_onStack pagesBy_exact hreach hroot).mpr ?_⟩
  intro found rsp count kernRsp hpushes hkernRsp
  cases hpushes with
  | arguments hopened hargv hpointers =>
      have hholds : Holds (stackWorldOf paging 0x9ff8).paging 1 0x9ff8 2
          ⟨1, ⟨true, false, false, false⟩, 0x8000, 2, .shared 1⟩ :=
        ⟨hlayout.stack, rfl, by decide, by decide⟩
      exact (room_arguments pagesBy_exact htidy Nat.one_ne_zero hholds hroot hpointers hkernRsp).mpr
        (by decide : 0x8000 + 8 * (1 + 1) ≤ 0x9ff8)
  | entry hopened _ _ hload _ _ =>
      -- the root directory is no program
      obtain ⟨kernPath, string, hpath, hstring, hopen⟩ := hopened
      obtain ⟨_, _, hpath', hstring', hopen'⟩ := @stackWorld_opened paging 0x9ff8 hlayout
      cases hpath'.symm.trans hpath
      cases hstring'.symm.trans hstring
      obtain ⟨hdirent, rfl⟩ := Prod.mk.inj (Except.ok.inj (hopen'.symm.trans hopen))
      cases hdirent
      obtain ⟨entry, hentry, ⟨_, ⟨_, hresult⟩, _⟩ | ⟨hprogram, _⟩⟩ := loadProgram_error hload
      · cases hresult
      · cases hentry
        exact absurd (.inl rfl) hprogram

/-- With the stack pointer 8 above the first address, the length is stored below the stack. -/
theorem syscallExec_below_stack : ∃ (paging : Pman.State) (root : Mapping),
    (lifetimes pagesBy).Reachable ⟨(stackWorldOf paging 0x8008).paging, [0]⟩ ∧
      stackRoot (stackWorldOf paging 0x8008) = .ok root ∧
      ¬OnStack pagesBy zeroSegment dataElf (fun _ => []) (stackWorldOf paging 0x8008) 0x8010 0x8020
        1 root := by
  obtain ⟨paging, hmade, hlayout⟩ := stackMade
  have hreach := hmade.reachable 0x8008
  have htidy : KernelTidy ⟨(stackWorldOf paging 0x8008).paging, [0]⟩ :=
    tidy_of_lifetimes pagesBy_exact hreach
  have hroot := @stackWorld_root paging 0x8008 hlayout
  obtain ⟨pointers, next, hpointers, hpushes⟩ :=
    @stackWorld_pushes paging 0x8008 zeroSegment dataElf hmade hlayout
  refine ⟨paging, _, hreach, hroot, ?_⟩
  rintro ⟨hinside, _⟩
  have hholds : Holds (stackWorldOf paging 0x8008).paging 1 0x8008 2
      ⟨1, ⟨true, false, false, false⟩, 0x8000, 2, .shared 1⟩ :=
    ⟨hlayout.stack, rfl, by decide, by decide⟩
  have hkernRsp : kernelPointer next 1 0x8008 = .ok (0x8008 - 0x8000 + 0x1000) :=
    kernelPointer_arguments pagesBy_exact htidy Nat.one_ne_zero hholds hroot hpointers
  rw [show 0x8008 - 0x8000 + 0x1000 = 0x1008 from rfl] at hkernRsp
  have hlength : 0xff8 ∈ pushAddresses 0x1008 1 := by
    refine List.mem_append_right _ (List.mem_singleton.mpr ?_)
    unfold u64
    omega
  have hbelow := hinside next 0x8008 1 0x1008 hpushes hkernRsp 0xff8 hlength 0 (by decide)
  exact absurd hbelow.1 (by decide)

end Example

end PKernel.Programs
