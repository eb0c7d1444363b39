import PKernel.Programs.Arguments
import PKernel.Programs.Segments

/-! # Replacing a program

`syscall_exec`. The arguments go onto the stack before the loader looks at the file, and nothing
takes them back when it rejects the file. So the call fails without a trace exactly if the path
leads nowhere. A directory, or a file that is no program, costs the process its arguments and
moves its stack pointer.
-/

namespace PKernel.Programs

open Pman

section Code

variable (palloc : Pman.State → Nat → Option (List Nat))
  (elfLoadSegment : ProgramHeader → Nat → Table → (Nat → UInt8) → Except Fault (Nat → UInt8))
  (elfLoad : Vfs.State → Nat → Option Elf) (disc : Vfs.Disc)

/-- `kern_argv`. -/
def kernelArgv (state : Pman.State) (context argv argc : Nat) : Except Fault (List Nat) := do
  if argc = 0 then return []
  let kernArgv ← kernelPointer state context argv
  (List.range argc).mapM fun i => do
    kernelPointer state context (← loadWord state (kernArgv + 8 * i))

/-- The end of `syscall_exec`, for a program that was loaded: its arguments are at the end of an
empty stack. -/
def enterProgram (world : World) (dirent : Nat) : Except Halt World := do
  let files ← (Vfs.directoryEntryRelease world.files dirent).mapError Halt.files
  let process := world.process
  let stack ← (world.paging.mapping process.stackMapping).mapError Halt.memory
  let tsr := Tsr.tsrSetStack process.tsr stack.vaddr (stack.sizePages * pageSize)
  let (tsr, paging) ← (pushMainArgs process.pagingContext world.paging tsr process.argc
    process.argv).mapError Halt.memory
  return { process := { process with tsr }, paging, files }

/-- `syscall_exec`, with the error if it returns one. -/
def syscallExec (world : World) (path argv argc : Nat) :
    Except Halt (Option ExecError × World) := do
  let process := world.process
  match ← (processUserToKernel world.paging process.pagingContext path).mapError Halt.memory with
  | none => return (some .efault, world)
  | some kernPath =>
      let string ← (stringAt world.paging kernPath).mapError Halt.memory
      let (dirent, files) ←
        (Vfs.processOpenPath disc world.files process.workingDir string).mapError Halt.files
      match dirent with
      | none => return (some .enoent, { world with files })
      | some dirent =>
          let kernArgv ←
            (kernelArgv world.paging process.pagingContext argv argc).mapError Halt.memory
          let (process, paging) ←
            (processPushArgs palloc process world.paging kernArgv).mapError Halt.memory
          match ← loadProgram palloc elfLoadSegment elfLoad ⟨process, paging, files⟩ (some dirent)
          with
          | (some error, world) => return (some error, world)
          | (none, world) => return (none, ← enterProgram world dirent)

end Code

/-! ## What a call is to leave as it was -/

/-- A byte of the memory of a process. -/
def userByte (world : World) (vaddr : Nat) : Option UInt8 := do
  let context ← world.paging.contexts world.process.pagingContext
  let paddr ← translate context.table vaddr
  return world.paging.memory paddr

/-- The process is as it was: its registers, its arguments, its mappings and what is in them, the
stack among them. -/
structure Unchanged (before after : World) : Prop where
  tsr : after.process.tsr = before.process.tsr
  argc : after.process.argc = before.process.argc
  argv : after.process.argv = before.process.argv
  mappings : ∀ id mapping, mapping.context = before.process.pagingContext →
    (after.paging.mappings id = some mapping ↔ before.paging.mappings id = some mapping)
  contents : ∀ vaddr, userByte after vaddr = userByte before vaddr

/-- The path leads to a directory, or to a file that is no program. -/
def Rejected (elfLoad : Vfs.State → Nat → Option Elf) (disc : Vfs.Disc) (world : World)
    (path : Nat) : Prop :=
  ∃ kernPath string dirent files entry,
    processUserToKernel world.paging world.process.pagingContext path = .ok (some kernPath) ∧
    stringAt world.paging kernPath = .ok string ∧
    Vfs.processOpenPath disc world.files world.process.workingDir string =
      .ok (some dirent, files) ∧
    files.entry dirent = .ok entry ∧ (entry.type = .directory ∨ elfLoad files dirent = none)

section Results

variable {palloc : Pman.State → Nat → Option (List Nat)}
  {elfLoadSegment : ProgramHeader → Nat → Table → (Nat → UInt8) → Except Fault (Nat → UInt8)}
  {elfLoad : Vfs.State → Nat → Option Elf} {disc : Vfs.Disc} {world after : World}
  {result : Option ExecError} {dirent path argv argc : Nat}

/-- The files stand in no relation to the process. -/
theorem Unchanged.files (world : World) (files : Vfs.State) :
    Unchanged world { world with files } :=
  ⟨rfl, rfl, rfl, fun _ _ _ => Iff.rfl, fun _ => rfl⟩

/-- `load_program` fails before it changes anything but the files. -/
theorem loadProgram_error
    (hcall : loadProgram palloc elfLoadSegment elfLoad world (some dirent) = .ok (result, after)) :
    ∃ entry, world.files.entry dirent = .ok entry ∧
      ((entry.type = .directory ∨ elfLoad world.files dirent = none) ∧
        (∃ error, result = some error) ∧ (∃ files, after = { world with files }) ∨
      ¬(entry.type = .directory ∨ elfLoad world.files dirent = none) ∧ result = none) := by
  obtain ⟨entry, hentry, hcall⟩ := bind_eq_ok.mp hcall
  refine ⟨entry, mapError_eq_ok.mp hentry, ?_⟩
  by_cases hdirectory : entry.type = .directory
  · rw [if_pos hdirectory] at hcall
    obtain ⟨files, _, hcall⟩ := bind_eq_ok.mp hcall
    cases hcall
    exact .inl ⟨.inl hdirectory, ⟨_, rfl⟩, files, rfl⟩
  rw [if_neg hdirectory] at hcall
  cases helf : elfLoad world.files dirent with
  | none =>
      simp only [helf] at hcall
      obtain ⟨files, _, hcall⟩ := bind_eq_ok.mp hcall
      cases hcall
      exact .inl ⟨.inr rfl, ⟨_, rfl⟩, files, rfl⟩
  | some elf =>
      simp only [helf] at hcall
      obtain ⟨paging, _, hcall⟩ := bind_eq_ok.mp hcall
      cases hcall
      exact .inr ⟨by simp [hdirectory], rfl⟩

/-- After `process_push_args` the process is not as it was. With no arguments the stack pointer is
8 lower, with some there is a new mapping. -/
theorem processPushArgs_changes {process process' : Process} {state next : Pman.State}
    {held kernArgv : List Nat} (hcounted : Counted state held)
    (hcall : processPushArgs palloc process state kernArgv = .ok (process', next)) :
    process'.tsr ≠ process.tsr ∨ ∃ id loan, state.mappings id = none ∧
      next.mappings id = some loan ∧ loan.context = process.pagingContext := by
  obtain ⟨⟨pointers, state'⟩, harguments, hcall⟩ := bind_eq_ok.mp hcall
  obtain ⟨⟨tsr, last⟩, hpush, hcall⟩ := bind_eq_ok.mp hcall
  cases hcall
  obtain ⟨rfl, memory, rfl⟩ := pushMainArgs_frame hpush
  by_cases hempty : kernArgv = []
  · left
    intro hsame
    have hrsp := congrArg Tsr.TaskStateRecord.rsp hsame
    simp only [hempty, List.length_nil, u64] at hrsp
    omega
  · right
    rw [argumentPointers, if_neg hempty] at harguments
    obtain ⟨id, loan, hfresh, hloan, hcontext⟩ := newArguments_mapping hcounted harguments
    exact ⟨id, loan, hfresh, hloan, hcontext⟩

/-- The ways through `syscall_exec`. -/
theorem syscallExec_cases
    (hcall : syscallExec palloc elfLoadSegment elfLoad disc world path argv argc =
      .ok (result, after)) :
    (∃ files, after = { world with files }) ∧ ¬Rejected elfLoad disc world path ∨
    (∃ kernArgv process paging files, Rejected elfLoad disc world path ∧ result ≠ none ∧
      processPushArgs palloc world.process world.paging kernArgv = .ok (process, paging) ∧
      after = ⟨process, paging, files⟩) ∨
    result = none ∧ ¬Rejected elfLoad disc world path := by
  obtain ⟨mapped, hmapped, hcall⟩ := bind_eq_ok.mp hcall
  rw [mapError_eq_ok] at hmapped
  cases mapped with
  | none =>
      cases hcall
      refine .inl ⟨⟨world.files, rfl⟩, ?_⟩
      rintro ⟨kernPath, _, _, _, _, hpath, _⟩
      simp [hmapped] at hpath
  | some kernPath =>
  obtain ⟨string, hstring, hcall⟩ := bind_eq_ok.mp hcall
  obtain ⟨⟨found, files⟩, hopen, hcall⟩ := bind_eq_ok.mp hcall
  rw [mapError_eq_ok] at hstring hopen
  -- the path is what it is, whatever comes after it
  have hpath : ∀ {kernPath' string' dirent' files'},
      processUserToKernel world.paging world.process.pagingContext path = .ok (some kernPath') →
      stringAt world.paging kernPath' = .ok string' →
      Vfs.processOpenPath disc world.files world.process.workingDir string' =
        .ok (dirent', files') → found = dirent' ∧ files = files' := by
    intro kernPath' string' dirent' files' hmapped' hstring' hopen'
    cases hmapped.symm.trans hmapped'
    cases hstring.symm.trans hstring'
    exact Prod.mk.inj (Except.ok.inj (hopen.symm.trans hopen'))
  cases found with
  | none =>
      cases hcall
      refine .inl ⟨⟨files, rfl⟩, ?_⟩
      rintro ⟨_, _, _, _, _, hmapped', hstring', hopen', _⟩
      cases (hpath hmapped' hstring' hopen').1
  | some dirent =>
  obtain ⟨kernArgv, _, hcall⟩ := bind_eq_ok.mp hcall
  obtain ⟨⟨process, paging⟩, hpush, hcall⟩ := bind_eq_ok.mp hcall
  obtain ⟨⟨loaded, last⟩, hload, hcall⟩ := bind_eq_ok.mp hcall
  rw [mapError_eq_ok] at hpush
  obtain ⟨entry, hentry, ⟨hrejected, ⟨error, rfl⟩, rest, rfl⟩ | ⟨haccepted, rfl⟩⟩ :=
    loadProgram_error hload
  · cases hcall
    exact .inr (.inl ⟨kernArgv, process, paging, rest,
      ⟨kernPath, string, dirent, files, entry, hmapped, hstring, hopen, hentry, hrejected⟩,
      Option.some_ne_none error, hpush, rfl⟩)
  · obtain ⟨entered, _, hcall⟩ := bind_eq_ok.mp hcall
    cases hcall
    refine .inr (.inr ⟨rfl, ?_⟩)
    rintro ⟨_, _, dirent', files', entry', hmapped', hstring', hopen', hentry', hrejected⟩
    obtain ⟨hdirent, rfl⟩ := hpath hmapped' hstring' hopen'
    cases hdirent
    cases hentry.symm.trans hentry'
    exact haccepted hrejected

/-- A call that fails leaves the process as it was exactly if the path does not lead to something
that the loader rejects. -/
theorem syscallExec_unchanged {created : List Nat} (hpalloc : Exact palloc)
    (hreach : (kernelRuns palloc).Reachable ⟨world.paging, created⟩)
    (hcall : syscallExec palloc elfLoadSegment elfLoad disc world path argv argc =
      .ok (result, after)) :
    (result ≠ none → Unchanged world after) ↔ ¬Rejected elfLoad disc world path := by
  rcases syscallExec_cases hcall with ⟨⟨files, rfl⟩, haccepted⟩ |
    ⟨kernArgv, process, paging, files, hrejected, hresult, hpush, rfl⟩ | ⟨rfl, haccepted⟩
  · exact iff_of_true (fun _ => .files world files) haccepted
  · refine iff_of_false (fun hunchanged => ?_) (not_not_intro hrejected)
    obtain ⟨htsr, _, _, hmappings, _⟩ := hunchanged hresult
    rcases processPushArgs_changes (sound_of_reachable hpalloc hreach).counted hpush with
      hchanged | ⟨id, loan, hfresh, hloan, hcontext⟩
    · exact hchanged htsr
    · have hbefore := (hmappings id loan hcontext).mp hloan
      rw [hfresh] at hbefore
      cases hbefore
  · exact iff_of_true (fun herror => absurd rfl herror) haccepted

/-- The string `"/"` at 0x5010. -/
def rootPath (paddr : Nat) : UInt8 := if paddr = 0x5010 then Vfs.slash else 0

/-- A process of context 1 whose mapping 1 is its stack, and the root directory. -/
def rootWorldOf (paging : Pman.State) : World where
  process := { (worldOf paging).process with
    tsr := { (worldOf paging).process.tsr with rsp := 0x8800 }, stackMapping := 1 }
  paging := { paging with memory := rootPath }
  files := ⟨Function.update (fun _ => none) Vfs.fsRoot (some ⟨none, [], 2, .directory, none, []⟩), 1⟩

/-- The string `"/a"` at 0x5010. -/
def missingPath (paddr : Nat) : UInt8 :=
  if paddr = 0x5011 then 97 else rootPath paddr

/-- The same process with that string. -/
def missingWorldOf (paging : Pman.State) : World :=
  { rootWorldOf paging with paging := { paging with memory := missingPath } }

/-- Nothing is called `a`. -/
theorem syscallExec_unchanged_missing : ∃ paging after,
    syscallExec (pagesFrom 0x5000) zeroSegment dataElf (fun _ => []) (missingWorldOf paging)
      0x8010 0 0 = .ok (some .enoent, after) ∧ Unchanged (missingWorldOf paging) after := by
  have hcalls : ∃ dropped after kernPath string files,
      SharesPage 4096 ⟨true, false, false, false⟩ dropped ∧
      syscallExec (pagesFrom 0x5000) zeroSegment dataElf (fun _ => []) (missingWorldOf dropped)
        0x8010 0 0 = .ok (some .enoent, after) ∧
      processUserToKernel (missingWorldOf dropped).paging 1 0x8010 = .ok (some kernPath) ∧
      stringAt (missingWorldOf dropped).paging kernPath = .ok string ∧
      Vfs.processOpenPath (fun _ => []) (missingWorldOf dropped).files
        (missingWorldOf dropped).process.workingDir string = .ok (none, files) :=
    ⟨_, _, _, _, _, ⟨_, _, rfl, rfl, rfl, rfl, rfl⟩, rfl, rfl, rfl, rfl⟩
  obtain ⟨dropped, after, kernPath, string, files, hshares, hcall, hpath, hstring, hopen⟩ := hcalls
  have hstore : KernelStep (pagesFrom 0x5000) ⟨dropped, []⟩ none
      ⟨(missingWorldOf dropped).paging, []⟩ := .store missingPath
  refine ⟨dropped, after, hcall, (syscallExec_unchanged (pagesFrom_exact _)
    ((hshares.reachable (by decide)).step hstore) hcall).mpr ?_ (Option.some_ne_none _)⟩
  rintro ⟨_, _, _, _, _, hpath', hstring', hopen', _⟩
  cases hpath.symm.trans hpath'
  cases hstring.symm.trans hstring'
  cases (Prod.mk.inj (Except.ok.inj (hopen.symm.trans hopen'))).1

/-- The path `"/"`: the process gets `-EISDIR` and another stack pointer. -/
theorem syscallExec_moves_stack : ∃ paging after,
    (kernelRuns (pagesFrom 0x5000)).Reachable ⟨(rootWorldOf paging).paging, []⟩ ∧
      syscallExec (pagesFrom 0x5000) zeroSegment dataElf (fun _ => []) (rootWorldOf paging)
        0x8010 0 0 = .ok (some .eisdir, after) ∧
      ¬Unchanged (rootWorldOf paging) after := by
  have hcalls : ∃ dropped after,
      SharesPage 4096 ⟨true, false, false, false⟩ dropped ∧
      syscallExec (pagesFrom 0x5000) zeroSegment dataElf (fun _ => []) (rootWorldOf dropped)
        0x8010 0 0 = .ok (some .eisdir, after) ∧ after.process.tsr.rsp = 0x87f8 :=
    ⟨_, _, ⟨_, _, rfl, rfl, rfl, rfl, rfl⟩, rfl, rfl⟩
  obtain ⟨dropped, after, hshares, hcall, hmoved⟩ := hcalls
  have hreach := hshares.reachable (by decide)
  have hstore : KernelStep (pagesFrom 0x5000) ⟨dropped, []⟩ none
      ⟨(rootWorldOf dropped).paging, []⟩ := .store rootPath
  refine ⟨dropped, after, hreach.step hstore, hcall, ?_⟩
  rintro ⟨hsame, _⟩
  have hrsp : after.process.tsr.rsp = 0x8800 := by rw [hsame]; rfl
  rw [hmoved] at hrsp
  cases hrsp

end Results

end PKernel.Programs
