import PKernel.Filesystem.Paths
import PKernel.Paging.Resizing
import PKernel.Processes.TaskState

/-! # The program loader

`prog_loader.c`: the segments of a program go into the mappings of a process, each into a new
mapping or, where one is at its address already, into that one after it was resized. What the
ELF library does, to read the headers of a file and to fill a segment, is a parameter.
-/

namespace PKernel.Programs

open Pman

/-- What the loader looks at of `elf_pheader_t`. -/
structure ProgramHeader where
  /-- The type is `ELF_PH_TYPE_LOAD`. -/
  load : Bool
  /-- `ELF_PH_FLAGS_W`. -/
  flagsW : Bool
  /-- `ELF_PH_FLAGS_X`. -/
  flagsX : Bool
  vaddr : Nat
  memsz : Nat
deriving DecidableEq, Repr

namespace ProgramHeader

/-- `aligned_vaddr`: the division is one of `intptr_t`, and so rounds towards 0. -/
def alignedVaddr (header : ProgramHeader) : Nat :=
  ((intptr header.vaddr).tdiv pageSize * pageSize % 2 ^ 64).toNat

/-- `extra_size`. -/
def extraSize (header : ProgramHeader) : Nat :=
  u64 (header.vaddr + 2 ^ 64 - header.alignedVaddr)

/-- The size of the mapping. -/
def size (header : ProgramHeader) : Nat := u64 (header.memsz + header.extraSize)

/-- `prot` of a new mapping. -/
def prot (header : ProgramHeader) : Protection := ⟨header.flagsW, header.flagsX, false, false⟩

end ProgramHeader

/-- What the loader looks at of `elf_t`. -/
structure Elf where
  entry : Nat
  pheaders : List ProgramHeader

/-- `process_t` with the thread of index 0. -/
structure Process where
  pagingContext : Nat
  tsr : Tsr.TaskStateRecord
  stackMapping : Nat
  argc : Nat
  argv : List Nat
  workingDir : Nat

/-- A process and the parts of the kernel that its programs are loaded with. -/
structure World where
  process : Process
  paging : Pman.State
  files : Vfs.State

/-- How a function ends that stops in the memory or in the files of the kernel. -/
inductive Halt where
  | memory (fault : Fault)
  | files (stop : Vfs.Stop)
deriving DecidableEq, Repr

/-- The negative results. -/
inductive ExecError where
  | enoent
  | eisdir
  | enoexec
  | efault
deriving DecidableEq, Repr

section Code

variable (palloc : Pman.State → Nat → Option (List Nat))

-- `elf_load_segment`, which fills the memory of a segment at an address of the kernel.
variable (elfLoadSegment : ProgramHeader → Nat → Table → (Nat → UInt8) → Except Fault (Nat → UInt8))

/-- `elf_load_segment` in the kernel's address space, unless `process_mapping` is `NULL`. -/
def fillSegment (state : Pman.State) (header : ProgramHeader) (processMapping : Nat) :
    Except Fault Pman.State := do
  if processMapping = 0 then return state
  let kernel ← state.context kernelContext
  let memory ← elfLoadSegment header processMapping kernel.table state.memory
  return { state with memory }

/-- The body of the loop of `load_program`. The calls of the manager do not return `NULL`. -/
def loadSegment (context : Nat) (state : Pman.State) (header : ProgramHeader) :
    Except Fault Pman.State := do
  if !header.load then return state
  match ← getVaddr state context header.vaddr with
  | none =>
      if header.memsz = 0 then return state
      let (kernelMapping, state) ←
        addAlloc palloc state kernelContext ⟨true, false, false, false⟩ 0 header.size
      let (_, state) ← addShared state context header.prot kernelMapping header.alignedVaddr
      let processMapping := u64 ((← state.mapping kernelMapping).vaddr + header.extraSize)
      let state ← unmap state kernelMapping
      fillSegment elfLoadSegment state header processMapping
  | some mapping =>
      if header.memsz = 0 then unmap state mapping
      else
        let (mapping, state) ← resize palloc state mapping header.alignedVaddr header.size
        let root ← state.root mapping
        let processMapping := u64 ((← state.mapping root).vaddr + header.extraSize)
        fillSegment elfLoadSegment state header processMapping

/-- The loop of `load_program`. -/
def loadSegments (context : Nat) : Pman.State → List ProgramHeader → Except Fault Pman.State
  | state, [] => .ok state
  | state, header :: headers => do
      let state ← loadSegment palloc elfLoadSegment context state header
      loadSegments context state headers

-- `elf_load`, and `none` for any result but `ELF_ERROR_OK`.
variable (elfLoad : Vfs.State → Nat → Option Elf)

/-- `load_program`. -/
def loadProgram (world : World) (dirent : Option Nat) :
    Except Halt (Option ExecError × World) := do
  match dirent with
  | none => return (some .enoent, world)
  | some dirent =>
      if (← (world.files.entry dirent).mapError Halt.files).type = .directory then
        let files ← (Vfs.directoryEntryRelease world.files dirent).mapError Halt.files
        return (some .eisdir, { world with files })
      match elfLoad world.files dirent with
      | none =>
          let files ← (Vfs.directoryEntryRelease world.files dirent).mapError Halt.files
          return (some .enoexec, { world with files })
      | some elf =>
          let paging ← (loadSegments palloc elfLoadSegment world.process.pagingContext world.paging
            elf.pheaders).mapError Halt.memory
          let process := { world.process with tsr := Tsr.tsrLoadPc world.process.tsr elf.entry }
          return (none, { world with process, paging })

end Code

end PKernel.Programs
