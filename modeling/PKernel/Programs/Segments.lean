import PKernel.Paging.KernelViews
import PKernel.Paging.WriteFaults
import PKernel.Programs.Loader

/-! # Loading segments

When `load_program` returns. A segment at an address where the process has a mapping makes the
loader resize that mapping, and `pman_context_resize` panics unless the mapping was lent for
copying on write. So a program can replace one whose segments are as `fork` left them. Besides,
the kernel stops where it has no addresses or pages for a segment.
-/

namespace PKernel.Programs

open Pman
open Library.Transition

variable {palloc : Pman.State → Nat → Option (List Nat)}
  {elfLoadSegment : ProgramHeader → Nat → Table → (Nat → UInt8) → Except Fault (Nat → UInt8)}
  {state next : Pman.State} {held : List Nat} {context : Nat} {header : ProgramHeader}
  {headers : List ProgramHeader}

/-- A segment that has memory. -/
def ProgramHeader.Loaded (header : ProgramHeader) : Prop := header.load = true ∧ header.memsz ≠ 0

/-- The mapping at the address of a segment, if there is one, can be resized. In a process, whose
mappings are all loans, that is one that was lent for copying on write. -/
def Resizable (context : Nat) (state : Pman.State) (header : ProgramHeader) : Prop :=
  header.Loaded → ∀ id mapping, getVaddr state context header.vaddr = .ok (some id) →
    state.mappings id = some mapping → mapping.kind.resizable = true

/-- The place for a segment: the pages from its address down to the next page boundary on, where
what was there before is gone. -/
def HasPlace (context : Nat) (state : Pman.State) (header : ProgramHeader) (target : Context) :
    Prop :=
  match getVaddr state context header.vaddr with
  | .ok none => Fits target.regions header.alignedVaddr (divUp header.size pageSize)
  | .ok (some id) => ∀ mapping, state.mappings id = some mapping →
      Fits (Valloc.release target.regions mapping.vaddr).2
        (if header.alignedVaddr = 0 then mapping.vaddr else header.alignedVaddr)
        (divUp header.size pageSize)
  | .error _ => False

/-- What a segment needs besides: its end does not wrap, the kernel has memory for it, and the
process a place. -/
structure Provided (palloc : Pman.State → Nat → Option (List Nat)) (context : Nat)
    (state : Pman.State) (header : ProgramHeader) : Prop where
  sum : header.memsz + header.extraSize < 2 ^ 64
  supplied : Supplied palloc state (divUp header.size pageSize)
  place : ∀ target, state.contexts context = some target → HasPlace context state header target

/-- What is to hold of a segment when its turn comes. -/
def Loadable (palloc : Pman.State → Nat → Option (List Nat)) (context : Nat) (state : Pman.State)
    (header : ProgramHeader) : Prop :=
  header.Loaded → Resizable context state header ∧ Provided palloc context state header

theorem ProgramHeader.size_lt (header : ProgramHeader) : header.size < 2 ^ 64 := u64_lt _

def zeroBytes (table : Table) (memory : Nat → UInt8) (vaddr : Nat) :
    Nat → Except Fault (Nat → UInt8)
  | 0 => .ok memory
  | count + 1 => do
      let memory ← zeroBytes table memory vaddr count
      match translate table (vaddr + count) with
      | some target => return Function.update memory target 0
      | none => throw .badPointer

/-- `elf_load_segment` for a segment with no contents in the file. -/
def zeroSegment (header : ProgramHeader) (vaddr : Nat) (table : Table) (memory : Nat → UInt8) :
    Except Fault (Nat → UInt8) :=
  zeroBytes table memory vaddr header.memsz

/-- Uninitialised data of 256 bytes that may be written. -/
def dataSegment : ProgramHeader := ⟨true, true, false, 0x8010, 0x100⟩

/-- `elf_load` of a file with that segment. -/
def dataElf (_ : Vfs.State) (_ : Nat) : Option Elf := some ⟨0x8010, [dataSegment]⟩

/-- A process of context 1 and a file. -/
def worldOf (paging : Pman.State) : World where
  process := ⟨1, ⟨0, 0, 0, 0, 0, 0, 0, 0, 0, 0, 0, 0, 0, 0, 0, 0, 0, 0⟩, 0, 0, [], 0⟩
  paging := paging
  files := ⟨Function.update (fun _ => none) 7 (some ⟨none, [], 1, .regular, none, []⟩), 8⟩

end PKernel.Programs
