import PKernel.Library.TableTree
import PKernel.Machine
import Mathlib.Data.Nat.Bitwise

/-! # Page tables

`mapper.c`: mapping and unmapping ranges in four-level page tables. The kernel
reaches a table through its address in a window and finds that address from the
table's frame with the translation map. New tables come from
`paging_talloc_alloc`, whose choice of frame is a parameter. The walk is the
processor's: it starts from the frame of the top-level table, follows physical
addresses, and combines the flags of the four entries.
-/

namespace PKernel.PageTables

open Library.TableTree

/-- The fields of a table entry that the code and the walk use. -/
structure Entry where
  present : Bool
  readWrite : Bool
  userSuper : Bool
  executeDisable : Bool
  address : BitVec 40
deriving DecidableEq, Repr

/-- A zeroed entry. -/
def Entry.zero : Entry := ⟨false, false, false, false, 0⟩

/-- `PT64_SET_ADDRESS` and its siblings for the upper levels. -/
def Entry.setAddress (entry : Entry) (address : Nat) : Entry :=
  { entry with address := BitVec.ofNat 40 (address >>> 12) }

/-- `PT64_GET_ADDRESS` and its siblings. -/
def Entry.getAddress (entry : Entry) : Nat := entry.address.toNat <<< 12

/-- `paging_table_allocation_t`: the frame of a new table and its address in
the window. -/
structure Allocation where
  paddr : Nat
  vaddr : Nat
deriving DecidableEq, Repr

/-- Physical memory as far as it holds tables, and how the kernel reaches it. -/
structure Tables where
  /-- The entries of the table in a frame. -/
  frames : Nat → Nat → Entry
  /-- The frame that an address of the window is mapped to. -/
  window : Nat → Nat
  /-- The translation map: `paging_tmap_translate`, `none` being `NULL`. -/
  tmap : Nat → Option Nat
  /-- The tables handed out so far. -/
  used : List Allocation

namespace Tables

/-- `(*table)[index]`. -/
def entry (tables : Tables) (table index : Nat) : Entry := tables.frames (tables.window table) index

/-- An assignment to `(*table)[index]`. -/
def setEntry (tables : Tables) (table index : Nat) (change : Entry → Entry) : Tables :=
  let frame := tables.window table
  let row := Function.update (tables.frames frame) index (change (tables.frames frame index))
  { tables with frames := Function.update tables.frames frame row }

/-- The effect of handing out a table: it is mapped into the window, zeroed and
registered in the translation map. -/
def register (tables : Tables) (alloc : Allocation) : Tables where
  frames := Function.update tables.frames alloc.paddr fun _ => .zero
  window := Function.update tables.window alloc.vaddr alloc.paddr
  tmap := Function.update tables.tmap alloc.paddr (some alloc.vaddr)
  used := alloc :: tables.used

end Tables

/-! ## Indexes -/

def pml4tIndex (vaddr : Nat) : Nat := (vaddr >>> 39) &&& 0x1FF
def pdptIndex (vaddr : Nat) : Nat := (vaddr >>> 30) &&& 0x1FF
def pdtIndex (vaddr : Nat) : Nat := (vaddr >>> 21) &&& 0x1FF
def ptIndex (vaddr : Nat) : Nat := (vaddr >>> 12) &&& 0x1FF

/-! ## The code -/

section Code

-- Which table `paging_talloc_alloc` hands out next, if any is left.
variable (talloc : Tables → Option Allocation)

/-- `paging_talloc_alloc`. -/
def tallocAlloc (tables : Tables) : Except Fault (Allocation × Tables) :=
  match talloc tables with
  | some alloc => .ok (alloc, tables.register alloc)
  | none => .error .exhausted

/-- One level of `paging_map_single`: the table below `(*table)[index]`, made
when the entry is not present. `missing` is what happens when the translation
map does not know the table of a present entry. -/
def nextTable (missing : Fault) (tables : Tables) (table index : Nat) :
    Except Fault (Nat × List Allocation × Tables) :=
  if (tables.entry table index).present then
    match tables.tmap (tables.entry table index).getAddress with
    | some next => .ok (next, [], tables)
    | none => .error missing
  else do
    let (alloc, tables) ← tallocAlloc talloc tables
    let tables := tables.setEntry table index fun entry =>
      { entry.setAddress alloc.paddr with present := true, userSuper := true, readWrite := true }
    return (alloc.vaddr, [alloc], tables)

/-- The flags that `paging_map_ex` passes on. -/
structure Flags where
  readWrite : Bool
  executeDisable : Bool
  userSuper : Bool
deriving DecidableEq, Repr

/-- `paging_map_single`: whether the page was free, the tables it made, lowest
level first, and the tables after it. -/
def pagingMapSingle (tables : Tables) (pml4t paddr vaddr : Nat) (flags : Flags) :
    Except Fault (Bool × List Allocation × Tables) := do
  let (pdpt, pdptAlloc, tables) ← nextTable talloc (.entryError 0x601) tables pml4t
    (pml4tIndex vaddr)
  let (pdt, pdtAlloc, tables) ← nextTable talloc .badPointer tables pdpt (pdptIndex vaddr)
  let (pt, ptAlloc, tables) ← nextTable talloc .badPointer tables pdt (pdtIndex vaddr)
  let allocations := ptAlloc ++ pdtAlloc ++ pdptAlloc
  if (tables.entry pt (ptIndex vaddr)).present then return (false, allocations, tables)
  else
    let tables := tables.setEntry pt (ptIndex vaddr) fun entry =>
      { entry.setAddress paddr with
        present := true
        readWrite := flags.readWrite
        executeDisable := flags.executeDisable
        userSuper := flags.userSuper }
    return (true, allocations, tables)

/-- `paging_mapping_t`. -/
structure PagingMapping where
  sizePages : Nat
  allocations : List Allocation
  vaddr : Nat
deriving DecidableEq, Repr

/-- The loop of `paging_map_ex`, with `remaining` pages to go. It stops at a
page that is mapped already, and then the mapping misses that page's tables. -/
def mapPages (pml4t : Nat) (flags : Flags) :
    Nat → Tables → Nat → Nat → Except Fault (Bool × List Allocation × Tables)
  | 0, tables, _, _ => .ok (true, [], tables)
  | remaining + 1, tables, paddr, vaddr => do
      let (mapped, allocations, tables) ← pagingMapSingle talloc tables pml4t paddr vaddr flags
      if !mapped then return (false, [], tables)
      let (result, rest, tables) ←
        mapPages pml4t flags remaining tables (u64 (paddr + pageSize)) (u64 (vaddr + pageSize))
      return (result, allocations ++ rest, tables)

/-- `paging_map_ex`. -/
def pagingMapEx (tables : Tables) (pml4t paddr vaddr sizePages : Nat) (flags : Flags) :
    Except Fault (Bool × PagingMapping × Tables) := do
  let (result, allocations, tables) ← mapPages talloc pml4t flags sizePages tables paddr vaddr
  return (result, ⟨sizePages, allocations, vaddr⟩, tables)

end Code

/-- A dereference of what `paging_tmap_translate` returned. -/
def translate (tables : Tables) (paddr : Nat) : Except Fault Nat :=
  match tables.tmap paddr with
  | some table => .ok table
  | none => .error .badPointer

/-- `paging_unmap_single`. Its search for other present entries has no effect. -/
def pagingUnmapSingle (tables : Tables) (pml4t vaddr : Nat) : Except Fault (Bool × Tables) := do
  let pdpt ← translate tables (tables.entry pml4t (pml4tIndex vaddr)).getAddress
  let pdt ← translate tables (tables.entry pdpt (pdptIndex vaddr)).getAddress
  let pt ← translate tables (tables.entry pdt (pdtIndex vaddr)).getAddress
  if !(tables.entry pt (ptIndex vaddr)).present then return (false, tables)
  return (true, tables.setEntry pt (ptIndex vaddr) fun entry => { entry with present := false })

/-- The loop of `paging_unmap` for the first `count` pages. -/
def unmapPages (tables : Tables) (pml4t vaddr : Nat) : Nat → Except Fault Tables
  | 0 => .ok tables
  | count + 1 => do
      let tables ← unmapPages tables pml4t vaddr count
      let (_, tables) ← pagingUnmapSingle tables pml4t (u64 (vaddr + count * pageSize))
      return tables

/-- `paging_unmap`. -/
def pagingUnmap (tables : Tables) (pml4t : Nat) (mapping : PagingMapping) : Except Fault Tables :=
  unmapPages tables pml4t mapping.vaddr mapping.sizePages

/-! ## The walk -/

/-- What a translation yields. -/
structure Leaf where
  paddr : Nat
  flags : Flags
deriving DecidableEq, Repr

/-- The processor's walk from the table in `frame` along the indexes, with the
flags of the entries passed so far. -/
def walkFrom (frames : Nat → Nat → Entry) : Nat → Flags → List Nat → Option Leaf
  | _, _, [] => none
  | frame, flags, index :: path =>
      let entry := frames frame index
      let flags : Flags :=
        ⟨flags.readWrite && entry.readWrite, flags.executeDisable || entry.executeDisable,
          flags.userSuper && entry.userSuper⟩
      if entry.present then
        match path with
        | [] => some ⟨entry.getAddress, flags⟩
        | _ :: _ => walkFrom frames entry.getAddress flags path
      else none

/-- The translation of the page at `vaddr` by the top-level table at `pml4t`. -/
def walk (tables : Tables) (pml4t vaddr : Nat) : Option Leaf :=
  walkFrom tables.frames (tables.window pml4t) ⟨true, false, true⟩
    [pml4tIndex vaddr, pdptIndex vaddr, pdtIndex vaddr, ptIndex vaddr]

end PKernel.PageTables
