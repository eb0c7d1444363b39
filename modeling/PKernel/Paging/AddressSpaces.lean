import PKernel.Paging.Manager
import PKernel.Paging.PhysicalAllocator
import PKernel.Paging.TableAllocator

/-! # Address spaces and what they take

`manager.c` on top of the allocators: every call of the manager together with the
physical pages and the page tables that it takes and gives back. The manager's own
part of a call is the one of `Manager`, with the pages that the physical allocator
hands out.
-/

namespace PKernel.AddressSpaces

open Bitmap Talloc
open PageTables (Allocation Flags PagingMapping Tables pagingUnmap)
open Pman (Context Kind Mapping Protection flagsOf)
open Function (update)

/-- The manager's state, the page tables, and the allocators. -/
structure World where
  state : Pman.State
  tables : Tables
  allocator : Allocator
  /-- The `top_level_table_allocation` of every context. -/
  topLevel : Nat → Option Allocation
  /-- The `palloc` of every root. -/
  pallocs : Nat → Option Palloc
  /-- The `paging_mapping_t`s of every mapping. -/
  paging : Nat → List PagingMapping

def World.top (world : World) (context : Nat) : Except Fault Allocation :=
  match world.topLevel context with
  | some allocation => .ok allocation
  | none => .error .badPointer

def World.palloc (world : World) (id : Nat) : Except Fault Palloc :=
  match world.pallocs id with
  | some palloc => .ok palloc
  | none => .error .badPointer

section Code

variable (area : Area)

/-! ## Page tables out of the table allocator -/

/-- A number of calls of `paging_talloc_alloc`. -/
def advance : Nat → Allocator → Except Fault Allocator
  | 0, allocator => return allocator
  | count + 1, allocator => do
      let allocator ← advance count allocator
      let (_, allocator) ← tallocAlloc area allocator
      return allocator

/-- What `paging_talloc_alloc` returns after the tables made since there were `made`. -/
def choose (allocator : Allocator) (made : Nat) (tables : Tables) : Option Allocation :=
  match do tallocAlloc area (← advance area (tables.used.length - made) allocator) with
  | .ok (allocation, _) => some allocation
  | .error _ => none

/-- `paging_map_ex` in the table of a context. -/
def mapEx (world : World) (context paddr vaddr sizePages : Nat) (flags : Flags) :
    Except Fault (PagingMapping × World) := do
  let top ← world.top context
  let made := world.tables.used.length
  let (_, mapping, tables) ← PageTables.pagingMapEx (choose area world.allocator made) world.tables
    top.vaddr paddr vaddr sizePages flags
  let allocator ← advance area (tables.used.length - made) world.allocator
  return (mapping, { world with tables, allocator })

/-- One call of `paging_map_ex` for each page. -/
def mapEach (context : Nat) (flags : Flags) :
    World → Nat → List Nat → Except Fault (List PagingMapping × World)
  | world, _, [] => return ([], world)
  | world, vaddr, paddr :: paddrs => do
      let (mapping, world) ← mapEx area world context paddr vaddr 1 flags
      let (rest, world) ← mapEach context flags world (u64 (vaddr + pageSize)) paddrs
      return (mapping :: rest, world)

/-- Map the pages of a root at `vaddr`. -/
def mapRoot (world : World) (context : Nat) (flags : Flags) (vaddr : Nat) (root : Mapping) :
    Except Fault (List PagingMapping × World) :=
  match root.kind with
  | .alloc _ paddrs => mapEach area context flags world vaddr paddrs
  | .map _ paddr => do
      let (mapping, world) ← mapEx area world context paddr vaddr root.sizePages flags
      return ([mapping], world)
  | .borrowed _ | .shared _ => return ([], world)

/-- Map the pages of a root for a new mapping object. -/
def mapFor (world : World) (id : Nat) (write : Bool) (root : Mapping) :
    Except Fault (Nat × World) := do
  let mapping ← world.state.mapping id
  let flags := flagsOf mapping.context mapping.protection write
  let (paging, world) ← mapRoot area world mapping.context flags mapping.vaddr root
  return (id, { world with paging := update world.paging id paging })

/-! ## Adding mappings -/

/-- `pman_context_add_alloc`. -/
def addAlloc (world : World) (context : Nat) (protection : Protection) (vaddr size : Nat) :
    Except Fault (Nat × World) := do
  let (palloc, words) ← pallocAlloc area world.allocator.words (u64 (divUp size pageSize * pageSize))
  let (id, state) ← Pman.addAlloc (fun _ _ => some palloc.paddrs) world.state context protection
    vaddr size
  let root ← state.mapping id
  mapFor area { world with
    state
    allocator := { world.allocator with words }
    pallocs := update world.pallocs id (some palloc) } id protection.write root

/-- `pman_context_add_map`. -/
def addMap (world : World) (context : Nat) (protection : Protection) (vaddr paddr size : Nat) :
    Except Fault (Nat × World) := do
  let (palloc, words) := pallocAllocContiguous area world.allocator.words
    (u64 (divUp size pageSize * pageSize)) paddr
  let (id, state) ← Pman.addMap (fun _ _ => some palloc.paddrs) world.state context protection
    vaddr paddr size
  let root ← state.mapping id
  mapFor area { world with
    state
    allocator := { world.allocator with words }
    pallocs := update world.pallocs id (some palloc) } id protection.write root

/-- `pman_context_add_borrowed` and `pman_context_add_shared`. -/
def addLoan (kind : Nat → Kind) (write : Bool) (world : World) (context : Nat)
    (protection : Protection) (lender vaddr : Nat) : Except Fault (Nat × World) := do
  let root ← world.state.root lender
  let (id, state) ← Pman.addLoan kind write world.state context protection lender vaddr
  let rootMapping ← state.mapping root
  mapFor area { world with state } id write rootMapping

/-- `pman_context_add_borrowed`. -/
def addBorrowed (world : World) (context : Nat) (protection : Protection) (lender vaddr : Nat) :
    Except Fault (Nat × World) :=
  addLoan area .borrowed false world context protection lender vaddr

/-- `pman_context_add_shared`. -/
def addShared (world : World) (context : Nat) (protection : Protection) (lender vaddr : Nat) :
    Except Fault (Nat × World) :=
  addLoan area .shared protection.write world context protection lender vaddr

end Code

/-! ## Removing mappings -/

/-- `paging_unmap` for every `paging_mapping_t` of a mapping. -/
def unmapEach (tables : Tables) (top : Nat) : List PagingMapping → Except Fault Tables
  | [] => return tables
  | mapping :: rest => do
      let tables ← pagingUnmap tables top mapping
      unmapEach tables top rest

/-- The pages of a mapping object go out of the table of its context. -/
def World.unmapPages (world : World) (id : Nat) (mapping : Mapping) : Except Fault World := do
  let top ← world.top mapping.context
  let tables ← unmapEach world.tables top.vaddr (world.paging id)
  return { world with tables }

/-- The cases of `pman_context_unmap` for roots. -/
def dropReference (world : World) (id : Nat) (mapping : Mapping) : Except Fault World := do
  let state ← Pman.dropReference world.state id mapping
  if mapping.kind.references - 1 = 0 then
    let world ← World.unmapPages { world with state } id mapping
    let palloc ← world.palloc id
    let words := pallocFree world.allocator.words palloc
    return { world with allocator := { world.allocator with words } }
  else return { world with state }

/-- `pman_context_unmap`, which calls itself for the lender of a loan. -/
def unmapWith : Nat → World → Nat → Except Fault World
  | 0, _, _ => .error .nontermination
  | fuel + 1, world, id => do
      let mapping ← world.state.mapping id
      match mapping.kind.lender? with
      | none => dropReference world id mapping
      | some lender =>
          let state ← Pman.unlink world.state id mapping
          let world ← unmapWith fuel { world with state } lender
          let state ← Pman.discard world.state id mapping
          World.unmapPages { world with state } id mapping

/-- `pman_context_unmap`. -/
def unmap (world : World) (id : Nat) : Except Fault World :=
  unmapWith (world.state.nextMapping + 1) world id

/-! ## Contexts -/

/-- `pman_new_context`. -/
def newContext (area : Area) (world : World) : Except Fault (Nat × World) := do
  let (allocation, allocator) ← tallocAlloc area world.allocator
  let (context, state) := Pman.newContext world.state
  return (context, { world with
    state, allocator
    tables := world.tables.register allocation
    topLevel := update world.topLevel context (some allocation) })

/-- The loop of `pman_free_context`. -/
def unmapAll (context : Nat) : Nat → World → Except Fault World
  | 0, _ => .error .nontermination
  | fuel + 1, world => do
      let target ← world.state.context context
      match target.mappings with
      | [] => return world
      | id :: _ => unmapAll context fuel (← unmap world id)

/-- `pman_free_context`. -/
def freeContext (world : World) (context : Nat) : Except Fault World := do
  let world ← unmapAll context (world.state.nextMapping + 1) world
  let allocation ← world.top context
  let tables := { world.tables with tmap := update world.tables.tmap allocation.paddr none }
  let state := { world.state with
    contexts := update world.state.contexts context none }
  return { world with
    state, tables
    allocator := tallocFree world.allocator allocation
    topLevel := update world.topLevel context none }

theorem unmapPages_eq_ok {world next : World} {id : Nat} {mapping : Mapping}
    (hcall : world.unmapPages id mapping = .ok next) :
    ∃ tables, next = { world with tables } := by
  obtain ⟨top, _, hcall⟩ := bind_eq_ok.mp hcall
  obtain ⟨tables, _, hcall⟩ := bind_eq_ok.mp hcall
  cases hcall
  exact ⟨tables, rfl⟩

end PKernel.AddressSpaces
