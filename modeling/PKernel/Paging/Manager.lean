import PKernel.Paging.PageTables
import PKernel.Paging.VirtualRegions

/-! # The paging manager

`manager.c`: contexts, the mappings in them, and the reference counts between
them. A context has its virtual address space as a region list, its page table
as a partial map from pages to translations, and the list of its mappings,
latest first; `VirtualAllocator` and `PageTableRun` describe the node list and
the tables by these. Mapping objects are named by numbers that are never used
again. Which physical pages `palloc_alloc` hands out is a parameter.
-/

namespace PKernel.Pman

open PageTables (Leaf Flags)
open Valloc (Region)
open Function (update)

/-- `pman_protection_flags_t`. -/
structure Protection where
  write : Bool
  execute : Bool
  shared : Bool
  vreserve : Bool
deriving DecidableEq, Repr

/-- The part of `pman_mapping_t` that depends on its type. -/
inductive Kind where
  /-- The references and `palloc.paddrs`. -/
  | alloc (references : Nat) (paddrs : List Nat)
  /-- The references and `palloc.paddrs[0]`. -/
  | map (references : Nat) (paddr : Nat)
  | borrowed (lender : Nat)
  | shared (lender : Nat)
deriving DecidableEq, Repr

namespace Kind

def isRoot : Kind → Bool
  | alloc _ _ | map _ _ => true
  | borrowed _ | shared _ => false

/-- The mapping that a loan is from. -/
def lender? : Kind → Option Nat
  | alloc _ _ | map _ _ => none
  | borrowed lender | shared lender => some lender

/-- The reference count of a root. -/
def references : Kind → Nat
  | alloc references _ | map references _ => references
  | borrowed _ | shared _ => 0

def setReferences (kind : Kind) (references : Nat) : Kind :=
  match kind with
  | alloc _ paddrs => alloc references paddrs
  | map _ paddr => map references paddr
  | borrowed lender => borrowed lender
  | shared lender => shared lender

end Kind

/-- `pman_mapping_t`. -/
structure Mapping where
  context : Nat
  protection : Protection
  vaddr : Nat
  sizePages : Nat
  kind : Kind
deriving DecidableEq, Repr

/-- The physical page behind page `i` of a root. -/
def Mapping.frame? (root : Mapping) (i : Nat) : Option Nat :=
  match root.kind with
  | .alloc _ paddrs => paddrs[i]?
  | .map _ paddr => if i < root.sizePages then some (paddr + i * pageSize) else none
  | .borrowed _ | .shared _ => none

/-- A page table: the translations of the pages that are present. -/
abbrev Table := Nat → Option Leaf

/-- `pman_context_t`. -/
structure Context where
  regions : List Region
  table : Table
  mappings : List Nat

structure State where
  contexts : Nat → Option Context
  mappings : Nat → Option Mapping
  /-- The number of contexts and of mappings made so far. -/
  nextContext : Nat
  nextMapping : Nat
  /-- Physical memory. -/
  memory : Nat → UInt8
  /-- The roots made so far, and those whose pages `palloc_free` has got, latest first. -/
  roots : List Nat
  released : List Nat

/-- `kernel_context`. -/
def kernelContext : Nat := 0

namespace State

def context (state : State) (id : Nat) : Except Fault Context :=
  match state.contexts id with
  | some context => .ok context
  | none => .error .badPointer

def mapping (state : State) (id : Nat) : Except Fault Mapping :=
  match state.mappings id with
  | some mapping => .ok mapping
  | none => .error .badPointer

def setContext (state : State) (id : Nat) (context : Context) : State :=
  { state with contexts := update state.contexts id (some context) }

def setMapping (state : State) (id : Nat) (mapping : Mapping) : State :=
  { state with mappings := update state.mappings id (some mapping) }

end State

/-! ## Page tables -/

/-- `paging_map_ex` for one page. At a page that is mapped already it halts the
processor, whose interrupts are off. -/
def mapPage (table : Table) (page : Nat) (leaf : Leaf) : Except Fault Table :=
  if (table page).isSome then .error .halt else .ok (update table page (some leaf))

/-- One call of `paging_map_ex` for each page. -/
def mapEach (table : Table) (flags : Flags) : Nat → List Nat → Except Fault Table
  | _, [] => .ok table
  | page, paddr :: paddrs => do
      let table ← mapPage table page ⟨paddr, flags⟩
      mapEach table flags (page + 1) paddrs

/-- One call of `paging_map_ex` for a run of pages. -/
def mapRun (table : Table) (flags : Flags) (page paddr : Nat) : Nat → Except Fault Table
  | 0 => .ok table
  | count + 1 => do
      let table ← mapPage table page ⟨paddr, flags⟩
      mapRun table flags (page + 1) (paddr + pageSize) count

/-- `paging_unmap` for a range. -/
def unmapRange (table : Table) (page count : Nat) : Table := fun other =>
  if page ≤ other ∧ other < page + count then none else table other

/-- The flags that the manager passes to `paging_map_ex`. -/
def flagsOf (context : Nat) (protection : Protection) (write : Bool) : Flags :=
  ⟨write, !protection.execute, context != kernelContext⟩

/-- Map the pages of a root at `vaddr`. -/
def mapRoot (table : Table) (flags : Flags) (vaddr : Nat) (root : Mapping) :
    Except Fault Table :=
  match root.kind with
  | .alloc _ paddrs => mapEach table flags (vaddr / pageSize) paddrs
  | .map _ paddr => mapRun table flags (vaddr / pageSize) paddr root.sizePages
  | .borrowed _ | .shared _ => .ok table

/-! ## Adding mappings -/

/-- Where a mapping goes: anywhere for `NULL`, unless `fixed`. -/
def placeVaddr (regions : List Region) (vaddr size : Nat) (fixed : Bool) :
    Except Fault (Nat × List Region) :=
  if vaddr = 0 && !fixed then Valloc.alloc regions size else Valloc.reserve regions vaddr size

/-- The new mapping object goes to the front of its context's list. -/
def link (state : State) (context : Context) (mapping : Mapping) : Nat × State :=
  let id := state.nextMapping
  (id, { state with
    contexts := update state.contexts mapping.context
      (some { context with mappings := id :: context.mappings })
    mappings := update state.mappings id (some mapping)
    nextMapping := id + 1 })

/-- `get_root_mapping`. -/
def getRootMapping (state : State) : Nat → Nat → Except Fault Nat
  | 0, _ => .error .nontermination
  | fuel + 1, id => do
      let mapping ← state.mapping id
      match mapping.kind.lender? with
      | some lender => getRootMapping state fuel lender
      | none => return id

/-- `get_root_mapping`; no chain of lenders is longer than there are mappings. -/
def State.root (state : State) (id : Nat) : Except Fault Nat :=
  getRootMapping state (state.nextMapping + 1) id

section Code

-- The pages that `palloc_alloc`, or `palloc_alloc_contiguous` with address 0, would hand out.
variable (palloc : State → Nat → Option (List Nat))

/-- `pman_context_add_alloc`. An array of no elements makes the heap panic. -/
def addAlloc (state : State) (context : Nat) (protection : Protection) (vaddr size : Nat) :
    Except Fault (Nat × State) := do
  let sizePages := divUp size pageSize
  let target ← state.context context
  let (vaddr, regions) ← placeVaddr target.regions vaddr size false
  if sizePages = 0 then throw (.panic "Zero byte allocation" [])
  match palloc state sizePages with
  | none => throw .exhausted
  | some paddrs =>
      let mapping : Mapping := ⟨context, protection, vaddr, sizePages, .alloc 1 paddrs⟩
      let table ← mapRoot target.table (flagsOf context protection protection.write) vaddr mapping
      let (id, state) := link state { target with regions, table } mapping
      return (id, { state with roots := id :: state.roots })

/-- `palloc_alloc_contiguous`: the first of the pages, which is the given one unless that is 0. -/
def pallocContiguous (state : State) (paddr sizePages : Nat) : Except Fault Nat :=
  if paddr ≠ 0 then .ok paddr
  else match palloc state sizePages with
    | some (first :: _) => .ok first
    | _ => .error .exhausted

/-- `pman_context_add_map`. -/
def addMap (state : State) (context : Nat) (protection : Protection) (vaddr paddr size : Nat) :
    Except Fault (Nat × State) := do
  let sizePages := divUp size pageSize
  let target ← state.context context
  let (vaddr, regions) ← placeVaddr target.regions vaddr size protection.vreserve
  let paddr ← pallocContiguous palloc state paddr sizePages
  let mapping : Mapping := ⟨context, protection, vaddr, sizePages, .map 1 paddr⟩
  let table ← mapRoot target.table (flagsOf context protection protection.write) vaddr mapping
  let (id, state) := link state { target with regions, table } mapping
  return (id, { state with roots := id :: state.roots })

end Code

/-- `pman_context_add_borrowed` and `pman_context_add_shared`, which differ in
the type of the new mapping and in whether its pages can be writable. -/
def addLoan (kind : Nat → Kind) (write : Bool) (state : State) (context : Nat)
    (protection : Protection) (lender vaddr : Nat) : Except Fault (Nat × State) := do
  let root ← state.root lender
  let lenderMapping ← state.mapping lender
  let target ← state.context context
  let (vaddr, regions) ←
    placeVaddr target.regions vaddr (u64 (lenderMapping.sizePages * pageSize)) false
  let rootMapping ← state.mapping root
  if rootMapping.kind = .alloc rootMapping.kind.references [] then
    throw (.panic "Zero byte allocation" [])
  let rootMapping :=
    { rootMapping with kind := rootMapping.kind.setReferences (rootMapping.kind.references + 1) }
  let table ← mapRoot target.table (flagsOf context protection write) vaddr rootMapping
  return link (state.setMapping root rootMapping) { target with regions, table }
    ⟨context, protection, vaddr, lenderMapping.sizePages, kind root⟩

/-- `pman_context_add_borrowed`: the pages are never writable. -/
def addBorrowed (state : State) (context : Nat) (protection : Protection) (lender vaddr : Nat) :
    Except Fault (Nat × State) :=
  addLoan .borrowed false state context protection lender vaddr

/-- `pman_context_add_shared`. -/
def addShared (state : State) (context : Nat) (protection : Protection) (lender vaddr : Nat) :
    Except Fault (Nat × State) :=
  addLoan .shared protection.write state context protection lender vaddr

/-! ## Removing mappings -/

/-- Take a mapping off the list of its context. -/
def unlink (state : State) (id : Nat) (mapping : Mapping) : Except Fault State := do
  let context ← state.context mapping.context
  return state.setContext mapping.context
    { context with mappings := context.mappings.erase id }

/-- Give back a mapping's addresses and pages, and free the object. -/
def discard (state : State) (id : Nat) (mapping : Mapping) : Except Fault State := do
  let context ← state.context mapping.context
  let regions := (Valloc.release context.regions mapping.vaddr).2
  let table := unmapRange context.table (mapping.vaddr / pageSize) mapping.sizePages
  let state := state.setContext mapping.context { context with regions, table }
  return { state with mappings := update state.mappings id none }

/-- The cases of `pman_context_unmap` for roots. -/
def dropReference (state : State) (id : Nat) (mapping : Mapping) : Except Fault State := do
  let references := mapping.kind.references - 1
  if references = 0 then
    let state ← unlink state id mapping
    let state ← discard state id mapping
    return { state with released := id :: state.released }
  else
    return state.setMapping id { mapping with kind := mapping.kind.setReferences references }

/-- `pman_context_unmap`, which calls itself for the lender of a loan. -/
def unmapWith : Nat → State → Nat → Except Fault State
  | 0, _, _ => .error .nontermination
  | fuel + 1, state, id => do
      let mapping ← state.mapping id
      match mapping.kind.lender? with
      | none => dropReference state id mapping
      | some lender =>
          let state ← unlink state id mapping
          let state ← unmapWith fuel state lender
          discard state id mapping

/-- `pman_context_unmap`. -/
def unmap (state : State) (id : Nat) : Except Fault State :=
  unmapWith (state.nextMapping + 1) state id

/-! ## Memory -/

/-- The physical address behind a virtual one. -/
def translate (table : Table) (vaddr : Nat) : Option Nat :=
  (table (vaddr / pageSize)).map fun leaf => leaf.paddr + vaddr % pageSize

/-- `memcpy` in the kernel's address space. -/
def memcpy (table : Table) (memory : Nat → UInt8) (dst src : Nat) :
    Nat → Except Fault (Nat → UInt8)
  | 0 => .ok memory
  | count + 1 => do
      let memory ← memcpy table memory dst src count
      match translate table (dst + count), translate table (src + count) with
      | some target, some source => return update memory target (memory source)
      | _, _ => throw .badPointer

/-! ## Copy on write -/

/-- `pman_add_reference`. -/
def addReference (state : State) (id : Nat) : Except Fault State := do
  let mapping ← state.mapping id
  return state.setMapping id
    { mapping with kind := mapping.kind.setReferences (mapping.kind.references + 1) }

/-- `pman_context_prepare_write`. -/
def prepareWrite (palloc : State → Nat → Option (List Nat)) (state : State) (id : Nat) :
    Except Fault (Nat × State) := do
  let mapping ← state.mapping id
  match mapping.kind with
  | .borrowed _ =>
      let root ← state.root id
      let rootMapping ← state.mapping root
      if rootMapping.kind.references = 1 then
        let state ← addReference state root
        let state ← unmap state id
        let (user, state) ← addShared state mapping.context mapping.protection root mapping.vaddr
        let state ← unmap state root
        return (user, state)
      else
        let (copy, state) ← addAlloc palloc state kernelContext ⟨true, false, false, false⟩ 0
          (u64 (rootMapping.sizePages * pageSize))
        let kernel ← state.context kernelContext
        let copyMapping ← state.mapping copy
        let memory ← memcpy kernel.table state.memory copyMapping.vaddr rootMapping.vaddr
          (rootMapping.sizePages * pageSize)
        let state ← unmap { state with memory } id
        let (user, state) ← addShared state mapping.context mapping.protection copy mapping.vaddr
        let state ← unmap state copy
        return (user, state)
  | _ => return (id, state)

/-! ## Contexts -/

/-- `pman_new_context`. -/
def newContext (state : State) : Nat × State :=
  (state.nextContext, { state with
    contexts := update state.contexts state.nextContext
      (some ⟨Valloc.initial, fun _ => none, []⟩)
    nextContext := state.nextContext + 1 })

/-- The loop of `pman_free_context`: unmap the first mapping until none is left. -/
def unmapAll (context : Nat) : Nat → State → Except Fault State
  | 0, _ => .error .nontermination
  | fuel + 1, state => do
      let target ← state.context context
      match target.mappings with
      | [] => return state
      | id :: _ => unmapAll context fuel (← unmap state id)

/-- `pman_free_context`. -/
def freeContext (state : State) (context : Nat) : Except Fault State := do
  let state ← unmapAll context (state.nextMapping + 1) state
  return { state with contexts := update state.contexts context none }

/-- `pman_context_get_vaddr`. -/
def getVaddr (state : State) (context vaddr : Nat) : Except Fault (Option Nat) := do
  let target ← state.context context
  return target.mappings.find? fun id =>
    match state.mappings id with
    | some mapping =>
        decide (mapping.vaddr ≤ vaddr ∧ vaddr < mapping.vaddr + mapping.sizePages * pageSize)
    | none => false

end PKernel.Pman
