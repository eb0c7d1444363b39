import PKernel.Filesystem.Paths
import PKernel.Filesystem.Ramfs
import PKernel.Pkfs.Listing

/-! # Making entries

`fs_make` over the three filesystems that have a `create`. The functions leave the test for a
taken name to `fs_directory_entry_add_entry` and do not look at the null pointer that it returns
then: they store the new entry through it.
-/

namespace PKernel.Making

open Vfs Heap

/-- The filesystems with a `create` in their `superblock_ops`. -/
inductive Filesystem where
  | ramfs
  | sysfs
  | pkfs
deriving DecidableEq, Repr

/-- The cached entries, the device of pkfs, and the heap with the nodes of ramfs. -/
structure Mounted where
  entries : State
  device : Pkfs.Device
  storage : Ramfs.Storage

/-- How `fs_make` ends without returning. -/
inductive MakeStop where
  | create (stop : Pkfs.CreateStop)
  | heap (fault : Fault)
deriving DecidableEq, Repr

/-- A call on the heap. -/
def onHeap {α : Type} (call : Except Fault α) : Except MakeStop α := call.mapError .heap

/-- A call on the entries. -/
def onEntries {α : Type} (call : Except Stop α) : Except MakeStop α :=
  call.mapError fun stop => .create (.entries stop)

/-- A call of pkfs. -/
def onCreate {α : Type} (call : Except Pkfs.CreateStop α) : Except MakeStop α :=
  call.mapError .create

/-- The size of a node. -/
def Filesystem.nodeSize : Filesystem → Nat
  | ramfs => Ramfs.nodeSize
  | sysfs => 48
  | pkfs => 32

/-- `ramfs_alloc_node`, `sysfs_alloc_node` and the `alloc_node` of pkfs: the address of the node.
A node of sysfs or pkfs has nothing in it yet. -/
def allocNode (filesystem : Filesystem) (mounted : Mounted) : Except MakeStop (Nat × Mounted) :=
  match filesystem with
  | .ramfs => do
      let (address, storage) ← onHeap (Ramfs.ramfsAllocNode mounted.storage)
      return (address, { mounted with storage })
  | .sysfs | .pkfs => do
      let (heap, address) ← onHeap (heapAlloc mounted.storage.heap filesystem.nodeSize)
      return (address, { mounted with storage := { mounted.storage with heap } })

/-- What `ramfs_create` does behind its `switch`, and all that `sysfs_create` does. -/
def makeEntry (mounted : Mounted) (parent node : Nat) (name : Name) (type : FileType) :
    Except MakeStop (Option EntryNode × Mounted) := do
  let parentEntry ← onEntries (mounted.entries.entry parent)
  match addNode parentEntry.nodes name with
  -- the new entry is stored through the null pointer that stands for a taken name
  | none => throw (.create (.entries .badPointer))
  | some nodes =>
      let (child, state) := directoryEntryCreate mounted.entries type (some parent) name (some node)
      let state ← onEntries (addReference state child)
      let entries := state.set parent ({ parentEntry with nodes }.setDirent name (some child))
      return (some ⟨name, some child⟩, { mounted with entries })

/-- `sysfs_create`. -/
def sysfsCreate (mounted : Mounted) (parent node : Nat) (name : Name) (type : FileType) :
    Except MakeStop (Option EntryNode × Mounted) :=
  makeEntry mounted parent node name type

/-- `ramfs_create`. -/
def ramfsCreate (mounted : Mounted) (parent node : Nat) (name : Name) (type : FileType) :
    Except MakeStop (Option EntryNode × Mounted) := do
  let (goesOn, storage) ← onHeap (Ramfs.ramfsCreateNode mounted.storage node type)
  if goesOn then makeEntry { mounted with storage } parent node name type
  else return (none, { mounted with storage })

/-- The `create` of pkfs, whose nodes are known by their pages. -/
def pkfsCreate (mounted : Mounted) (parent : Nat) (name : Name) (type : FileType) :
    Except MakeStop (Option EntryNode × Mounted) := do
  let (entryNode, entries, device) ←
    onCreate (Pkfs.create mounted.entries mounted.device parent name type)
  return (entryNode, { mounted with entries, device })

/-- `create` of the filesystem that the parent is in. -/
def create (filesystem : Filesystem) (mounted : Mounted) (parent node : Nat) (name : Name)
    (type : FileType) : Except MakeStop (Option EntryNode × Mounted) :=
  match filesystem with
  | .ramfs => ramfsCreate mounted parent node name type
  | .sysfs => sysfsCreate mounted parent node name type
  | .pkfs => pkfsCreate mounted parent name type

/-- `fs_make`. -/
def fsMake (filesystem : Filesystem) (mounted : Mounted) (parent : Nat) (name : Name)
    (type : FileType) : Except MakeStop (Option Nat × Mounted) := do
  let (node, mounted) ← allocNode filesystem mounted
  match ← create filesystem mounted parent node name type with
  | (none, mounted) => return (none, mounted)
  | (some entryNode, mounted) =>
      let entries ← onEntries (addReference mounted.entries parent)
      return (entryNode.dirent, { mounted with entries })

/-- `fs_make` returns null, and the entries with their references and the device are as before. -/
def FailsCleanly (filesystem : Filesystem) (mounted : Mounted) (parent : Nat) (name : Name)
    (type : FileType) : Prop :=
  ∃ mounted', fsMake filesystem mounted parent name type = .ok (none, mounted') ∧
    mounted'.entries = mounted.entries ∧ mounted'.device = mounted.device

/-- The types that `create` refuses before it looks at the name. -/
def Refuses : Filesystem → FileType → Prop
  | .ramfs, type => type = .device
  | .sysfs, _ => False
  | .pkfs, type => type ≠ .regular ∧ type ≠ .directory

/-! ## Names that are taken -/

variable {filesystem : Filesystem} {mounted mounted' : Mounted} {parent node : Nat} {name : Name}
  {type : FileType} {entry : Entry} {result : Option EntryNode}

theorem addNode_eq_none {nodes : List EntryNode} :
    addNode nodes name = none ↔ ∃ held ∈ nodes, held.name = name := by
  simp [addNode]

theorem onHeap_eq_ok {α : Type} {call : Except Fault α} {value : α} :
    onHeap call = .ok value ↔ call = .ok value := mapError_eq_ok

theorem onCreate_eq_ok {α : Type} {call : Except Pkfs.CreateStop α} {value : α} :
    onCreate call = .ok value ↔ call = .ok value := mapError_eq_ok

theorem onEntries_eq_ok {α : Type} {call : Except Stop α} {value : α} :
    onEntries call = .ok value ↔ call = .ok value := mapError_eq_ok

/-- With a taken name no entry is made, and none of the functions returns. -/
theorem makeEntry_taken (hentry : mounted.entries.entries parent = some entry)
    (htaken : ∃ held ∈ entry.nodes, held.name = name) :
    makeEntry mounted parent node name type ≠ .ok (result, mounted') := by
  intro hcall
  simp only [makeEntry, bind_eq_ok, onEntries_eq_ok] at hcall
  obtain ⟨parentEntry, hparent, hcall⟩ := hcall
  rw [State.entry, hentry] at hparent
  cases hparent
  rw [addNode_eq_none.mpr htaken] at hcall
  cases hcall

theorem exists_createNode (htype : type = .regular ∨ type = .directory) :
    ∃ createNode, Pkfs.createNode? type = some createNode := by
  rcases htype with rfl | rfl
  · exact ⟨_, rfl⟩
  · exact ⟨_, rfl⟩

theorem pkfsCreate_taken (hentry : mounted.entries.entries parent = some entry)
    (htaken : ∃ held ∈ entry.nodes, held.name = name)
    (htype : type = .regular ∨ type = .directory) :
    pkfsCreate mounted parent name type ≠ .ok (result, mounted') := by
  intro hcall
  obtain ⟨createNode, hcreate⟩ := exists_createNode htype
  simp only [pkfsCreate, bind_eq_ok, onCreate_eq_ok, Pkfs.create, hcreate, Pkfs.onEntries_eq_ok]
    at hcall
  obtain ⟨_, ⟨parentEntry, hparent, hcall⟩, -⟩ := hcall
  rw [State.entry, hentry] at hparent
  cases hparent
  cases hnode : entry.node with
  | none =>
      rw [hnode] at hcall
      cases hcall
  | some directory =>
      -- the node is made on disc before the name is looked at
      simp only [hnode, bind_eq_ok, addNode_eq_none.mpr htaken] at hcall
      obtain ⟨_, -, hcall⟩ := hcall
      cases hcall

/-- With a taken name `create` returns only where it refuses the type. -/
theorem refuses_of_create (hentry : mounted.entries.entries parent = some entry)
    (htaken : ∃ held ∈ entry.nodes, held.name = name)
    (hcall : create filesystem mounted parent node name type = .ok (result, mounted')) :
    Refuses filesystem type := by
  cases filesystem with
  | ramfs =>
      by_contra htype
      simp only [create, ramfsCreate, bind_eq_ok, onHeap_eq_ok] at hcall
      obtain ⟨⟨goesOn, storage⟩, hprepared, hcall⟩ := hcall
      rw [Ramfs.ramfsCreateNode_goesOn htype hprepared] at hcall
      have hparent : ({ mounted with storage } : Mounted).entries.entries parent = some entry := hentry
      exact makeEntry_taken hparent htaken hcall
  | sysfs => exact makeEntry_taken hentry htaken hcall
  | pkfs =>
      exact not_or.mp fun htype => pkfsCreate_taken hentry htaken htype hcall

/-- A type that is refused is refused before anything else is done. -/
theorem create_of_refuses (hrefuses : Refuses filesystem type) :
    create filesystem mounted parent node name type = .ok (none, mounted) := by
  cases filesystem with
  | ramfs =>
      obtain rfl : type = .device := hrefuses
      rfl
  | sysfs => exact hrefuses.elim
  | pkfs =>
      cases type with
      | regular => exact absurd rfl hrefuses.1
      | directory => exact absurd rfl hrefuses.2
      | device => rfl
      | pipe => rfl
      | socket => rfl

/-! ## Nodes -/

/-- Making a node is one allocation, of which the entries and the device see nothing. -/
theorem allocNode_eq_ok (hcall : allocNode filesystem mounted = .ok (node, mounted')) :
    (∃ heap, heapAlloc mounted.storage.heap filesystem.nodeSize = .ok (heap, node)) ∧
      mounted'.entries = mounted.entries ∧ mounted'.device = mounted.device := by
  have hplain (hcall : (do
      let (heap, address) ← onHeap (heapAlloc mounted.storage.heap filesystem.nodeSize)
      return (address, { mounted with storage := { mounted.storage with heap } })) =
        .ok (node, mounted')) :
      (∃ heap, heapAlloc mounted.storage.heap filesystem.nodeSize = .ok (heap, node)) ∧
        mounted'.entries = mounted.entries ∧ mounted'.device = mounted.device := by
    simp only [bind_eq_ok, onHeap_eq_ok, pure_eq_ok, Except.ok.injEq, Prod.mk.injEq] at hcall
    obtain ⟨⟨heap, address⟩, halloc, rfl, rfl⟩ := hcall
    exact ⟨⟨heap, halloc⟩, rfl, rfl⟩
  cases filesystem with
  | ramfs =>
      simp only [allocNode, Ramfs.ramfsAllocNode, bind_eq_ok, onHeap_eq_ok, pure_eq_ok,
        Except.ok.injEq, Prod.mk.injEq] at hcall
      obtain ⟨_, ⟨⟨heap, address⟩, halloc, rfl⟩, rfl, rfl⟩ := hcall
      exact ⟨⟨heap, halloc⟩, rfl, rfl⟩
  | sysfs => exact hplain hcall
  | pkfs => exact hplain hcall

theorem allocNode_returns {heap : Heap} {address : Nat}
    (halloc : heapAlloc mounted.storage.heap filesystem.nodeSize = .ok (heap, address)) :
    ∃ made, allocNode filesystem mounted = .ok (address, made) := by
  cases filesystem with
  | ramfs =>
      have hnode : Ramfs.ramfsAllocNode mounted.storage = .ok (address,
          ⟨heap, Function.update mounted.storage.nodes address (some ⟨0, 0⟩)⟩) := by
        rw [Ramfs.ramfsAllocNode, show heapAlloc mounted.storage.heap Ramfs.nodeSize =
          .ok (heap, address) from halloc, ok_bind]
        exact pure_eq_ok _
      exact ⟨_, by rw [allocNode, onHeap_eq_ok.mpr hnode, ok_bind]; exact pure_eq_ok _⟩
  | sysfs => exact ⟨_, by rw [allocNode, onHeap_eq_ok.mpr halloc, ok_bind]; exact pure_eq_ok _⟩
  | pkfs => exact ⟨_, by rw [allocNode, onHeap_eq_ok.mpr halloc, ok_bind]; exact pure_eq_ok _⟩

/-! ## The call -/

theorem FailsCleanly.refuses (hentry : mounted.entries.entries parent = some entry)
    (htaken : ∃ held ∈ entry.nodes, held.name = name)
    (hfails : FailsCleanly filesystem mounted parent name type) : Refuses filesystem type ∧
      ∃ allocated, heapAlloc mounted.storage.heap filesystem.nodeSize = .ok allocated := by
  obtain ⟨mounted', hcall, -⟩ := hfails
  simp only [fsMake, bind_eq_ok] at hcall
  obtain ⟨⟨node, made⟩, halloc, ⟨result, created⟩, hcreate, -⟩ := hcall
  obtain ⟨⟨heap, hheap⟩, hentries, -⟩ := allocNode_eq_ok halloc
  have hmade : made.entries.entries parent = some entry := by rw [hentries, hentry]
  exact ⟨refuses_of_create hmade htaken hcreate, _, hheap⟩

/-- `fs_make` with a taken name fails cleanly exactly if the node can be allocated and `create`
refuses the type. -/
theorem failsCleanly_iff (hentry : mounted.entries.entries parent = some entry)
    (htaken : ∃ held ∈ entry.nodes, held.name = name) :
    FailsCleanly filesystem mounted parent name type ↔
      Refuses filesystem type ∧
        ∃ allocated, heapAlloc mounted.storage.heap filesystem.nodeSize = .ok allocated := by
  refine ⟨FailsCleanly.refuses hentry htaken, ?_⟩
  rintro ⟨hrefuses, ⟨heap, address⟩, hheap⟩
  obtain ⟨made, halloc⟩ := allocNode_returns hheap
  obtain ⟨-, hentries, hdevice⟩ := allocNode_eq_ok halloc
  refine ⟨made, ?_, hentries, hdevice⟩
  simp only [fsMake, halloc, ok_bind, create_of_refuses hrefuses, pure_eq_ok]

/-! ## A name that is taken -/

/-- The name `a` is in the root directory. -/
def takenMounted : Mounted where
  entries := ⟨Function.update (fun _ => none) fsRoot
    (some ⟨none, [], 2, .directory, some 65, [⟨[97], none⟩]⟩), 1⟩
  device := Pkfs.emptyImage
  storage := ⟨heapInit fun _ => 0, fun _ => none⟩

theorem failsCleanly_device : FailsCleanly .ramfs takenMounted fsRoot [97] .device := by
  have hroom : (heapAlloc (heapInit fun _ => 0) Ramfs.nodeSize).toOption.isSome := by decide +kernel
  obtain ⟨allocated, halloc⟩ := Option.isSome_iff_exists.mp hroom
  exact (failsCleanly_iff rfl ⟨⟨[97], none⟩, by simp, rfl⟩).mpr
    ⟨rfl, allocated, toOption_eq_some.mp halloc⟩

/-- Making a file with the name does not return on any of the filesystems. -/
theorem not_failsCleanly_regular : ¬FailsCleanly .ramfs takenMounted fsRoot [97] .regular ∧
    ¬FailsCleanly .sysfs takenMounted fsRoot [97] .regular ∧
    ¬FailsCleanly .pkfs takenMounted fsRoot [97] .regular := by
  have hentry : takenMounted.entries.entries fsRoot =
      some ⟨none, [], 2, .directory, some 65, [⟨[97], none⟩]⟩ := rfl
  have htaken : ∃ held ∈ [(⟨[97], none⟩ : EntryNode)], held.name = [97] :=
    ⟨⟨[97], none⟩, by simp, rfl⟩
  refine ⟨fun hfails => ?_, fun hfails => ?_, fun hfails => ?_⟩
  · exact absurd (hfails.refuses hentry htaken).1 nofun
  · exact (hfails.refuses hentry htaken).1
  · exact (hfails.refuses hentry htaken).1.1 rfl

end PKernel.Making
