import PKernel.Filesystem.DirectoryEntry
import PKernel.Heap.Realloc
import PKernel.Library.SparseBytes

/-! # Files in memory

`ramfs.c`. A node of the filesystem has the size of its file and a pointer to a block of the
heap with the bytes. An empty file has a block of one byte, so that there is something to
reallocate.
-/

namespace PKernel.Ramfs

open Heap Library Library.ByteMemory

/-- What `ramfs_fs_node_t` has behind its `base`. -/
structure Node where
  size : Nat
  data : Nat
deriving DecidableEq, Repr

/-- The heap, and the nodes by their addresses. -/
structure Storage where
  heap : Heap
  nodes : Nat → Option Node

/-- `sizeof(ramfs_fs_node_t)`. -/
def nodeSize : Nat := 40

/-- `memcpy` from a buffer of the caller. Addresses have 64 bits, and wrap. -/
def copyIn (memory : Memory) (address : Nat) (data : List UInt8) : Memory := fun place =>
  if place < 2 ^ 64 then data.getD (u64 (place + 2 ^ 64 - u64 address)) (memory place)
  else memory place

/-- `ramfs_alloc_node`. -/
def ramfsAllocNode (storage : Storage) : Except Fault (Nat × Storage) := do
  let (heap, address) ← heapAlloc storage.heap nodeSize
  return (address, ⟨heap, Function.update storage.nodes address (some ⟨0, 0⟩)⟩)

/-- What `ramfs_create` does to the node, and whether it goes on to make an entry. -/
def ramfsCreateNode (storage : Storage) (address : Nat) :
    Vfs.FileType → Except Fault (Bool × Storage)
  | .regular => do
      let (heap, data) ← heapAlloc storage.heap 1
      return (true, ⟨heap, Function.update storage.nodes address (some ⟨0, data⟩)⟩)
  | .directory => return (true, storage)
  | .pipe => return (true, storage)
  | .socket => return (true, storage)
  | .device => return (false, storage)

/-- Only devices are refused. -/
theorem ramfsCreateNode_goesOn {storage created : Storage} {address : Nat} {type : Vfs.FileType}
    {goesOn : Bool} (htype : type ≠ .device)
    (hcall : ramfsCreateNode storage address type = .ok (goesOn, created)) : goesOn = true := by
  cases type with
  | regular =>
      simp only [ramfsCreateNode, bind_eq_ok, pure_eq_ok, Except.ok.injEq, Prod.mk.injEq] at hcall
      obtain ⟨_, -, rfl, -⟩ := hcall
      rfl
  | directory => exact (Prod.mk.inj (Except.ok.inj hcall)).1.symm
  | device => exact absurd rfl htype
  | pipe => exact (Prod.mk.inj (Except.ok.inj hcall)).1.symm
  | socket => exact (Prod.mk.inj (Except.ok.inj hcall)).1.symm

/-- `ramfs_read`: the bytes that it puts in the buffer. -/
def ramfsRead (storage : Storage) (address size offset : Nat) : Except Fault (List UInt8) :=
  match storage.nodes address with
  | none => .error .badPointer
  | some node =>
      if node.size ≤ offset then .ok []
      else
        let limitedSize := if node.size < u64 (size + offset) then node.size - offset else size
        .ok ((List.range' offset limitedSize).map fun index =>
          storage.heap.memory (u64 (node.data + index)))

/-- The first part of `ramfs_write`: the node and the heap for so many bytes. -/
def ramfsExtend (heap : Heap) (node : Node) (size : Nat) : Except Fault (Node × Heap) :=
  if node.size < size then do
    let (heap, data) ← heapRealloc heap node.data size
    return (⟨size, data⟩, heap)
  else return (node, heap)

/-- `ramfs_write`. -/
def ramfsWrite (storage : Storage) (address : Nat) (data : List UInt8) (offset : Nat) :
    Except Fault (Nat × Storage) :=
  match storage.nodes address with
  | none => .error .badPointer
  | some node => do
      let (node, heap) ← ramfsExtend storage.heap node (u64 (offset + data.length))
      let memory := copyIn heap.memory (node.data + offset) data
      return (data.length, ⟨{ heap with memory }, Function.update storage.nodes address (some node)⟩)

/-! ## Contents -/

/-- The bytes that the block of a node must have. -/
def Node.room (node : Node) : Nat := max 1 node.size

/-- The file of a node. -/
def Node.contents (node : Node) (memory : Memory) : SparseBytes where
  length := node.size
  byte place := if place < node.size then memory (node.data + place) else 0
  blank _ hplace := if_neg (Nat.not_lt.mpr hplace)

/-- The files by the addresses of their nodes. -/
def Storage.contents (storage : Storage) : Nat → Option SparseBytes := fun address =>
  (storage.nodes address).map fun node => node.contents storage.heap.memory

theorem Node.contents_byte {node : Node} {memory : Memory} {place : Nat} (hplace : place < node.size) :
    (node.contents memory).byte place = memory (node.data + place) := if_pos hplace

/-- The bytes of a file depend only on its block. -/
theorem Node.contents_congr {node : Node} {memory memory' : Memory}
    (hsame : Set.EqOn memory' memory (Set.Ico node.data (node.data + node.room))) :
    node.contents memory' = node.contents memory := by
  refine SparseBytes.ext_of_lt rfl fun place hplace => ?_
  have hlt : place < node.size := hplace
  rw [contents_byte hlt, contents_byte hlt]
  exact hsame ⟨by omega, by unfold room; omega⟩

/-- A byte that none of those copied goes to is as it was. -/
theorem copyIn_apply_of_ne {memory : Memory} {address place : Nat} {data : List UInt8}
    (hne : ∀ i < data.length, place ≠ u64 (address + i)) :
    copyIn memory address data place = memory place := by
  unfold copyIn
  split
  next hplace =>
    rw [List.getD_eq_default]
    by_contra hinside
    refine hne _ (Nat.lt_of_not_le hinside) ?_
    unfold u64
    omega
  next => rfl

/-- Below the end of memory nothing wraps. -/
theorem copyIn_apply {memory : Memory} {address : Nat} {data : List UInt8}
    (hfits : address + data.length ≤ 2 ^ 64) (place : Nat) :
    copyIn memory address data place =
      if address ≤ place then data.getD (place - address) (memory place) else memory place := by
  by_cases hinside : address ≤ place ∧ place < address + data.length
  · have hindex : u64 (place + 2 ^ 64 - u64 address) = place - address := by
      unfold u64
      omega
    rw [copyIn, if_pos (by omega), hindex, if_pos hinside.1]
  · rw [copyIn_apply_of_ne fun i hi => by rw [u64_eq_self (by omega)]; omega]
    split
    next => rw [List.getD_eq_default _ _ (by omega)]
    next => rfl

theorem copyIn_apply_of_outside {memory : Memory} {address place : Nat} {data : List UInt8}
    (hfits : address + data.length ≤ 2 ^ 64)
    (hout : place < address ∨ address + data.length ≤ place) :
    copyIn memory address data place = memory place :=
  copyIn_apply_of_ne fun i hi => by
    rw [u64_eq_self (by omega)]
    omega

/-- Bytes put into the block of a node are bytes put into its file. -/
theorem Node.contents_copyIn {node : Node} {memory : Memory} {file : SparseBytes} {offset : Nat}
    {data : List UInt8} (hbound : node.data + node.size ≤ 2 ^ 64)
    (hsize : node.size = max file.length (offset + data.length)) (hbytes :
      ∀ place < node.size, memory (node.data + place) = file.byte place) :
    node.contents (copyIn memory (node.data + offset) data) = file.write offset data := by
  refine SparseBytes.ext_of_lt hsize fun place hplace => ?_
  have hlt : place < node.size := hplace
  rw [contents_byte hlt, copyIn_apply (by omega)]
  simp only [SparseBytes.write, hbytes place hlt, Nat.add_le_add_iff_left,
    Nat.add_sub_add_left]

/-! ## Reads -/

/-- `limited_size`, or nothing behind the end of the file. -/
def Node.readSize (node : Node) (size offset : Nat) : Nat :=
  if node.size ≤ offset then 0
  else if node.size < u64 (size + offset) then node.size - offset else size

/-- The indexes of the bytes of `node->data` that a transfer touches: pointers have 64 bits. -/
def touched (offset size : Nat) : List Nat := (List.range' offset size).map u64

/-- A read returns just the bytes at the indexes that it touches. -/
theorem ramfsRead_touched {storage : Storage} {address size offset : Nat} {node : Node}
    (hnode : storage.nodes address = some node) :
    ramfsRead storage address size offset = .ok ((touched offset (node.readSize size offset)).map
      fun index => storage.heap.memory (u64 (node.data + index))) := by
  rw [ramfsRead, hnode, Node.readSize, touched, List.map_map]
  have hindex : ((fun index => storage.heap.memory (u64 (node.data + index))) ∘ u64) =
      fun index => storage.heap.memory (u64 (node.data + index)) := by
    funext index
    simp only [Function.comp_apply, u64, Nat.add_mod_mod]
  rw [hindex]
  dsimp only
  split
  next => rfl
  next => rfl

theorem Node.readSize_eq {node : Node} {size offset : Nat} (hfits : offset + size < 2 ^ 64) :
    node.readSize size offset = min (offset + size) node.size - offset := by
  rw [Node.readSize, u64_eq_self (by omega)]
  split
  next => omega
  next => split <;> omega

theorem touched_length (offset size : Nat) : (touched offset size).length = size := by
  rw [touched, List.length_map, List.length_range']

/-- A read of a file is a read of its block. -/
theorem ramfsRead_eq {storage : Storage} {address size offset : Nat} {node : Node}
    (hnode : storage.nodes address = some node) (hbound : node.data + node.size ≤ 2 ^ 64)
    (hfits : offset + size < 2 ^ 64) :
    ramfsRead storage address size offset =
      .ok ((node.contents storage.heap.memory).read offset size) := by
  have hlength : (node.contents storage.heap.memory).length = node.size := rfl
  rw [ramfsRead_touched hnode, Node.readSize_eq hfits, SparseBytes.read, hlength]
  congr 1
  refine List.ext_getElem (by simp [touched]) fun index hleft hright => ?_
  simp only [List.length_map, touched_length] at hleft
  simp only [List.getElem_map, touched, List.getElem_range', Nat.one_mul]
  rw [Node.contents_byte (by omega), u64_eq_self (show offset + index < 2 ^ 64 by omega),
    u64_eq_self (by omega)]

end PKernel.Ramfs
