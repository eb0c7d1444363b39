import PKernel.Machine
import PKernel.Library.ByteMemory
import Mathlib.Logic.Function.Basic

/-! # The boundary-tag heap

The kernel heap is one region of memory cut into blocks. A 24-byte tag stands
before every block and after the last one; it records the size of the block
before it and the size and the reserved flag of the block after it. The last
tag has no block after it and is recognized by `next_size = 0`.

`heap_init`, `heap_alloc`, `heap_free`, `heap_realloc`, `heap_check` and
`heap_usage` on the bytes of memory. Without `HEAP_DEBUG` the fields of a tag,
`next_reserved`, `prev_size` and `next_size`, are at offsets 0, 8 and 16.
-/

namespace PKernel

open Library.ByteMemory

/-- The heap's globals and the memory they point into. -/
structure Heap where
  memory : Memory
  allocSize : Nat
  headTag : Nat
  tailTag : Nat

namespace Heap

/-- `sizeof(heap_tag_t)`. -/
def tagSize : Nat := 24

/-- `HEAP_INITIAL_SIZE`. -/
def heapInitialSize : Nat := 0x100000

/-- `PAGING_HEAP_VADDR`. -/
def pagingHeapVaddr : Nat := 0x038000000000

/-- The three fields of a tag, together with the address they are read from. -/
structure Tag where
  addr : Nat
  nextReserved : Bool
  prevSize : Nat
  nextSize : Nat
deriving DecidableEq, Repr

def nextReserved (memory : Memory) (tag : Nat) : Bool := memory tag != 0

def prevSize (memory : Memory) (tag : Nat) : Nat := loadLE memory (tag + 8) 8

def nextSize (memory : Memory) (tag : Nat) : Nat := loadLE memory (tag + 16) 8

def setNextReserved (memory : Memory) (tag : Nat) (value : Bool) : Memory :=
  storeLE memory tag 1 value.toNat

def setPrevSize (memory : Memory) (tag value : Nat) : Memory := storeLE memory (tag + 8) 8 value

def setNextSize (memory : Memory) (tag value : Nat) : Memory := storeLE memory (tag + 16) 8 value

def readTag (memory : Memory) (tag : Nat) : Tag where
  addr := tag
  nextReserved := nextReserved memory tag
  prevSize := prevSize memory tag
  nextSize := nextSize memory tag

/-- `(intptr_t) tag + tag->next_size + sizeof(heap_tag_t)`. -/
def followingTag (memory : Memory) (tag : Nat) : Nat :=
  u64 (tag + nextSize memory tag + tagSize)

/-- Tags are at least `tagSize` bytes apart, so a walk that stays inside the
heap makes fewer steps than this; the loops below give up after it. -/
def walkBound : Nat := heapInitialSize

/-- The last part of `heap_init`, which lays out one free block. -/
def heapInit (memory : Memory) : Heap :=
  let sectorSize := heapInitialSize - 2 * tagSize
  let head := pagingHeapVaddr
  let tail := u64 (pagingHeapVaddr + sectorSize + tagSize)
  let memory := setNextSize memory head sectorSize
  let memory := setPrevSize memory head 0
  let memory := setNextReserved memory head false
  let memory := setPrevSize memory tail sectorSize
  let memory := setNextSize memory tail 0
  let memory := setNextReserved memory tail false
  { memory, allocSize := 0, headTag := head, tailTag := tail }

/-- The `while` loop of `heap_alloc`: the first free block that fits. -/
def findTag (memory : Memory) (size : Nat) : Nat → Nat → Except Fault Nat
  | 0, _ => .error .nontermination
  | fuel + 1, current =>
      if nextReserved memory current ∨
          (nextSize memory current ≤ u64 (size + tagSize + 1) ∧
            nextSize memory current ≠ size) then
        let current := followingTag memory current
        if nextSize memory current = 0 then
          .error (.panic "Unable to find space for heap alloc" [("ALLOC SIZE", size)])
        else findTag memory size fuel current
      else .ok current

/-- The `else` branch of `heap_alloc`: cut the found block in two. -/
def splitBlock (memory : Memory) (current size : Nat) : Except Fault Memory :=
  let next := followingTag memory current
  let mid := u64 (current + size + tagSize)
  if nextReserved memory current then .error (.entryError current)
  else if nextSize memory current ≠ prevSize memory next then .error (.entryError 9)
  else
    let remaining := u64 (nextSize memory current + 2 ^ 64 - size + 2 ^ 64 - tagSize)
    let memory := setNextSize memory current size
    let memory := setNextReserved memory current true
    let memory := setPrevSize memory mid size
    let memory := setNextSize memory mid remaining
    let memory := setNextReserved memory mid false
    .ok (setPrevSize memory next remaining)

/-- `memset(address, 0, count)`. A range that runs over the top of the address
space holds addresses that no page table can map, so the call never gets to
its end. -/
def memset (memory : Memory) (address count : Nat) : Except Fault Memory :=
  if 2 ^ 64 < address + count then .error .badPointer else .ok (fill memory address count 0)

/-- `heap_alloc`, returning the heap after the call and the block's address. -/
def heapAlloc (heap : Heap) (size : Nat) : Except Fault (Heap × Nat) := do
  if size = 0 then throw (.panic "Zero byte allocation" [])
  let current ← findTag heap.memory size walkBound heap.headTag
  let memory ←
    if nextSize heap.memory current = size then
      pure (setNextReserved heap.memory current true)
    else splitBlock heap.memory current size
  let block := u64 (current + tagSize)
  let memory ← memset memory block size
  return ({ heap with memory, allocSize := u64 (heap.allocSize + size) }, block)

/-- The merge of `heap_free` with the following block. Returns the memory and
the tag after the possibly larger block. -/
def mergeNext (memory : Memory) (tag : Nat) : Memory × Nat :=
  let next := followingTag memory tag
  if !nextReserved memory next ∧ nextSize memory next ≠ 0 then
    let memory := setNextSize memory tag
      (u64 (nextSize memory tag + nextSize memory next + tagSize))
    let nextNext := followingTag memory next
    (setPrevSize memory nextNext (nextSize memory tag), nextNext)
  else (memory, next)

/-- `heap_free`. -/
def heapFree (heap : Heap) (alloc : Nat) : Except Fault Heap :=
  let tag := u64 (alloc + 2 ^ 64 - tagSize)
  let allocSize := u64 (heap.allocSize + 2 ^ 64 - nextSize heap.memory tag)
  if !nextReserved heap.memory tag then
    .error (.panic "Unable to verify reserve in heap_free()" [("alloc", alloc)])
  else if nextSize heap.memory tag ≠ prevSize heap.memory (followingTag heap.memory tag) then
    .error (.entryError 10)
  else
    let merged := mergeNext heap.memory tag
    let next := merged.2
    let memory := setPrevSize merged.1 next (nextSize merged.1 tag)
    let prev := u64 (tag + 2 ^ 64 - prevSize memory tag + 2 ^ 64 - tagSize)
    if prevSize memory tag ≠ 0 ∧ !nextReserved memory prev then
      let memory := setNextSize memory prev
        (u64 (nextSize memory prev + nextSize memory tag + tagSize))
      .ok { heap with memory := setPrevSize memory next (nextSize memory prev), allocSize }
    else .ok { heap with memory := setNextReserved memory tag false, allocSize }

/-- `memcpy` over the first `count` bytes, in the order of its loop. -/
def copyBytes (memory : Memory) (dst src : Nat) : Nat → Memory
  | 0 => memory
  | count + 1 =>
      let memory := copyBytes memory dst src count
      Function.update memory (dst + count) (memory (src + count))

/-- `heap_realloc`. What it copies is the size in the tag of the old block. -/
def heapRealloc (heap : Heap) (alloc size : Nat) : Except Fault (Heap × Nat) := do
  let tag := u64 (alloc + 2 ^ 64 - tagSize)
  let (heap, newBuffer) ← heapAlloc heap size
  let memory := copyBytes heap.memory newBuffer alloc (nextSize heap.memory tag)
  let heap ← heapFree { heap with memory } alloc
  return (heap, newBuffer)

/-- The loop of `heap_usage`. -/
def usageFrom (memory : Memory) (tail : Nat) : Nat → Nat → Nat → Except Fault Nat
  | 0, _, _ => .error .nontermination
  | fuel + 1, current, used =>
      if current = tail then .ok used
      else
        let used := if nextReserved memory current then u64 (used + nextSize memory current)
          else used
        usageFrom memory tail fuel (followingTag memory current) used

/-- `heap_usage`. -/
def heapUsage (heap : Heap) : Except Fault Nat :=
  usageFrom heap.memory heap.tailTag walkBound heap.headTag 0

/-- The loop of `heap_check`, ending at the tag it stops at. -/
def checkFrom (memory : Memory) : Nat → Nat → Except Fault Nat
  | 0, _ => .error .nontermination
  | fuel + 1, current =>
      if nextSize memory current = 0 then .ok current
      else
        let prev := u64 (current + 2 ^ 64 - prevSize memory current + 2 ^ 64 - tagSize)
        let next := followingTag memory current
        if nextSize memory current ≠ prevSize memory next then
          .error (.panic "Heap tag size mismatch"
            [("Prev Alloc", u64 (prev + tagSize)), ("Current Alloc", u64 (current + tagSize)),
              ("Next Alloc", u64 (next + tagSize))])
        else checkFrom memory fuel next

/-- `heap_check`. -/
def heapCheck (heap : Heap) : Except Fault Unit := do
  let last ← checkFrom heap.memory walkBound heap.headTag
  if last ≠ heap.tailTag then throw (.panic "End tag is not the tail tag" [("addr", last)])

/-- The tags met from `current` on, up to and with the one whose `next_size`
is 0: what `heap_check` walks over. -/
def tagsFrom (memory : Memory) : Nat → Nat → List Tag
  | 0, _ => []
  | fuel + 1, current =>
      readTag memory current ::
        if nextSize memory current = 0 then []
        else tagsFrom memory fuel (followingTag memory current)

/-- All tags of the heap, in address order. -/
def tags (heap : Heap) : List Tag := tagsFrom heap.memory walkBound heap.headTag

end Heap

end PKernel
