import PKernel.Heap.Free
import Mathlib.Data.List.Nodup
import PKernel.Library.Tiling
import PKernel.Library.Transition

/-! # Runs of the heap

A run starts from `heap_init` on any memory and allocates, frees and writes
live blocks in any order. The clients' view is the list of live blocks with
the sizes they asked for. In every state of every run the tags describe
exactly these blocks.
-/

namespace PKernel.Heap

open Library.ByteMemory Library.Tiling Library.Transition

variable {heap : Heap} {tags before after : List Tag} {first second : Tag}

/-! ## Walking the tags -/

theorem tagsFrom_eq (hlayout : Layout heap (before ++ first :: after)) {fuel : Nat}
    (hfuel : after.length < fuel) :
    tagsFrom heap.memory fuel first.addr = first :: after := by
  induction after generalizing before first fuel with
  | nil =>
      obtain ⟨fuel, rfl⟩ := Nat.exists_eq_succ_of_ne_zero (Nat.ne_zero_of_lt hfuel)
      have hread := hlayout.read first (by simp)
      simp only [tagsFrom, nextSize_eq, hread, (hlayout.of_last before).1, ↓reduceIte]
  | cons second after ih =>
      obtain ⟨fuel, rfl⟩ := Nat.exists_eq_succ_of_ne_zero (Nat.ne_zero_of_lt hfuel)
      have hread := hlayout.read first (by simp)
      have hnonempty := hlayout.adjacent.nonempty
      have hnext := @ih (before ++ [first]) second (by simpa using hlayout) fuel
        (by simp only [List.length_cons] at hfuel; omega)
      simp only [tagsFrom, nextSize_eq, hread, hlayout.followingTag_eq, hnext,
        if_neg (Nat.pos_iff_ne_zero.mp hnonempty)]

theorem Layout.tags_eq (hlayout : Layout heap tags) : heap.tags = tags := by
  obtain ⟨first, second, after, rfl, hhead⟩ := hlayout.exists_two
  have hlength := hlayout.length_lt_walkBound
  rw [Heap.tags, ← hhead]
  refine @tagsFrom_eq heap [] (second :: after) first hlayout walkBound ?_
  simp only [List.length_cons] at hlength ⊢
  omega

/-- On a layout `heap_check` finds no mismatch and stops at the tail tag. -/
theorem checkFrom_eq (hlayout : Layout heap (before ++ first :: after)) {fuel : Nat}
    (hfuel : after.length < fuel) :
    checkFrom heap.memory fuel first.addr = .ok heap.tailTag := by
  induction after generalizing before first fuel with
  | nil =>
      obtain ⟨fuel, rfl⟩ := Nat.exists_eq_succ_of_ne_zero (Nat.ne_zero_of_lt hfuel)
      have hread := hlayout.read first (by simp)
      obtain ⟨hzero, _, haddr⟩ := hlayout.of_last before
      simp only [checkFrom, nextSize_eq, hread, hzero, ↓reduceIte]
      rw [haddr]
  | cons second after ih =>
      obtain ⟨fuel, rfl⟩ := Nat.exists_eq_succ_of_ne_zero (Nat.ne_zero_of_lt hfuel)
      have hread := hlayout.read first (by simp)
      have hreadSecond := hlayout.read second (by simp)
      have hadjacent := hlayout.adjacent
      have hnext := @ih (before ++ [first]) second (by simpa using hlayout) fuel
        (by simp only [List.length_cons] at hfuel; omega)
      simp only [checkFrom, nextSize_eq, prevSize_eq, hread, hlayout.followingTag_eq, hreadSecond,
        hadjacent.sizes, hnext, if_neg (Nat.pos_iff_ne_zero.mp hadjacent.nonempty)]
      exact if_neg (not_not_intro rfl)

theorem Layout.heapCheck_eq (hlayout : Layout heap tags) : heapCheck heap = .ok () := by
  obtain ⟨first, second, after, rfl, hhead⟩ := hlayout.exists_two
  have hlength := hlayout.length_lt_walkBound
  have hcheck := @checkFrom_eq heap [] (second :: after) first hlayout walkBound (by
    simp only [List.length_cons] at hlength ⊢
    omega)
  simp only [heapCheck, ← hhead, hcheck, bind, Except.bind]
  exact if_neg (not_not_intro rfl)

/-- The tags of a layout, each with the block behind it, tile the heap. -/
theorem Layout.tiles_from (hlayout : Layout heap (before ++ first :: after)) :
    Tiles Tag.addr (fun tag => tag.nextSize + tagSize) first.addr (first :: after)
      (heap.tailTag + tagSize) := by
  induction after generalizing before first with
  | nil =>
      obtain ⟨hzero, _, haddr⟩ := hlayout.of_last before
      simp only [tiles_cons, tiles_nil, true_and]
      omega
  | cons second after ih =>
      have htail := @ih (before ++ [first]) second (by simpa using hlayout)
      rw [hlayout.adjacent.addr, Nat.add_assoc] at htail
      exact ⟨rfl, htail⟩

theorem Layout.tiles (hlayout : Layout heap tags) :
    Tiles Tag.addr (fun tag => tag.nextSize + tagSize) heap.headTag tags
      (heap.tailTag + tagSize) := by
  obtain ⟨first, second, after, rfl, hhead⟩ := hlayout.exists_two
  rw [← hhead]
  exact @Layout.tiles_from heap [] (second :: after) first hlayout

/-! ## The initial heap -/

/-- The two tags that `heap_init` writes. -/
def initTags : List Tag :=
  [{ addr := pagingHeapVaddr, nextReserved := false, prevSize := 0,
      nextSize := heapInitialSize - 2 * tagSize },
    { addr := pagingHeapVaddr + heapInitialSize - tagSize, nextReserved := false,
      prevSize := heapInitialSize - 2 * tagSize, nextSize := 0 }]

theorem heapInit_headTag (memory : Memory) : (heapInit memory).headTag = pagingHeapVaddr := rfl

theorem heapInit_tailTag (memory : Memory) :
    (heapInit memory).tailTag = pagingHeapVaddr + heapInitialSize - tagSize := by
  change u64 (pagingHeapVaddr + (heapInitialSize - 2 * tagSize) + tagSize) = _
  decide

theorem heapInit_layout (memory : Memory) : Layout (heapInit memory) initTags where
  read := by
    simp only [initTags, List.mem_cons, List.not_mem_nil, or_false, forall_eq_or_imp, forall_eq]
    constructor
    · simp (disch := decide) only [heapInit, readTag_setNextReserved_of_disjoint,
        readTag_setNextSize_of_disjoint, readTag_setPrevSize_of_disjoint,
        readTag_setNextReserved_self, readTag_setPrevSize_self, readTag_setNextSize_self]
      rfl
    · have htail : u64 (pagingHeapVaddr + (heapInitialSize - 2 * tagSize) + tagSize) =
          pagingHeapVaddr + heapInitialSize - tagSize := heapInit_tailTag memory
      simp (disch := decide) only [heapInit, htail, readTag_setNextReserved_self,
        readTag_setNextSize_self, readTag_setPrevSize_self]
      rfl
  chain := by
    simp only [initTags, List.isChain_cons_cons, List.isChain_singleton, and_true]
    exact ⟨by decide, rfl, by decide, .inr (.inr rfl)⟩
  first := ⟨_, rfl, rfl, rfl⟩
  last := ⟨_, rfl, (heapInit_tailTag memory).symm, rfl, rfl⟩
  nonempty := by
    rw [heapInit_headTag, heapInit_tailTag]
    decide
  small := by
    rw [heapInit_headTag, heapInit_tailTag]
    decide
  bound := by
    rw [heapInit_tailTag]
    decide

/-! ## Runs -/

/-- The heap together with the blocks its clients hold, newest first. -/
structure World where
  heap : Heap
  live : List (Nat × Nat)

inductive Op where
  | alloc (size : Nat)
  | free (block : Nat)
  /-- A client writes one byte of a block it holds. -/
  | write (block offset : Nat) (byte : UInt8)

/-- The block an operation is about, if it is about an existing one. -/
def Op.target : Op → Option Nat
  | .alloc _ => none
  | .free block => some block
  | .write block _ _ => some block

inductive Step (world : World) : Op → World → Prop
  | alloc {size block : Nat} {heap : Heap} (hpos : 0 < size)
      (hsize : size + tagSize + 1 < 2 ^ 64)
      (hreturn : heapAlloc world.heap size = .ok (heap, block)) :
      Step world (.alloc size) ⟨heap, (block, size) :: world.live⟩
  | free {block size : Nat} {heap : Heap} (hlive : (block, size) ∈ world.live)
      (hreturn : heapFree world.heap block = .ok heap) :
      Step world (.free block) ⟨heap, world.live.erase (block, size)⟩
  | write {block size offset : Nat} {byte : UInt8} (hlive : (block, size) ∈ world.live)
      (hoffset : offset < size) :
      Step world (.write block offset byte)
        ⟨{ world.heap with memory := Function.update world.heap.memory (block + offset) byte },
          world.live⟩

/-- All runs from `heap_init`, on any memory. -/
def system : System World Op where
  init world := ∃ memory, world = ⟨heapInit memory, []⟩
  step := Step

/-- The tags describe exactly the live blocks. -/
structure Invariant (world : World) (tags : List Tag) : Prop where
  layout : Layout world.heap tags
  headTag : world.heap.headTag = pagingHeapVaddr
  tailTag : world.heap.tailTag + tagSize = pagingHeapVaddr + heapInitialSize
  live : ∀ block size, (block, size) ∈ world.live ↔ Reserved tags block size
  nodup : world.live.Nodup

/-- A live block ends below the end of the lower half of memory. -/
theorem Invariant.block_lt {world : World} {tags : List Tag} (hworld : Invariant world tags)
    {block size : Nat} (hlive : (block, size) ∈ world.live) : block + size < 2 ^ 63 := by
  obtain ⟨tag, htag, _, rfl, rfl⟩ := (hworld.live block size).mp hlive
  have htail := hworld.layout.mem_le_tail htag
  have hbound := hworld.layout.bound
  omega

theorem Layout.reserved_unique (hlayout : Layout heap tags) {block size other : Nat}
    (hsize : Reserved tags block size) (hother : Reserved tags block other) : size = other := by
  obtain ⟨tag, htag, _, haddr, rfl⟩ := hsize
  obtain ⟨twin, htwin, _, htwinAddr, rfl⟩ := hother
  rcases hlayout.eq_or_before htag htwin with rfl | hbefore | hafter
  · rfl
  · simp only [Before, tagSize] at *
    omega
  · simp only [Before, tagSize] at *
    omega

/-- Writing outside every tag keeps the layout. -/
theorem Layout.of_frame (hlayout : Layout heap tags) {memory : Memory}
    (hframe : ∀ place, ¬ OutsideTags tags place → memory place = heap.memory place) :
    Layout { heap with memory } tags := by
  refine ⟨?_, hlayout.chain, hlayout.first, hlayout.last, hlayout.nonempty, hlayout.small,
    hlayout.bound⟩
  intro tag htag
  have hagree : Set.EqOn memory heap.memory (Set.Ico tag.addr (tag.addr + tagSize)) := by
    intro place hplace
    have hlower := hplace.1
    have hupper := hplace.2
    refine hframe place fun houtside => ?_
    have := houtside tag htag
    omega
  exact (readTag_congr hagree).trans (hlayout.read tag htag)

namespace Invariant

variable {world next : World}

theorem init (memory : Memory) : Invariant ⟨heapInit memory, []⟩ initTags where
  layout := heapInit_layout memory
  headTag := heapInit_headTag memory
  tailTag := by
    rw [heapInit_tailTag]
    decide
  live block size := by simp [Reserved, initTags]
  nodup := List.nodup_nil

theorem alloc (hworld : Invariant world tags) {size block : Nat} {heap : Heap} (hpos : 0 < size)
    (hsize : size + tagSize + 1 < 2 ^ 64)
    (hreturn : heapAlloc world.heap size = .ok (heap, block)) :
    Allocated world.heap heap tags block size ∧
      ∃ tags', Invariant ⟨heap, (block, size) :: world.live⟩ tags' := by
  rcases heapAlloc_spec hworld.layout hpos hsize with hpanic | ⟨result, start, hok, hallocated⟩
  · rw [hpanic] at hreturn
    contradiction
  · rw [hok] at hreturn
    cases hreturn
    obtain ⟨tags', hlayout, hreserved⟩ := hallocated.layout
    refine ⟨hallocated, tags', hlayout, hallocated.headTag.trans hworld.headTag, ?_, ?_, ?_⟩
    · rw [hallocated.tailTag]
      exact hworld.tailTag
    · intro start count
      rw [hreserved, ← hworld.live, List.mem_cons, Prod.mk.injEq]
    · refine List.nodup_cons.mpr ⟨fun hmem => ?_, hworld.nodup⟩
      exact hallocated.fresh size ((hworld.live block size).mp hmem)

theorem free (hworld : Invariant world tags) {block size : Nat} {heap : Heap}
    (hlive : (block, size) ∈ world.live) (hreturn : heapFree world.heap block = .ok heap) :
    Freed world.heap heap tags block ∧
      ∃ tags', Invariant ⟨heap, world.live.erase (block, size)⟩ tags' := by
  have hblock := (hworld.live block size).mp hlive
  obtain ⟨result, hok, hfreed⟩ := heapFree_spec hworld.layout hblock
  rw [hok] at hreturn
  cases hreturn
  obtain ⟨tags', hlayout, hreserved⟩ := hfreed.layout
  refine ⟨hfreed, tags', hlayout, hfreed.headTag.trans hworld.headTag, ?_, ?_,
    hworld.nodup.erase _⟩
  · rw [hfreed.tailTag]
    exact hworld.tailTag
  · intro start count
    rw [hreserved, hworld.nodup.mem_erase_iff, ← hworld.live]
    refine and_congr_left fun hmem => ?_
    constructor
    · rintro hne rfl
      have := (hworld.live start count).mp hmem
      exact hne (by rw [hworld.layout.reserved_unique this hblock])
    · rintro hne hpair
      exact hne (congrArg Prod.fst hpair)

theorem write (hworld : Invariant world tags) {block size offset : Nat} {byte : UInt8}
    (hlive : (block, size) ∈ world.live) (hoffset : offset < size) :
    Invariant ⟨{ world.heap with
      memory := Function.update world.heap.memory (block + offset) byte }, world.live⟩ tags where
  layout := by
    refine hworld.layout.of_frame fun place hplace => Function.update_of_ne ?_ _ _
    rintro rfl
    exact hplace (hworld.layout.reserved_outsideTags ((hworld.live block size).mp hlive)
      ⟨by omega, by omega⟩)
  headTag := hworld.headTag
  tailTag := hworld.tailTag
  live := hworld.live
  nodup := hworld.nodup

theorem step (hworld : Invariant world tags) {op : Op} (hstep : Step world op next) :
    ∃ tags', Invariant next tags' := by
  cases hstep with
  | alloc hpos hsize hreturn => exact (hworld.alloc hpos hsize hreturn).2
  | free hlive hreturn => exact (hworld.free hlive hreturn).2
  | write hlive hoffset => exact ⟨tags, hworld.write hlive hoffset⟩

end Invariant

theorem invariant_inductive : system.Inductive fun world => ∃ tags, Invariant world tags where
  init := by
    rintro world ⟨memory, rfl⟩
    exact ⟨initTags, Invariant.init memory⟩
  step := by
    rintro world op next ⟨tags, hworld⟩ hstep
    exact hworld.step hstep

/-! ## What every run guarantees -/

/-- The blocks of two pairs of address and size do not share a byte. -/
def Apart (left right : Nat × Nat) : Prop :=
  left.1 + left.2 ≤ right.1 ∨ right.1 + right.2 ≤ left.1

/-- The heap as its clients may rely on it. -/
structure Consistent (world : World) : Prop where
  /-- The tags with their blocks tile the heap region and end at the tail tag. -/
  tiles : Tiles Tag.addr (fun tag => tag.nextSize + tagSize) pagingHeapVaddr world.heap.tags
    (pagingHeapVaddr + heapInitialSize)
  tail : ∃ front last, world.heap.tags = front ++ [last] ∧ last.addr = world.heap.tailTag ∧
    last.nextSize = 0 ∧ ∀ tag ∈ front, 0 < tag.nextSize
  sizes : world.heap.tags.IsChain fun earlier later => later.prevSize = earlier.nextSize
  coalesced : world.heap.tags.IsChain fun earlier later =>
    earlier.nextReserved = true ∨ later.nextReserved = true ∨ later.nextSize = 0
  /-- The live blocks are the reserved blocks, at the sizes asked for. -/
  live : ∀ block size, (block, size) ∈ world.live ↔ Reserved world.heap.tags block size
  disjoint : world.live.Pairwise Apart
  frame : ∀ op next, Step world op next → ∀ block size, (block, size) ∈ world.live →
    op.target ≠ some block →
    Set.EqOn next.heap.memory world.heap.memory (Set.Ico block (block + size))
  check : heapCheck world.heap = .ok ()
  /-- `heap_free` of a live block returns. -/
  free : ∀ block size, (block, size) ∈ world.live → ∃ heap, heapFree world.heap block = .ok heap
  /-- `heap_alloc` returns a block or panics for want of space. -/
  alloc : ∀ size, 0 < size → size + tagSize + 1 < 2 ^ 64 →
    (∃ heap block, heapAlloc world.heap size = .ok (heap, block)) ∨
      heapAlloc world.heap size = .error (noSpace size)

namespace Invariant

variable {world next : World}

theorem apart (hworld : Invariant world tags) {left right : Nat × Nat}
    (hleft : left ∈ world.live) (hright : right ∈ world.live) (hne : left ≠ right) :
    Apart left right := by
  obtain ⟨tag, htag, _, haddr, hsize⟩ := (hworld.live left.1 left.2).mp hleft
  obtain ⟨twin, htwin, _, htwinAddr, htwinSize⟩ := (hworld.live right.1 right.2).mp hright
  rcases hworld.layout.eq_or_before htag htwin with rfl | hbefore | hafter
  · exact absurd (Prod.ext (haddr.symm.trans htwinAddr) (hsize.symm.trans htwinSize)) hne
  · simp only [Before, Apart] at *
    omega
  · simp only [Before, Apart] at *
    omega

/-- An operation changes no byte of a live block it is not about. -/
theorem frame (hworld : Invariant world tags) {op : Op} (hstep : Step world op next)
    {block size : Nat} (hlive : (block, size) ∈ world.live) (htarget : op.target ≠ some block) :
    Set.EqOn next.heap.memory world.heap.memory (Set.Ico block (block + size)) := by
  have hreserved := (hworld.live block size).mp hlive
  cases hstep with
  | alloc hpos hsize hreturn =>
      exact (hworld.alloc hpos hsize hreturn).1.frame block size hreserved
  | free hfreed hreturn =>
      intro place hplace
      exact (hworld.free hfreed hreturn).1.frame place
        (hworld.layout.reserved_outsideTags hreserved hplace)
  | @write other count offset byte hother hoffset =>
      intro place hplace
      refine Function.update_of_ne ?_ _ _
      rintro rfl
      have hne : (other, count) ≠ (block, size) := by
        rintro hpair
        exact htarget (congrArg some (Prod.mk.inj hpair).1)
      have hapart := hworld.apart hother hlive hne
      have hlower := hplace.1
      have hupper := hplace.2
      simp only [Apart] at hapart
      omega

theorem consistent (hworld : Invariant world tags) : Consistent world := by
  have htags := hworld.layout.tags_eq
  refine ⟨?_, ?_, ?_, ?_, ?_, ?_, ?_, hworld.layout.heapCheck_eq, ?_, ?_⟩
  · have htiles := hworld.layout.tiles
    rw [hworld.headTag, hworld.tailTag] at htiles
    rw [htags]
    exact htiles
  · obtain ⟨last, hlast, haddr, hzero, _⟩ := hworld.layout.last
    obtain ⟨front, rfl⟩ := List.getLast?_eq_some_iff.mp hlast
    exact ⟨front, last, htags, haddr, hzero, fun tag htag => hworld.layout.nonempty_of_mem htag⟩
  · rw [htags]
    exact hworld.layout.chain.imp fun _ _ hadjacent => hadjacent.sizes
  · rw [htags]
    exact hworld.layout.chain.imp fun _ _ hadjacent => hadjacent.coalesced
  · rw [htags]
    exact hworld.live
  · exact hworld.nodup.pairwise_of_forall_ne fun left hleft right hright hne =>
      hworld.apart hleft hright hne
  · intro op next hstep block size hlive htarget
    exact hworld.frame hstep hlive htarget
  · intro block size hlive
    obtain ⟨heap, hok, _⟩ := heapFree_spec hworld.layout ((hworld.live block size).mp hlive)
    exact ⟨heap, hok⟩
  · intro size hpos hsize
    rcases heapAlloc_spec hworld.layout hpos hsize with hpanic | ⟨heap, block, hok, _⟩
    · exact .inr hpanic
    · exact .inl ⟨heap, block, hok⟩

end Invariant

theorem heap_consistent {world : World} (hreach : system.Reachable world) : Consistent world := by
  obtain ⟨tags, hworld⟩ := hreach.invariant invariant_inductive
  exact hworld.consistent

/-- An allocation from a heap whose memory was all zero. -/
theorem heapAlloc_fresh :
    ∃ heap, heapAlloc (heapInit fun _ => 0) 100 = .ok (heap, pagingHeapVaddr + 24) := by
  have hreturn : (heapAlloc (heapInit fun _ => 0) 100).toOption.map Prod.snd =
      some (pagingHeapVaddr + 24) := by decide +kernel
  obtain ⟨⟨heap, block⟩, halloc, rfl⟩ := Option.map_eq_some_iff.mp hreturn
  exact ⟨heap, toOption_eq_some.mp halloc⟩

/-- A block of 100 bytes taken from a fresh heap. -/
theorem heap_consistent_after_alloc : ∃ world : World, world.live = [(pagingHeapVaddr + 24, 100)] ∧
    system.Reachable world ∧ Consistent world := by
  have hinit : system.Reachable ⟨heapInit fun _ => 0, []⟩ := .init ⟨_, rfl⟩
  obtain ⟨heap, halloc⟩ := heapAlloc_fresh
  have hreach : system.Reachable ⟨heap, [(pagingHeapVaddr + 24, 100)]⟩ :=
    .step hinit (Step.alloc (by decide) (by decide) halloc)
  exact ⟨_, rfl, hreach, heap_consistent hreach⟩

end PKernel.Heap
