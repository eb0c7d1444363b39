import PKernel.Heap.Realloc

/-! # The layout depends only on the live blocks

Free neighbours are always merged, so a free block is a maximal gap between
live ones and the live blocks alone determine every tag. Which calls led to a
heap, and in which order, leaves no trace in its layout.
-/

namespace PKernel.Heap

open Library.ByteMemory Library.Tiling Library.Transition

/-- The block sizes and the reserved flags, from the first tag to the last. -/
def blocks (heap : Heap) : List (Nat × Bool) :=
  heap.tags.map fun tag => (tag.nextSize, tag.nextReserved)

/-- `heap_free` of one block after the other. -/
def freeAll : Heap → List Nat → Except Fault Heap
  | heap, [] => .ok heap
  | heap, block :: rest => do
      let heap ← heapFree heap block
      freeAll heap rest

variable {heap : Heap} {tags leftTags rightTags : List Tag} {world left right : World}

/-! ## Tags are determined by the reserved blocks -/

/-- The tags before the last one with their blocks tile the region up to the
tail tag, none is empty, and no two neighbours are free. -/
theorem Layout.front (hlayout : Layout heap tags) : ∃ front last, tags = front ++ [last] ∧
    last.nextSize = 0 ∧ last.nextReserved = false ∧
    Tiles Tag.addr (fun tag => tag.nextSize + tagSize) heap.headTag front heap.tailTag ∧
    Coalesced Tag.nextReserved front := by
  obtain ⟨last, hlast, haddr, hzero, hflag⟩ := hlayout.last
  obtain ⟨front, rfl⟩ := List.getLast?_eq_some_iff.mp hlast
  refine ⟨front, last, rfl, hzero, hflag, ?_, ?_⟩
  · obtain ⟨middle, hfront, hend⟩ := tiles_append.mp hlayout.tiles
    have hmiddle : last.addr = middle := hend.1
    rwa [← hmiddle, haddr] at hfront
  · have hchain := (List.isChain_append.mp hlayout.chain).1
    refine List.IsChain.imp_of_mem_imp ?_ hchain
    intro earlier later _ hlater hadjacent
    have hnonempty := hlayout.nonempty_of_mem hlater
    rcases hadjacent.coalesced with h | h | h
    · exact .inl h
    · exact .inr h
    · omega

/-- Reserved blocks of one layout that are reserved in another one have twins
there. -/
theorem markedIn_of_reserved {front other : List Tag} {last : Tag}
    (hlast : last.nextReserved = false)
    (hreserved : ∀ block size, Reserved front block size → Reserved (other ++ [last]) block size) :
    MarkedIn Tag.addr (fun tag => tag.nextSize + tagSize) Tag.nextReserved front other := by
  intro tag htag hflag
  obtain ⟨twin, htwin, htwinFlag, haddr, hsize⟩ :=
    hreserved (tag.addr + tagSize) tag.nextSize ⟨tag, htag, hflag, rfl, rfl⟩
  rcases List.mem_append.mp htwin with hmem | hmem
  · exact ⟨twin, hmem, htwinFlag, by omega, congrArg (· + tagSize) hsize⟩
  · obtain rfl := List.mem_singleton.mp hmem
    simp [hlast] at htwinFlag

theorem reserved_of_front {front : List Tag} {last : Tag} {block size : Nat}
    (hreserved : Reserved front block size) : Reserved (front ++ [last]) block size := by
  obtain ⟨tag, htag, hrest⟩ := hreserved
  exact ⟨tag, List.mem_append_left _ htag, hrest⟩

theorem Invariant.map_eq (hleft : Invariant left leftTags) (hright : Invariant right rightTags)
    (hlive : ∀ block, block ∈ left.live ↔ block ∈ right.live) :
    leftTags.map (fun tag => (tag.nextSize, tag.nextReserved)) =
      rightTags.map fun tag => (tag.nextSize, tag.nextReserved) := by
  have hreserved : ∀ block size, Reserved leftTags block size ↔ Reserved rightTags block size := by
    intro block size
    rw [← hleft.live, ← hright.live, hlive]
  have htail : left.heap.tailTag = right.heap.tailTag := by
    have := hleft.tailTag
    have := hright.tailTag
    omega
  obtain ⟨leftFront, leftLast, rfl, hleftZero, hleftFlag, hleftTiles, hleftCoalesced⟩ :=
    hleft.layout.front
  obtain ⟨rightFront, rightLast, rfl, hrightZero, hrightFlag, hrightTiles, hrightCoalesced⟩ :=
    hright.layout.front
  rw [hleft.headTag, htail] at hleftTiles
  rw [hright.headTag] at hrightTiles
  have hfront := hleftTiles.map_eq_of_marked hrightTiles (fun _ _ => by simp [tagSize])
    (fun _ _ => by simp [tagSize]) hleftCoalesced hrightCoalesced
    (markedIn_of_reserved hrightFlag fun block size h =>
      (hreserved block size).mp (reserved_of_front h))
    (markedIn_of_reserved hleftFlag fun block size h =>
      (hreserved block size).mpr (reserved_of_front h))
  have hproject := congrArg (List.map fun piece => (piece.2.1 - tagSize, piece.2.2)) hfront
  simp only [List.map_map, Function.comp_def, Nat.add_sub_cancel] at hproject
  rw [List.map_append, List.map_append, hproject]
  simp only [List.map_cons, List.map_nil, hleftZero, hleftFlag, hrightZero, hrightFlag]

/-- Equal live blocks, equal layouts. -/
theorem Invariant.blocks_eq (hleft : Invariant left leftTags) (hright : Invariant right rightTags)
    (hlive : ∀ block, block ∈ left.live ↔ block ∈ right.live) :
    blocks left.heap = blocks right.heap := by
  rw [blocks, blocks, hleft.layout.tags_eq, hright.layout.tags_eq]
  exact hleft.map_eq hright hlive

/-! ## Freeing several blocks -/

theorem Invariant.freeAll (hworld : Invariant world tags) {order : List Nat}
    (hnodup : order.Nodup) (horder : ∀ block ∈ order, ∃ size, (block, size) ∈ world.live) :
    ∃ heap live tags', freeAll world.heap order = .ok heap ∧ Invariant ⟨heap, live⟩ tags' ∧
      ∀ block size, (block, size) ∈ live ↔ (block, size) ∈ world.live ∧ block ∉ order := by
  induction order generalizing world tags with
  | nil => exact ⟨world.heap, world.live, tags, rfl, hworld, by simp⟩
  | cons first rest ih =>
      obtain ⟨size, hlive⟩ := horder first List.mem_cons_self
      obtain ⟨heap, hfree, _⟩ := heapFree_spec hworld.layout ((hworld.live first size).mp hlive)
      obtain ⟨_, tags', hfreed⟩ := hworld.free hlive hfree
      have hkept : ∀ block count, (block, count) ∈ world.live.erase (first, size) ↔
          (block, count) ∈ world.live ∧ block ≠ first := by
        intro block count
        rw [hworld.nodup.mem_erase_iff, and_comm]
        refine and_congr_right fun hmem => ?_
        constructor
        · rintro hne rfl
          exact hne (by rw [hworld.live_unique hlive hmem])
        · rintro hne hpair
          exact hne (Prod.mk.inj hpair).1
      obtain ⟨hfirst, hrest⟩ := List.nodup_cons.mp hnodup
      obtain ⟨last, live, tagsLast, hall, hlast, hmem⟩ := ih hfreed hrest (by
        intro block hblock
        obtain ⟨count, hcount⟩ := horder block (List.mem_cons_of_mem _ hblock)
        refine ⟨count, (hkept block count).mpr ⟨hcount, ?_⟩⟩
        rintro rfl
        exact hfirst hblock)
      refine ⟨last, live, tagsLast, by simp [Heap.freeAll, hfree, hall], hlast, ?_⟩
      intro block count
      rw [hmem, hkept, List.mem_cons, not_or, and_assoc]

/-! ## What every run guarantees -/

structure Canonical (world : World) : Prop where
  /-- Another run with the same live blocks has the same layout. -/
  unique : ∀ other, runs.Reachable other → (∀ block, block ∈ other.live ↔ block ∈ world.live) →
    blocks other.heap = blocks world.heap
  /-- Live blocks can be freed in any order, with the same layout at the end. -/
  order : ∀ first second : List Nat, first.Perm second → first.Nodup →
    (∀ block ∈ first, ∃ size, (block, size) ∈ world.live) →
    ∃ heap other, freeAll world.heap first = .ok heap ∧ freeAll world.heap second = .ok other ∧
      blocks heap = blocks other
  /-- A free right after an allocation restores the layout. -/
  undo : ∀ size heap block, heapAlloc world.heap size = .ok (heap, block) →
    ∃ freed, heapFree heap block = .ok freed ∧ blocks freed = blocks world.heap
  /-- Freeing everything leaves the one free block of `heap_init`. -/
  empty : ∀ order : List Nat, order.Perm (world.live.map Prod.fst) →
    ∃ heap, freeAll world.heap order = .ok heap ∧
      blocks heap = [(heapInitialSize - 2 * tagSize, false), (0, false)]

theorem blocks_heapInit (memory : Memory) :
    blocks (heapInit memory) = [(heapInitialSize - 2 * tagSize, false), (0, false)] := by
  rw [blocks, (heapInit_layout memory).tags_eq]
  rfl

/-- The addresses of the live blocks are all different. -/
theorem Invariant.nodup_blocks (hworld : Invariant world tags) :
    (world.live.map Prod.fst).Nodup := by
  refine List.Nodup.map_on ?_ hworld.nodup
  rintro ⟨block, size⟩ hlive ⟨_, other⟩ hother rfl
  rw [hworld.live_unique hlive hother]

theorem Invariant.canonical (hworld : Invariant world tags) : Canonical world where
  unique other hreach hlive := by
    obtain ⟨_, hother⟩ := hreach.invariant runs_inductive
    exact hother.blocks_eq hworld hlive
  order first second hperm hnodup hfirst := by
    obtain ⟨heap, live, _, hfree, hheap, hlive⟩ := hworld.freeAll hnodup hfirst
    obtain ⟨other, live', _, hfree', hother, hlive'⟩ := hworld.freeAll (hperm.nodup_iff.mp hnodup)
      fun block hblock => hfirst block (hperm.mem_iff.mpr hblock)
    have hsame : ∀ pair, pair ∈ live ↔ pair ∈ live' := by
      rintro ⟨block, size⟩
      simp only [hlive, hlive', hperm.mem_iff]
    have hblocks := hheap.blocks_eq hother hsame
    exact ⟨heap, other, hfree, hfree', hblocks⟩
  undo size heap block hcall := by
    obtain ⟨hpos, hsize⟩ := hworld.heapAlloc_ok hcall
    obtain ⟨_, tagsAlloc, hheap⟩ := hworld.alloc hpos hsize hcall
    have hlive : (block, size) ∈ (block, size) :: world.live := List.mem_cons_self
    obtain ⟨freed, hfree, _⟩ := heapFree_spec hheap.layout ((hheap.live block size).mp hlive)
    obtain ⟨_, _, hfreed⟩ := hheap.free hlive hfree
    have hblocks := hfreed.blocks_eq hworld fun pair => by rw [List.erase_cons_head]
    exact ⟨freed, hfree, hblocks⟩
  empty order hperm := by
    have hnodup := hperm.nodup_iff.mpr hworld.nodup_blocks
    obtain ⟨heap, live, _, hfree, hheap, hlive⟩ := hworld.freeAll hnodup (by
      intro block hblock
      obtain ⟨pair, hpair, rfl⟩ := List.mem_map.mp (hperm.mem_iff.mp hblock)
      exact ⟨pair.2, hpair⟩)
    have hnone : ∀ pair, pair ∈ live ↔ pair ∈ ([] : List (Nat × Nat)) := by
      rintro ⟨block, size⟩
      rw [hlive, hperm.mem_iff]
      constructor
      · rintro ⟨hmem, hnot⟩
        exact absurd (List.mem_map.mpr ⟨_, hmem, rfl⟩) hnot
      · intro hmem
        simp at hmem
    have hsame := hheap.blocks_eq (Invariant.init heap.memory) hnone
    exact ⟨heap, hfree, hsame.trans (blocks_heapInit heap.memory)⟩

theorem heap_layout_canonical {world : World} (hreach : runs.Reachable world) :
    Canonical world := by
  obtain ⟨_, hworld⟩ := hreach.invariant runs_inductive
  exact hworld.canonical

/-- One block was taken and given back. -/
theorem heap_layout_canonical_after_free : ∃ world : World, world.live = [] ∧
    runs.Reachable world ∧ Canonical world := by
  have hinit : runs.Reachable ⟨heapInit fun _ => 0, []⟩ := .init ⟨_, rfl⟩
  obtain ⟨heap, halloc⟩ := heapAlloc_fresh
  have htaken : runs.Reachable ⟨heap, [(pagingHeapVaddr + 24, 100)]⟩ :=
    runs_step hinit (CallStep.alloc halloc) trivial
  obtain ⟨freed, hfree, _⟩ := (heap_layout_canonical hinit).undo 100 _ _ halloc
  have hgiven : runs.Reachable ⟨freed, []⟩ := by
    have hstep : CallStep ⟨heap, [(pagingHeapVaddr + 24, 100)]⟩ (.free (pagingHeapVaddr + 24))
        ⟨freed, _⟩ := CallStep.free List.mem_cons_self hfree
    rw [List.erase_cons_head] at hstep
    exact runs_step htaken hstep trivial
  exact ⟨_, rfl, hgiven, heap_layout_canonical hgiven⟩

end PKernel.Heap
