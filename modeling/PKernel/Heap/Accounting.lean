import PKernel.Heap.Realloc

/-! # The heap's accounts

`alloc_size` is kept up to date by `heap_alloc` and `heap_free`; `heap_usage`
adds up the reserved blocks on a walk over the tags. Both are the total size
of the live blocks, and with the free blocks and the tags they make up the
whole region.
-/

namespace PKernel.Heap

open Library.ByteMemory Library.Tiling Library.Transition

variable {heap next : Heap} {tags before after : List Tag} {first : Tag} {size block : Nat}

/-- The total size of the reserved blocks. -/
def reservedSize (tags : List Tag) : Nat :=
  (tags.map fun tag => if tag.nextReserved then tag.nextSize else 0).sum

/-- The total size of the free blocks. -/
def freeSize (tags : List Tag) : Nat :=
  (tags.map fun tag => if tag.nextReserved then 0 else tag.nextSize).sum

@[simp]
theorem reservedSize_cons (tag : Tag) (tags : List Tag) : reservedSize (tag :: tags) =
    (if tag.nextReserved then tag.nextSize else 0) + reservedSize tags := rfl

@[simp]
theorem freeSize_cons (tag : Tag) (tags : List Tag) : freeSize (tag :: tags) =
    (if tag.nextReserved then 0 else tag.nextSize) + freeSize tags := rfl

/-! ## The walk -/

theorem usageFrom_eq (hlayout : Layout heap (before ++ first :: after)) {fuel used : Nat}
    (hfuel : after.length < fuel) (hroom : used + reservedSize (first :: after) < 2 ^ 64) :
    usageFrom heap.memory heap.tailTag fuel first.addr used =
      .ok (used + reservedSize (first :: after)) := by
  induction after generalizing before first fuel used with
  | nil =>
      obtain ⟨fuel, rfl⟩ := Nat.exists_eq_succ_of_ne_zero (Nat.ne_zero_of_lt hfuel)
      obtain ⟨_, hflag, haddr⟩ := hlayout.of_last before
      simp [usageFrom, haddr, hflag, reservedSize]
  | cons second after ih =>
      obtain ⟨fuel, rfl⟩ := Nat.exists_eq_succ_of_ne_zero (Nat.ne_zero_of_lt hfuel)
      have hread := hlayout.read first (by simp)
      have hadjacent := hlayout.adjacent
      have haddr := hadjacent.addr
      have htail := hlayout.mem_le_tail (show second ∈ _ by simp)
      have hne : first.addr ≠ heap.tailTag := by
        simp only [tagSize] at haddr
        omega
      rw [reservedSize_cons] at hroom ⊢
      simp only [usageFrom, if_neg hne, nextReserved_eq, nextSize_eq, hread,
        hlayout.followingTag_eq]
      have hused : (if first.nextReserved = true then u64 (used + first.nextSize) else used) =
          used + if first.nextReserved = true then first.nextSize else 0 := by
        split
        next hflag =>
          rw [if_pos hflag] at hroom
          exact u64_eq_self (by omega)
        · rfl
      have hrest := @ih (before ++ [first]) second (by simpa using hlayout) fuel
        (used + if first.nextReserved = true then first.nextSize else 0)
        (by simp only [List.length_cons] at hfuel; omega) (by omega)
      rw [hused, hrest, Nat.add_assoc]

theorem Layout.heapUsage_eq (hlayout : Layout heap tags) (hroom : reservedSize tags < 2 ^ 64) :
    heapUsage heap = .ok (reservedSize tags) := by
  obtain ⟨first, second, after, rfl, hhead⟩ := hlayout.exists_two
  have hlength := hlayout.length_lt_walkBound
  have husage := @usageFrom_eq heap [] (second :: after) first hlayout walkBound 0
    (by simp only [List.length_cons] at hlength ⊢; omega) (by omega)
  rw [Nat.zero_add] at husage
  rw [heapUsage, ← hhead, husage]

/-- Reserved blocks, free blocks and tags fill the region. -/
theorem Layout.sizes_eq (hlayout : Layout heap tags) :
    heap.headTag + (reservedSize tags + freeSize tags + tagSize * tags.length) =
      heap.tailTag + tagSize := by
  rw [← hlayout.tiles.sum_eq]
  congr 1
  clear hlayout
  induction tags with
  | nil => simp [reservedSize, freeSize]
  | cons tag tags ih =>
      simp only [reservedSize_cons, freeSize_cons, List.map_cons, List.sum_cons, List.length_cons,
        ← ih, Nat.mul_add]
      split <;> omega

/-! ## The counter -/

theorem heapAlloc_allocSize (hcall : heapAlloc heap size = .ok (next, block)) :
    next.allocSize = u64 (heap.allocSize + size) := by
  obtain ⟨_, _, _, _, _, _, _, _, rfl⟩ := heapAlloc_eq_ok hcall
  rfl

theorem heapFree_allocSize (hcall : heapFree heap block = .ok next) :
    next.allocSize =
      u64 (heap.allocSize + 2 ^ 64 - nextSize heap.memory (u64 (block + 2 ^ 64 - tagSize))) := by
  simp only [heapFree] at hcall
  split at hcall
  · exact absurd hcall (by simp)
  · split at hcall
    · exact absurd hcall (by simp)
    · split at hcall
      · rw [← Except.ok.inj hcall]
      · rw [← Except.ok.inj hcall]

/-- `alloc_size` is the total size of the live blocks. -/
def Accounted (world : World) : Prop :=
  world.heap.allocSize = (world.live.map Prod.snd).sum

namespace Invariant

variable {world : World}

/-- The live blocks are the reserved blocks, each once. -/
theorem live_perm (hworld : Invariant world tags) :
    ((tags.filter Tag.nextReserved).map fun tag => (tag.addr + tagSize, tag.nextSize)).Perm
      world.live := by
  have hdistinct : (tags.map fun tag => (tag.addr + tagSize, tag.nextSize)).Nodup := by
    rw [List.Nodup, List.pairwise_map]
    refine hworld.layout.pairwise.imp fun hbefore heq => ?_
    have := (Prod.mk.inj heq).1
    simp only [Before, tagSize] at hbefore
    omega
  refine (List.perm_ext_iff_of_nodup ?_ hworld.nodup).mpr ?_
  · exact (List.filter_sublist.map _).nodup hdistinct
  · rintro ⟨start, count⟩
    rw [hworld.live, List.mem_map]
    constructor
    · rintro ⟨tag, htag, heq⟩
      obtain ⟨hmem, hflag⟩ := List.mem_filter.mp htag
      obtain ⟨haddr, hsize⟩ := Prod.mk.inj heq
      exact ⟨tag, hmem, hflag, haddr, hsize⟩
    · rintro ⟨tag, hmem, hflag, rfl, rfl⟩
      exact ⟨tag, List.mem_filter.mpr ⟨hmem, hflag⟩, rfl⟩

theorem reservedSize_eq (hworld : Invariant world tags) :
    reservedSize tags = (world.live.map Prod.snd).sum := by
  rw [← (hworld.live_perm.map Prod.snd).sum_nat, List.map_map]
  clear hworld
  induction tags with
  | nil => rfl
  | cons tag tags ih =>
      rw [reservedSize_cons, ih, List.filter_cons]
      split <;> simp

theorem sizes_eq (hworld : Invariant world tags) :
    reservedSize tags + freeSize tags + tagSize * tags.length = heapInitialSize := by
  have hsizes := hworld.layout.sizes_eq
  have htail := hworld.tailTag
  rw [hworld.headTag] at hsizes
  omega

/-- The live blocks all fit in the region. -/
theorem sum_lt (hworld : Invariant world tags) : (world.live.map Prod.snd).sum < 2 ^ 64 := by
  have hsizes := hworld.sizes_eq
  rw [← hworld.reservedSize_eq]
  simp only [heapInitialSize] at hsizes
  omega

/-- Taking a block adds its size to the account. -/
theorem accounted_alloc (hworld : Invariant world tags) (haccounted : Accounted world)
    (hcall : heapAlloc world.heap size = .ok (heap, block)) :
    Accounted ⟨heap, (block, size) :: world.live⟩ := by
  obtain ⟨hpos, hsize⟩ := hworld.heapAlloc_ok hcall
  obtain ⟨_, tags', hnext⟩ := hworld.alloc hpos hsize hcall
  have hsum := hnext.sum_lt
  simp only [Accounted, List.map_cons, List.sum_cons] at haccounted hsum ⊢
  rw [heapAlloc_allocSize hcall, haccounted, Nat.add_comm]
  exact u64_eq_self hsum

/-- Giving a block back subtracts its size. -/
theorem accounted_free (hworld : Invariant world tags) (haccounted : Accounted world)
    (hlive : (block, size) ∈ world.live) (hcall : heapFree world.heap block = .ok heap) :
    Accounted ⟨heap, world.live.erase (block, size)⟩ := by
  have hsum := hworld.sum_lt
  have herase := ((List.perm_cons_erase hlive).map Prod.snd).sum_nat
  simp only [Accounted, List.map_cons, List.sum_cons] at haccounted herase ⊢
  rw [heapFree_allocSize hcall, hworld.nextSize_eq hlive, haccounted]
  unfold u64
  omega

theorem accounted_realloc (hworld : Invariant world tags) (haccounted : Accounted world)
    {newSize newBlock : Nat} (hlive : (block, size) ∈ world.live) (hgrows : size ≤ newSize)
    (hcall : heapRealloc world.heap block newSize = .ok (heap, newBlock)) :
    Accounted ⟨heap, (newBlock, newSize) :: world.live.erase (block, size)⟩ := by
  obtain ⟨grown, tags', halloc, hallocated, hcopied, hfree⟩ := hworld.copied hlive hgrows hcall
  have hgrown := hworld.accounted_alloc haccounted halloc
  have hfreed := hcopied.accounted_free (by exact hgrown) (List.mem_cons_of_mem _ hlive) hfree
  rwa [List.erase_cons_tail] at hfreed
  rw [beq_iff_eq]
  rintro hpair
  obtain ⟨rfl, rfl⟩ := Prod.mk.inj hpair
  exact hallocated.fresh newSize ((hworld.live newBlock newSize).mp hlive)

theorem accounted_step (hworld : Invariant world tags) (haccounted : Accounted world) {call : Call}
    {next : World} (hstep : CallStep world call next) (hgrowing : Growing world call) :
    Accounted next := by
  cases hstep with
  | alloc hreturn => exact hworld.accounted_alloc haccounted hreturn
  | free hlive hreturn => exact hworld.accounted_free haccounted hlive hreturn
  | realloc hlive hreturn =>
      exact hworld.accounted_realloc haccounted hlive (hgrowing _ hlive) hreturn
  | write _ _ => exact haccounted

end Invariant

theorem accounted_inductive : runs.Inductive fun world =>
    (∃ tags, Invariant world tags) ∧ Accounted world where
  init := by
    rintro world ⟨memory, rfl⟩
    exact ⟨⟨initTags, Invariant.init memory⟩, rfl⟩
  step := by
    rintro world call next ⟨⟨tags, hworld⟩, haccounted⟩ ⟨hgrowing, hstep⟩
    exact ⟨hworld.callStep hstep hgrowing, hworld.accounted_step haccounted hstep hgrowing⟩

/-- The counter and the walk agree, and nothing of the region is lost. -/
theorem heap_accounts_agree {world : World} (hreach : runs.Reachable world) :
    heapUsage world.heap = .ok world.heap.allocSize ∧
      world.heap.allocSize + freeSize world.heap.tags + tagSize * world.heap.tags.length =
        heapInitialSize := by
  obtain ⟨⟨tags, hworld⟩, haccounted⟩ := hreach.invariant accounted_inductive
  have hcounter : world.heap.allocSize = reservedSize tags :=
    haccounted.trans hworld.reservedSize_eq.symm
  have hroom : reservedSize tags < 2 ^ 64 := by
    rw [hworld.reservedSize_eq]
    exact hworld.sum_lt
  rw [hcounter, hworld.layout.tags_eq]
  exact ⟨hworld.layout.heapUsage_eq hroom, hworld.sizes_eq⟩

/-- A block of 100 bytes was taken from a fresh heap. -/
theorem heap_accounts_agree_after_alloc : ∃ world : World, world.heap.allocSize = 100 ∧
    runs.Reachable world ∧ heapUsage world.heap = .ok world.heap.allocSize ∧
      world.heap.allocSize + freeSize world.heap.tags + tagSize * world.heap.tags.length =
        heapInitialSize := by
  have hinit : runs.Reachable ⟨heapInit fun _ => 0, []⟩ := .init ⟨_, rfl⟩
  obtain ⟨heap, halloc⟩ := heapAlloc_fresh
  have htaken : runs.Reachable ⟨heap, [(pagingHeapVaddr + 24, 100)]⟩ :=
    runs_step hinit (CallStep.alloc halloc) trivial
  exact ⟨_, heapAlloc_allocSize halloc, htaken, heap_accounts_agree htaken⟩

end PKernel.Heap
