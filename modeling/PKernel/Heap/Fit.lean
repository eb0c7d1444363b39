import PKernel.Heap.Realloc

/-! # The fit test in 64-bit arithmetic

`heap_alloc` compares the size of a free block with `size_bytes +
sizeof(heap_tag_t) + 1`, a sum that wraps for the last 25 sizes below `2 ^ 64`.
Below them the test is the one in unbounded arithmetic. From there on it takes
any block larger than the small number that the sum wraps to, and such a block
is far too small.
-/

namespace PKernel.Heap

open Library.ByteMemory Library.Transition

variable {heap : Heap} {tags : List Tag} {world : World} {size : Nat}

/-- The `while` loop of `heap_alloc` stops where it starts. -/
def Selects (memory : Memory) (size tag : Nat) : Prop := findTag memory size 1 tag = .ok tag

/-- What a caller of `heap_alloc(size)` may rely on. -/
structure FitsRegion (world : World) (size : Nat) : Prop where
  /-- The call panics, or it returns a block whose bytes end before the next tag. -/
  outcome : (∃ message values, heapAlloc world.heap size = .error (.panic message values)) ∨
    ∃ heap before tag next after,
      heapAlloc world.heap size = .ok (heap, tag.addr + tagSize) ∧
      heap.tags = before ++ tag :: next :: after ∧ tag.addr + tagSize + size ≤ next.addr ∧
      pagingHeapVaddr ≤ tag.addr ∧ next.addr + tagSize ≤ pagingHeapVaddr + heapInitialSize
  /-- The search stops at a free block exactly when the block is large enough. -/
  test : ∀ tag ∈ world.heap.tags, tag.nextReserved = false → tag.nextSize ≠ 0 →
    (Selects world.heap.memory size tag.addr ↔
      tag.nextSize = size ∨ size + tagSize + 1 < tag.nextSize)

/-- The loop stops at a tag with a block when the block passes. -/
theorem selects_iff (hlayout : Layout heap tags) {tag : Tag} (htag : tag ∈ tags)
    (hblock : tag.nextSize ≠ 0) : Selects heap.memory size tag.addr ↔ Passes tag size := by
  obtain ⟨before, rest, rfl⟩ := List.append_of_mem htag
  cases rest with
  | nil => exact absurd (hlayout.of_last before).1 hblock
  | cons next after =>
      rcases findTag_step hlayout 0 with ⟨hpasses, hfound⟩ | ⟨hfails, hskip⟩
      · exact iff_of_true hfound hpasses
      · refine iff_of_false ?_ hfails
        rw [Selects, hskip]
        split <;> simp [findTag]

namespace Invariant

/-- Below the sizes that wrap. -/
theorem fitsRegion_of_small (hworld : Invariant world tags) (hsize : size + tagSize + 1 < 2 ^ 64) :
    FitsRegion world size where
  outcome := by
    rcases Nat.eq_zero_or_pos size with rfl | hpos
    · exact .inl ⟨"Zero byte allocation", [], by simp [heapAlloc]⟩
    rcases heapAlloc_spec hworld.layout hpos hsize with hpanic | ⟨heap, block, hcall, hallocated⟩
    · exact .inl ⟨_, _, hpanic⟩
    · right
      obtain ⟨_, tags', hnext⟩ := hworld.alloc hpos hsize hcall
      obtain ⟨tag, htag, hflag, rfl, rfl⟩ :=
        (hnext.live block size).mp List.mem_cons_self
      obtain ⟨before, next, after, rfl⟩ := hnext.layout.exists_next htag hflag
      have haddr := hnext.layout.adjacent.addr
      have hlow := hnext.layout.head_le htag
      have hhigh := hnext.layout.mem_le_tail (show next ∈ _ by simp)
      have hhead := hnext.headTag
      have htail := hnext.tailTag
      refine ⟨heap, before, tag, next, after, hcall, hnext.layout.tags_eq, ?_, ?_, ?_⟩
      · omega
      · omega
      · simp only at *
        omega
  test tag htag hfree hblock := by
    rw [hworld.layout.tags_eq] at htag
    rw [selects_iff hworld.layout htag hblock, passes_iff_fits hsize, Fits]
    simp [hfree]

/-- Where the sum wraps, but every free block is still too small for it. -/
theorem fitsRegion_of_none (hworld : Invariant world tags) (hwraps : 2 ^ 64 ≤ size + tagSize + 1)
    (hsize : size < 2 ^ 64) (hnone : ∀ tag ∈ tags, tag.nextReserved = false →
      tag.nextSize ≤ size + tagSize + 1 - 2 ^ 64) : FitsRegion world size := by
  have hwrapped : u64 (size + tagSize + 1) = size + tagSize + 1 - 2 ^ 64 := by
    simp only [u64, tagSize] at *
    omega
  have hfails : ∀ tag ∈ tags, ¬ Passes tag size := by
    rintro tag htag ⟨hfree, hexact | hlarge⟩
    · have := hworld.layout.nextSize_lt htag
      simp only [heapInitialSize, tagSize] at *
      omega
    · have := hnone tag htag hfree
      omega
  constructor
  · rcases hworld.layout.findTag_spec size with
      ⟨hpanic, _⟩ | ⟨before, found, next, after, rfl, _, hpasses, _⟩
    · refine .inl ⟨"Unable to find space for heap alloc", [("ALLOC SIZE", size)], ?_⟩
      have hpos : size ≠ 0 := by
        simp only [tagSize] at hwraps
        omega
      simp only [heapAlloc, if_neg hpos, hpanic, pure_eq_ok, ok_bind, error_bind, noSpace]
    · exact absurd hpasses (hfails found (by simp))
  · intro tag htag _ hblock
    rw [hworld.layout.tags_eq] at htag
    have := hworld.layout.nextSize_lt htag
    refine iff_of_false ?_ ?_
    · rw [selects_iff hworld.layout htag hblock]
      exact hfails tag htag
    · simp only [heapInitialSize, tagSize] at *
      omega

/-- A free block that the wrapped sum lets pass is too small. -/
theorem not_fitsRegion (hworld : Invariant world tags) (hwraps : 2 ^ 64 ≤ size + tagSize + 1)
    (hsize : size < 2 ^ 64) {tag : Tag} (htag : tag ∈ tags) (hfree : tag.nextReserved = false)
    (hlarge : size + tagSize + 1 - 2 ^ 64 < tag.nextSize) : ¬ FitsRegion world size := by
  intro hfits
  have hwrapped : u64 (size + tagSize + 1) = size + tagSize + 1 - 2 ^ 64 := by
    simp only [u64, tagSize] at *
    omega
  have hblock : tag.nextSize ≠ 0 := by omega
  have hselects : Selects world.heap.memory size tag.addr := by
    rw [selects_iff hworld.layout htag hblock]
    exact ⟨hfree, .inr (by rw [hwrapped]; exact hlarge)⟩
  have hlimit := hworld.layout.nextSize_lt htag
  have hclaimed := (hfits.test tag (by rw [hworld.layout.tags_eq]; exact htag) hfree hblock).mp
    hselects
  simp only [heapInitialSize, tagSize] at *
  omega

end Invariant

/-- In every heap, the sizes for which `heap_alloc` keeps its promise. -/
theorem heap_fit (hreach : runs.Reachable world) (hsize : size < 2 ^ 64) :
    FitsRegion world size ↔ size + tagSize + 1 < 2 ^ 64 ∨
      ∀ tag ∈ world.heap.tags, tag.nextReserved = false →
        tag.nextSize ≤ size + tagSize + 1 - 2 ^ 64 := by
  obtain ⟨tags, hworld⟩ := hreach.invariant runs_inductive
  rw [hworld.layout.tags_eq]
  constructor
  · intro hfits
    by_contra hno
    simp only [not_or, not_lt, not_forall, not_le] at hno
    obtain ⟨hwraps, tag, htag, hfree, hlarge⟩ := hno
    exact hworld.not_fitsRegion hwraps hsize htag hfree hlarge hfits
  · rintro (hsmall | hnone)
    · exact hworld.fitsRegion_of_small hsmall
    · rcases Nat.lt_or_ge (size + tagSize + 1) (2 ^ 64) with hsmall | hwraps
      · exact hworld.fitsRegion_of_small hsmall
      · exact hworld.fitsRegion_of_none hwraps hsize hnone

/-- On a fresh heap 100 bytes fit. -/
theorem heap_fit_hundred : FitsRegion ⟨heapInit fun _ => 0, []⟩ 100 :=
  (heap_fit (.init ⟨_, rfl⟩) (by decide)).mpr (.inl (by decide))

/-- On a fresh heap the test takes its one block for `2 ^ 64 - 1` bytes. -/
theorem heap_fit_wraps : runs.Reachable ⟨heapInit fun _ => 0, []⟩ ∧
    ¬ FitsRegion ⟨heapInit fun _ => 0, []⟩ (2 ^ 64 - 1) := by
  refine ⟨.init ⟨_, rfl⟩, fun hfits => ?_⟩
  have hselects : Selects (heapInit fun _ => 0).memory (2 ^ 64 - 1) pagingHeapVaddr := by
    unfold Selects
    decide +kernel
  have hmem : initTags.head (by decide) ∈ (heapInit fun _ => 0).tags := by
    rw [(heapInit_layout _).tags_eq]
    exact List.head_mem _
  have hclaimed := (hfits.test _ hmem rfl (by decide)).mp hselects
  revert hclaimed
  decide

end PKernel.Heap
