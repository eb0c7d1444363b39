import PKernel.Heap.Alloc

/-! # Freeing keeps the layout

`heap_free` works in two phases. It first lets the freed block absorb a free
block behind it; the freed block is still flagged reserved then, so the tags
form a layout in between. It then either lets a free block before it absorb
the whole, or clears the flag.
-/

namespace PKernel.Heap

open Library.ByteMemory Library.LinkedList

variable {heap : Heap} {tags before after : List Tag} {tag following : Tag}

/-- Outside every tag of the layout. -/
def OutsideTags (tags : List Tag) (place : Nat) : Prop :=
  ∀ tag ∈ tags, place < tag.addr ∨ tag.addr + tagSize ≤ place

theorem Layout.reserved_outsideTags (hlayout : Layout heap tags) {start count place : Nat}
    (hreserved : Reserved tags start count) (hplace : place ∈ Set.Ico start (start + count)) :
    OutsideTags tags place := by
  obtain ⟨owner, howner, _, rfl, rfl⟩ := hreserved
  obtain ⟨hlower, hupper⟩ := hplace
  intro tag htag
  rcases hlayout.eq_or_before howner htag with rfl | hbefore | hafter
  · exact .inr hlower
  · simp only [Before] at hbefore
    exact .inl (by omega)
  · simp only [Before] at hafter
    exact .inr (by omega)

/-- The memory after the first phase of `heap_free`. -/
def mergedMemory (memory : Memory) (tag : Nat) : Memory :=
  let merged := mergeNext memory tag
  setPrevSize merged.1 merged.2 (nextSize merged.1 tag)

/-- The layout between the two phases of `heap_free`. -/
structure Merged (heap : Heap) (before after : List Tag) (tag following : Tag)
    (grown bound : Tag) (rest : List Tag) : Prop where
  layout : Layout { heap with memory := mergedMemory heap.memory tag.addr }
    (before ++ grown :: bound :: rest)
  next : (mergeNext heap.memory tag.addr).2 = bound.addr
  addr : grown.addr = tag.addr
  prev : grown.prevSize = tag.prevSize
  reserved : grown.nextReserved = true
  bounded : bound.nextReserved = true ∨ bound.nextSize = 0
  others : ∀ start count, start ≠ tag.addr + tagSize →
    (Reserved (before ++ grown :: bound :: rest) start count ↔
      Reserved (before ++ tag :: following :: after) start count)
  frame : ∀ place, OutsideTags (before ++ tag :: following :: after) place →
    mergedMemory heap.memory tag.addr place = heap.memory place
  addrs : ∀ kept ∈ before ++ grown :: bound :: rest,
    ∃ old ∈ before ++ tag :: following :: after, old.addr = kept.addr

/-- The following block is in use or there is none: nothing is absorbed. -/
theorem merged_of_reserved (hlayout : Layout heap (before ++ tag :: following :: after))
    (hreserved : tag.nextReserved = true)
    (hbounded : following.nextReserved = true ∨ following.nextSize = 0) :
    Merged heap before after tag following tag following after := by
  have hadjacent := hlayout.adjacent
  have hreadTag := hlayout.read tag (by simp)
  have hreadFollowing := hlayout.read following (by simp)
  have hsize := nextSize_lt heap.memory tag.addr
  rw [nextSize_eq, hreadTag] at hsize
  have hmerge : mergeNext heap.memory tag.addr = (heap.memory, following.addr) := by
    simp only [mergeNext, hlayout.followingTag_eq, nextReserved_eq, nextSize_eq, hreadFollowing]
    rcases hbounded with h | h <;> simp [h]
  have hmemory : mergedMemory heap.memory tag.addr =
      setPrevSize heap.memory following.addr tag.nextSize := by
    simp only [mergedMemory, hmerge, nextSize_eq, hreadTag]
  refine ⟨?_, by rw [hmerge], rfl, rfl, hreserved, hbounded, fun _ _ _ => Iff.rfl, ?_,
    fun kept hkept => ⟨kept, hkept, rfl⟩⟩
  · -- the store rewrites the size that is already there
    have hjoin := (isChain_splice.mp hlayout.chain).2.1
    have haddr := hadjacent.addr
    rw [hmemory]
    refine hlayout.replace [] [] following following.prevSize rfl rfl rfl rfl hjoin ?_ ?_ ?_
    · simpa using hadjacent
    · intro place hplace
      simp only [tagSize] at *
      exact storeLE_apply_of_outside (by omega)
    · simp only [List.nil_append, List.mem_cons, List.not_mem_nil, or_false, forall_eq_or_imp,
        forall_eq]
      constructor
      · rw [readTag_setPrevSize_of_disjoint (.inl (by omega)), hreadTag]
      · rw [readTag_setPrevSize_self hsize, hreadFollowing, ← hadjacent.sizes]
  · intro place hplace
    have := hplace following (by simp)
    rw [hmemory]
    simp only [tagSize] at this
    exact storeLE_apply_of_outside (by omega)

/-- The following block is free and is absorbed. -/
theorem merged_of_free {third : Tag}
    (hlayout : Layout heap (before ++ tag :: following :: third :: after))
    (hreserved : tag.nextReserved = true) (hfree : following.nextReserved = false) :
    Merged heap before (third :: after) tag following
      { tag with nextSize := tag.nextSize + following.nextSize + tagSize }
      { third with prevSize := tag.nextSize + following.nextSize + tagSize } after := by
  have hadjacent := hlayout.adjacent
  have hjoin := (isChain_splice.mp hlayout.chain).2.1
  have hnext : Adjacent following third :=
    (isChain_splice.mp hlayout.chain).2.2.2.1 third rfl
  have haddr := hadjacent.addr
  have haddrNext := hnext.addr
  have hnonempty := hnext.nonempty
  have hreadTag := hlayout.read tag (by simp)
  have hreadFollowing := hlayout.read following (by simp)
  have hreadThird := hlayout.read third (by simp)
  have hthird := hlayout.mem_le_tail (show third ∈ _ by simp)
  have hbound := hlayout.bound
  have htotal : u64 (tag.nextSize + following.nextSize + tagSize) =
      tag.nextSize + following.nextSize + tagSize := u64_eq_self (by omega)
  have hmerge : mergeNext heap.memory tag.addr =
      (setPrevSize (setNextSize heap.memory tag.addr
        (tag.nextSize + following.nextSize + tagSize)) third.addr
        (tag.nextSize + following.nextSize + tagSize), third.addr) := by
    have hfollow : followingTag (setNextSize heap.memory tag.addr
        (tag.nextSize + following.nextSize + tagSize)) following.addr = third.addr := by
      simp (disch := omega) only [followingTag, nextSize_eq, readTag_setNextSize_of_disjoint,
        hreadFollowing]
      rw [haddrNext]
      exact u64_eq_self (by omega)
    simp only [mergeNext, hlayout.followingTag_eq, nextReserved_eq, nextSize_eq, hreadFollowing,
      hreadTag, hfree, htotal, hfollow]
    rw [if_pos ⟨rfl, by omega⟩, readTag_setNextSize_self (by omega)]
  have hmemory : mergedMemory heap.memory tag.addr =
      setPrevSize (setPrevSize (setNextSize heap.memory tag.addr
        (tag.nextSize + following.nextSize + tagSize)) third.addr
        (tag.nextSize + following.nextSize + tagSize)) third.addr
        (tag.nextSize + following.nextSize + tagSize) := by
    simp (disch := omega) only [mergedMemory, hmerge, nextSize_eq, readTag_setPrevSize_of_disjoint,
      readTag_setNextSize_self]
  have hbounded : third.nextReserved = true ∨ third.nextSize = 0 := by
    simpa [hfree] using hnext.coalesced
  refine ⟨?_, by rw [hmerge], rfl, rfl, hreserved, hbounded, ?_, ?_, ?_⟩
  · rw [hmemory]
    refine hlayout.replace [following] [] third _ rfl rfl rfl rfl ?_ ?_ ?_ ?_
    · intro earlier hearlier
      have hearlier := hjoin earlier hearlier
      exact ⟨hearlier.addr, hearlier.sizes, hearlier.nonempty, .inr (.inl hreserved)⟩
    · simp only [List.nil_append, List.isChain_cons_cons, List.isChain_singleton, and_true]
      refine ⟨?_, rfl, ?_, .inl hreserved⟩
      · simp only
        omega
      · simp only
        omega
    · intro place hplace
      simp only [setPrevSize, setNextSize, tagSize] at *
      iterate 3 rw [storeLE_apply_of_outside (by omega)]
    · simp only [List.nil_append, List.mem_cons, List.not_mem_nil, or_false, forall_eq_or_imp,
        forall_eq]
      constructor <;>
        simp (disch := omega) only [readTag_setPrevSize_of_disjoint,
          readTag_setNextSize_of_disjoint, readTag_setPrevSize_self, readTag_setNextSize_self,
          hreadTag, hreadThird]
  · intro start count hother
    simp only [Reserved, List.mem_append, List.mem_cons, or_and_right, exists_or, exists_eq_left,
      hfree, Bool.false_eq_true, false_and, false_or]
    constructor
    · rintro (h | ⟨_, rfl, _⟩ | h | h)
      exacts [.inl h, absurd rfl hother, .inr (.inr (.inl h)), .inr (.inr (.inr h))]
    · rintro (h | ⟨_, rfl, _⟩ | h | h)
      exacts [.inl h, absurd rfl hother, .inr (.inr (.inl h)), .inr (.inr (.inr h))]
  · intro place hplace
    have := hplace tag (by simp)
    have := hplace third (by simp)
    rw [hmemory]
    simp only [setPrevSize, setNextSize, tagSize] at *
    iterate 3 rw [storeLE_apply_of_outside (by omega)]
  · intro kept hkept
    simp only [List.mem_append, List.mem_cons] at hkept
    rcases hkept with h | rfl | rfl | h
    exacts [⟨kept, by simp [h], rfl⟩, ⟨tag, by simp, rfl⟩, ⟨third, by simp, rfl⟩,
      ⟨kept, by simp [h], rfl⟩]

/-- The first phase of `heap_free`, on any reserved block. -/
theorem exists_merged (hlayout : Layout heap (before ++ tag :: following :: after))
    (hreserved : tag.nextReserved = true) :
    ∃ grown bound rest, Merged heap before after tag following grown bound rest := by
  by_cases hbounded : following.nextReserved = true ∨ following.nextSize = 0
  · exact ⟨_, _, _, merged_of_reserved hlayout hreserved hbounded⟩
  · simp only [not_or, Bool.not_eq_true] at hbounded
    cases after with
    | nil =>
        have hlast := Layout.of_last (before ++ [tag]) (by simpa using hlayout)
        exact absurd hlast.1 hbounded.2
    | cons third after => exact ⟨_, _, _, merged_of_free hlayout hreserved hbounded.1⟩

/-! ## The second phase -/

/-- Clearing the flag of a block whose neighbours are not free. -/
theorem layout_clear (hlayout : Layout heap (before ++ tag :: following :: after))
    (hprev : ∀ earlier ∈ before.getLast?, earlier.nextReserved = true)
    (hbounded : following.nextReserved = true ∨ following.nextSize = 0) (allocSize : Nat) :
    Layout { heap with memory := setNextReserved heap.memory tag.addr false, allocSize }
      (before ++ { tag with nextReserved := false } :: following :: after) := by
  obtain ⟨_, hjoin, hadjacent, _, _⟩ := isChain_splice.mp hlayout.chain
  have haddr := hadjacent.addr
  have hreadTag := hlayout.read tag (by simp)
  have hreadFollowing := hlayout.read following (by simp)
  refine hlayout.replace [] [] following following.prevSize rfl rfl rfl rfl ?_ ?_ ?_ ?_
  · intro earlier hearlier
    have hadjoin := hjoin earlier hearlier
    exact ⟨hadjoin.addr, hadjoin.sizes, hadjoin.nonempty, .inl (hprev earlier hearlier)⟩
  · simp only [List.nil_append, List.isChain_cons_cons, List.isChain_singleton, and_true]
    exact ⟨hadjacent.addr, hadjacent.sizes, hadjacent.nonempty, .inr hbounded⟩
  · intro place hplace
    simp only [tagSize] at *
    exact storeLE_apply_of_outside (by omega)
  · simp only [List.nil_append, List.mem_cons, List.not_mem_nil, or_false, forall_eq_or_imp,
      forall_eq]
    constructor
    · rw [readTag_setNextReserved_self, hreadTag]
    · rw [readTag_setNextReserved_of_disjoint (.inr (by omega)), hreadFollowing]

/-- A free block absorbs the reserved one behind it. -/
theorem layout_absorb {earlier : Tag}
    (hlayout : Layout heap (before ++ earlier :: tag :: following :: after))
    (hfree : earlier.nextReserved = false)
    (hbounded : following.nextReserved = true ∨ following.nextSize = 0) (allocSize : Nat) :
    Layout { heap with
        memory := setPrevSize (setNextSize heap.memory earlier.addr
          (earlier.nextSize + tag.nextSize + tagSize)) following.addr
          (earlier.nextSize + tag.nextSize + tagSize)
        allocSize }
      (before ++ { earlier with nextSize := earlier.nextSize + tag.nextSize + tagSize } ::
        { following with prevSize := earlier.nextSize + tag.nextSize + tagSize } :: after) := by
  have hadjacent := hlayout.adjacent
  have hjoin := (isChain_splice.mp hlayout.chain).2.1
  have hnext : Adjacent tag following :=
    (isChain_splice.mp hlayout.chain).2.2.2.1 following rfl
  have haddr := hadjacent.addr
  have haddrNext := hnext.addr
  have hnonempty := hadjacent.nonempty
  have hreadEarlier := hlayout.read earlier (by simp)
  have hreadFollowing := hlayout.read following (by simp)
  have htail := hlayout.mem_le_tail (show following ∈ _ by simp)
  have hbound := hlayout.bound
  refine hlayout.replace [tag] [] following _ rfl rfl rfl rfl ?_ ?_ ?_ ?_
  · intro first hfirst
    have hadjoin := hjoin first hfirst
    refine ⟨hadjoin.addr, hadjoin.sizes, hadjoin.nonempty, .inl ?_⟩
    rcases hadjoin.coalesced with h | h | h
    · exact h
    · exact absurd h (by simp [hfree])
    · omega
  · simp only [List.nil_append, List.isChain_cons_cons, List.isChain_singleton, and_true]
    refine ⟨?_, rfl, ?_, .inr hbounded⟩
    · simp only
      omega
    · simp only
      omega
  · intro place hplace
    simp only [setPrevSize, setNextSize, tagSize] at *
    iterate 2 rw [storeLE_apply_of_outside (by omega)]
  · simp only [List.nil_append, List.mem_cons, List.not_mem_nil, or_false, forall_eq_or_imp,
      forall_eq]
    constructor <;>
      simp (disch := omega) only [readTag_setPrevSize_of_disjoint,
        readTag_setNextSize_of_disjoint, readTag_setPrevSize_self, readTag_setNextSize_self,
        hreadEarlier, hreadFollowing]

/-! ## The whole call -/

/-- What `heap_free` does to the layout. -/
structure Freed (heap next : Heap) (tags : List Tag) (block : Nat) : Prop where
  layout : ∃ tags', Layout next tags' ∧
    ∀ start count, Reserved tags' start count ↔ start ≠ block ∧ Reserved tags start count
  frame : ∀ place, OutsideTags tags place → next.memory place = heap.memory place
  headTag : next.headTag = heap.headTag
  tailTag : next.tailTag = heap.tailTag

/-- On a reserved block the checks of `heap_free` pass. -/
theorem heapFree_eq (hlayout : Layout heap (before ++ tag :: following :: after))
    (hreserved : tag.nextReserved = true) :
    heapFree heap (tag.addr + tagSize) =
      let memory := mergedMemory heap.memory tag.addr
      let next := (mergeNext heap.memory tag.addr).2
      let prev := u64 (tag.addr + 2 ^ 64 - prevSize memory tag.addr + 2 ^ 64 - tagSize)
      let allocSize := u64 (heap.allocSize + 2 ^ 64 - tag.nextSize)
      if prevSize memory tag.addr ≠ 0 ∧ !nextReserved memory prev then
        let memory := setNextSize memory prev
          (u64 (nextSize memory prev + nextSize memory tag.addr + tagSize))
        .ok { heap with memory := setPrevSize memory next (nextSize memory prev), allocSize }
      else .ok { heap with memory := setNextReserved memory tag.addr false, allocSize } := by
  have hadjacent := hlayout.adjacent
  have hreadTag := hlayout.read tag (by simp)
  have hreadFollowing := hlayout.read following (by simp)
  have htail := hlayout.mem_le_tail (show tag ∈ _ by simp)
  have hbound := hlayout.bound
  have htag : u64 (tag.addr + tagSize + 2 ^ 64 - tagSize) = tag.addr := by
    unfold u64
    omega
  have hflag : (!nextReserved heap.memory tag.addr) = false := by
    rw [nextReserved_eq, hreadTag, hreserved]
    rfl
  have hsizes : prevSize heap.memory (followingTag heap.memory tag.addr) = tag.nextSize := by
    rw [hlayout.followingTag_eq, prevSize_eq, hreadFollowing, hadjacent.sizes]
  have hsize : nextSize heap.memory tag.addr = tag.nextSize := by rw [nextSize_eq, hreadTag]
  unfold heapFree
  simp only [htag, hflag, hsize, hsizes, Bool.false_eq_true, ↓reduceIte]
  rw [if_neg (not_not_intro rfl)]
  rfl

/-- The tag before a block is where `heap_free` looks for it. -/
theorem Layout.prev_eq {earlier : Tag}
    (hlayout : Layout heap ((before ++ [earlier]) ++ tag :: after)) :
    u64 (tag.addr + 2 ^ 64 - tag.prevSize + 2 ^ 64 - tagSize) = earlier.addr := by
  rw [List.append_assoc, List.singleton_append] at hlayout
  have hadjacent := hlayout.adjacent
  have haddr := hadjacent.addr
  have htail := hlayout.mem_le_tail (show tag ∈ _ by simp)
  have hbound := hlayout.bound
  unfold u64
  rw [hadjacent.sizes]
  omega

/-- The tags before and behind a block are at other addresses. -/
theorem Layout.addr_ne (hlayout : Layout heap (before ++ tag :: after)) {other : Tag}
    (hother : other ∈ before ∨ other ∈ after) : other.addr ≠ tag.addr := by
  obtain ⟨_, hinner, hcross⟩ := List.pairwise_append.mp hlayout.pairwise
  rcases hother with hbefore | hafter
  · have := hcross other hbefore tag List.mem_cons_self
    simp only [Before, tagSize] at this
    omega
  · have := List.rel_of_pairwise_cons hinner hafter
    simp only [Before, tagSize] at this
    omega

/-- Dropping the flag of one tag drops its block and no other. -/
theorem Layout.reserved_iff_of_others (hlayout : Layout heap (before ++ tag :: after))
    {start count : Nat} :
    Reserved (before ++ after) start count ↔
      start ≠ tag.addr + tagSize ∧ Reserved (before ++ tag :: after) start count := by
  constructor
  · rintro ⟨other, hother, hflag, rfl, rfl⟩
    have hne := hlayout.addr_ne (List.mem_append.mp hother)
    refine ⟨by omega, other, ?_, hflag, rfl, rfl⟩
    rcases List.mem_append.mp hother with h | h <;> simp [h]
  · rintro ⟨hne, other, hother, hflag, rfl, rfl⟩
    refine ⟨other, ?_, hflag, rfl, rfl⟩
    rcases List.mem_append.mp hother with h | h
    · exact List.mem_append_left _ h
    · rcases List.mem_cons.mp h with rfl | h
      · exact absurd rfl hne
      · exact List.mem_append_right _ h

theorem reserved_cons_free {tag : Tag} (hfree : tag.nextReserved = false) {start count : Nat} :
    Reserved (before ++ tag :: after) start count ↔ Reserved (before ++ after) start count := by
  simp only [Reserved, List.mem_append, List.mem_cons]
  constructor
  · rintro ⟨other, h | rfl | h, hflag, hrest⟩
    exacts [⟨other, .inl h, hflag, hrest⟩, absurd hflag (by simp [hfree]),
      ⟨other, .inr h, hflag, hrest⟩]
  · rintro ⟨other, h | h, hflag, hrest⟩
    exacts [⟨other, .inl h, hflag, hrest⟩, ⟨other, .inr (.inr h), hflag, hrest⟩]

/-- The reserved blocks do not depend on the `prev_size` field. -/
theorem reserved_cons_prevSize {tag : Tag} {prev start count : Nat} :
    Reserved (before ++ { tag with prevSize := prev } :: after) start count ↔
      Reserved (before ++ tag :: after) start count := by
  simp only [Reserved, List.mem_append, List.mem_cons, or_and_right, exists_or, exists_eq_left]

/-- The block before is in use, or there is none: the flag is cleared. -/
theorem freed_clear {grown bound : Tag} {rest : List Tag}
    (hmerged : Merged heap before after tag following grown bound rest)
    (hprev : ∀ earlier ∈ before.getLast?, earlier.nextReserved = true) (allocSize : Nat) :
    Freed heap { heap with
        memory := setNextReserved (mergedMemory heap.memory tag.addr) tag.addr false
        allocSize } (before ++ tag :: following :: after) (tag.addr + tagSize) := by
  have hlayout := layout_clear hmerged.layout hprev hmerged.bounded allocSize
  rw [hmerged.addr] at hlayout
  refine ⟨⟨_, hlayout, ?_⟩, ?_, rfl, rfl⟩
  · intro start count
    rw [reserved_cons_free rfl, hmerged.layout.reserved_iff_of_others, hmerged.addr]
    exact and_congr_right fun hne => hmerged.others start count hne
  · intro place hplace
    have := hplace tag (by simp)
    rw [← hmerged.frame place hplace]
    simp only [tagSize] at this
    exact storeLE_apply_of_outside (by omega)

/-- The block before is free: it absorbs the freed block. -/
theorem freed_absorb {earlier grown bound : Tag} {rest : List Tag}
    (hmerged : Merged heap (before ++ [earlier]) after tag following grown bound rest)
    (hfree : earlier.nextReserved = false) (allocSize : Nat) :
    Freed heap { heap with
        memory := setPrevSize (setNextSize (mergedMemory heap.memory tag.addr) earlier.addr
          (earlier.nextSize + grown.nextSize + tagSize)) bound.addr
          (earlier.nextSize + grown.nextSize + tagSize)
        allocSize } (before ++ [earlier] ++ tag :: following :: after) (tag.addr + tagSize) := by
  have hmid := hmerged.layout
  have hlist : before ++ [earlier] ++ grown :: bound :: rest =
      before ++ earlier :: grown :: bound :: rest := by simp
  have hothers := hmerged.others
  rw [hlist] at hmid
  have hlayout := layout_absorb hmid hfree hmerged.bounded allocSize
  refine ⟨⟨_, hlayout, ?_⟩, ?_, rfl, rfl⟩
  · intro start count
    have hiff := @Layout.reserved_iff_of_others _ (before ++ [earlier]) (bound :: rest) grown
      hmerged.layout start count
    rw [hmerged.addr] at hiff
    rw [reserved_cons_free (by exact hfree), reserved_cons_prevSize]
    rw [List.append_assoc, List.singleton_append, reserved_cons_free hfree] at hiff
    rw [hiff]
    exact and_congr_right fun hne => hothers start count hne
  · intro place hplace
    obtain ⟨old, hold, haddrBound⟩ := hmerged.addrs bound (by simp)
    have := hplace old hold
    have := hplace earlier (by simp)
    rw [← hmerged.frame place hplace]
    simp only [setPrevSize, setNextSize, tagSize] at *
    iterate 2 rw [storeLE_apply_of_outside (by omega)]

/-- The block before is in use, or there is none: the second phase clears the flag. -/
theorem heapFree_eq_clear {grown bound : Tag} {rest : List Tag}
    (hlayout : Layout heap (before ++ tag :: following :: after))
    (hreserved : tag.nextReserved = true)
    (hmerged : Merged heap before after tag following grown bound rest)
    (hprev : ∀ earlier ∈ before.getLast?, earlier.nextReserved = true) :
    heapFree heap (tag.addr + tagSize) = .ok { heap with
      memory := setNextReserved (mergedMemory heap.memory tag.addr) tag.addr false
      allocSize := u64 (heap.allocSize + 2 ^ 64 - tag.nextSize) } := by
  have hreadGrown := hmerged.layout.read grown (by simp)
  rw [hmerged.addr] at hreadGrown
  rw [heapFree_eq hlayout hreserved]
  simp only [prevSize_eq, hreadGrown, hmerged.prev]
  rcases List.eq_nil_or_concat' before with rfl | ⟨front, earlier, rfl⟩
  · -- the freed block is the first of the heap
    obtain ⟨head, hhead, _, hzero⟩ := hlayout.first
    cases hhead
    rw [if_neg (by simp [hzero])]
  · have hflag : earlier.nextReserved = true := by simpa using hprev
    simp only [hlayout.prev_eq, nextReserved_eq, hmerged.layout.read earlier (by simp), hflag]
    rw [if_neg (by simp)]

theorem heapFree_spec (hlayout : Layout heap tags) {block size : Nat}
    (hblock : Reserved tags block size) :
    ∃ next, heapFree heap block = .ok next ∧ Freed heap next tags block := by
  obtain ⟨tag, htag, hreserved, rfl, rfl⟩ := hblock
  obtain ⟨before, following, after, rfl⟩ := hlayout.exists_next htag hreserved
  obtain ⟨grown, bound, rest, hmerged⟩ := exists_merged hlayout hreserved
  by_cases hprev : ∀ earlier ∈ before.getLast?, earlier.nextReserved = true
  · exact ⟨_, heapFree_eq_clear hlayout hreserved hmerged hprev, freed_clear hmerged hprev _⟩
  · rcases List.eq_nil_or_concat' before with rfl | ⟨front, earlier, rfl⟩
    · simp at hprev
    have hflag : earlier.nextReserved = false := by simpa using hprev
    have hadjacent : Adjacent earlier tag :=
      (isChain_splice.mp hlayout.chain).2.1 earlier (by simp)
    have hnonempty := hadjacent.nonempty
    have hbound := hlayout.bound
    have hreadGrown := hmerged.layout.read grown (by simp)
    rw [hmerged.addr] at hreadGrown
    have hreadEarlier := hmerged.layout.read earlier (by simp)
    have hgrown : grown.addr + grown.nextSize ≤ heap.tailTag :=
      hmerged.layout.mem_le_tail (by simp)
    have hgrownAddr := hmerged.addr
    have haddr := hadjacent.addr
    have hlt : earlier.nextSize + grown.nextSize + tagSize < 2 ^ 64 := by omega
    have hsum := u64_eq_self hlt
    rw [heapFree_eq hlayout hreserved]
    simp only [prevSize_eq, hreadGrown, hmerged.prev, hmerged.next, hlayout.prev_eq,
      nextReserved_eq, nextSize_eq, hreadEarlier, hflag]
    rw [if_pos ⟨by rw [hadjacent.sizes]; omega, rfl⟩, hsum, readTag_setNextSize_self hlt]
    exact ⟨_, rfl, freed_absorb hmerged hflag _⟩

end PKernel.Heap
