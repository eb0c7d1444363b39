import PKernel.Heap.Layout

/-! # Allocation keeps the layout

`heap_alloc` either panics or turns one free block of the layout into a
reserved block of exactly the requested size, cutting the rest off as a new
free block when the fit is not exact.
-/

namespace PKernel.Heap

open Library.ByteMemory Library.LinkedList

/-- A reserved block of the layout: where its bytes start and how many they are. -/
def Reserved (tags : List Tag) (block size : Nat) : Prop :=
  ∃ tag ∈ tags, tag.nextReserved = true ∧ tag.addr + tagSize = block ∧ tag.nextSize = size

/-- What the `while` condition of `heap_alloc` stops at. -/
def Passes (tag : Tag) (size : Nat) : Prop :=
  tag.nextReserved = false ∧ (tag.nextSize = size ∨ u64 (size + tagSize + 1) < tag.nextSize)

/-- The same test in unbounded arithmetic. -/
def Fits (tag : Tag) (size : Nat) : Prop :=
  tag.nextReserved = false ∧ (tag.nextSize = size ∨ size + tagSize + 1 < tag.nextSize)

/-- The panic of `heap_alloc` when no block fits. -/
def noSpace (size : Nat) : Fault :=
  .panic "Unable to find space for heap alloc" [("ALLOC SIZE", size)]

variable {heap : Heap} {tags before after : List Tag} {first second : Tag} {size : Nat}

theorem passes_iff_fits {tag : Tag} (hsize : size + tagSize + 1 < 2 ^ 64) :
    Passes tag size ↔ Fits tag size := by
  rw [Passes, Fits, u64_eq_self hsize]

/-! ## The search -/

/-- One round of the search at a tag of the layout. -/
theorem findTag_step (hlayout : Layout heap (before ++ first :: second :: after)) (fuel : Nat) :
    (Passes first size ∧ findTag heap.memory size (fuel + 1) first.addr = .ok first.addr) ∨
      (¬ Passes first size ∧ findTag heap.memory size (fuel + 1) first.addr =
        if second.nextSize = 0 then .error (noSpace size)
        else findTag heap.memory size fuel second.addr) := by
  have hread := hlayout.read first (by simp)
  have hreadNext := hlayout.read second (by simp)
  simp only [findTag, nextReserved_eq, nextSize_eq, hread, hlayout.followingTag_eq, hreadNext,
    Passes]
  cases first.nextReserved with
  | true => simp [noSpace]
  | false =>
      by_cases hfit : first.nextSize = size ∨ u64 (size + tagSize + 1) < first.nextSize
      · have hstop : ¬ (first.nextSize ≤ u64 (size + tagSize + 1) ∧ first.nextSize ≠ size) := by
          omega
        exact .inl ⟨⟨rfl, hfit⟩, by simp [hstop]⟩
      · have hskip : first.nextSize ≤ u64 (size + tagSize + 1) ∧ first.nextSize ≠ size := by omega
        exact .inr ⟨fun hpasses => hfit hpasses.2, by simp [hskip, noSpace]⟩

/-- The search stops at the first tag of the layout that passes, or panics at
the tail. -/
theorem findTag_spec (hlayout : Layout heap (before ++ first :: second :: after)) {fuel : Nat}
    (hfuel : after.length < fuel) :
    (findTag heap.memory size fuel first.addr = .error (noSpace size) ∧
        ∀ tag ∈ first :: second :: after, tag.nextSize ≠ 0 → ¬ Passes tag size) ∨
      ∃ front found next rest, first :: second :: after = front ++ found :: next :: rest ∧
        (∀ tag ∈ front, ¬ Passes tag size) ∧ Passes found size ∧
        findTag heap.memory size fuel first.addr = .ok found.addr := by
  induction after generalizing before first second fuel with
  | nil =>
      obtain ⟨fuel, rfl⟩ := Nat.exists_eq_succ_of_ne_zero (Nat.ne_zero_of_lt hfuel)
      rcases findTag_step hlayout fuel with ⟨hpasses, hfound⟩ | ⟨hfails, hskip⟩
      · exact .inr ⟨[], first, second, [], rfl, by simp, hpasses, hfound⟩
      · have hzero : second.nextSize = 0 :=
          (Layout.of_last (before ++ [first]) (by simpa using hlayout)).1
        rw [if_pos hzero] at hskip
        exact .inl ⟨hskip, by simp [hfails, hzero]⟩
  | cons third after ih =>
      obtain ⟨fuel, rfl⟩ := Nat.exists_eq_succ_of_ne_zero (Nat.ne_zero_of_lt hfuel)
      have hrest : Layout heap ((before ++ [first]) ++ second :: third :: after) := by
        simpa using hlayout
      rcases findTag_step hlayout fuel with ⟨hpasses, hfound⟩ | ⟨hfails, hskip⟩
      · exact .inr ⟨[], first, second, third :: after, rfl, by simp, hpasses, hfound⟩
      · rw [if_neg (Nat.pos_iff_ne_zero.mp hrest.adjacent.nonempty)] at hskip
        rw [hskip]
        simp only [List.length_cons] at hfuel
        rcases ih hrest (show after.length < fuel by omega) with
          ⟨hnone, hall⟩ | ⟨front, found, next, rest, htags, hskipped, hpasses, hfound⟩
        · refine .inl ⟨hnone, fun tag htag => ?_⟩
          rcases List.mem_cons.mp htag with rfl | htail
          · exact fun _ => hfails
          · exact hall tag htail
        · refine .inr ⟨first :: front, found, next, rest, by rw [htags]; rfl, ?_, hpasses, hfound⟩
          intro tag htag
          rcases List.mem_cons.mp htag with rfl | hfront
          · exact hfails
          · exact hskipped tag hfront

/-- The search of `heap_alloc` over the whole heap. -/
theorem Layout.findTag_spec (hlayout : Layout heap tags) (size : Nat) :
    (findTag heap.memory size walkBound heap.headTag = .error (noSpace size) ∧
        ∀ tag ∈ tags, tag.nextSize ≠ 0 → ¬ Passes tag size) ∨
      ∃ before found next after, tags = before ++ found :: next :: after ∧
        (∀ tag ∈ before, ¬ Passes tag size) ∧ Passes found size ∧
        findTag heap.memory size walkBound heap.headTag = .ok found.addr := by
  obtain ⟨first, second, after, rfl, hhead⟩ := hlayout.exists_two
  have hlength := hlayout.length_lt_walkBound
  rw [← hhead]
  refine @Heap.findTag_spec heap [] after first second size hlayout walkBound ?_
  simp only [List.length_cons] at hlength
  omega

/-! ## The block found -/

/-- The layout after an exact fit. -/
theorem layout_exactFit (hlayout : Layout heap (before ++ first :: second :: after))
    (hexact : first.nextSize = size) (allocSize : Nat) :
    Layout { heap with
        memory := fill (setNextReserved heap.memory first.addr true) (first.addr + tagSize) size 0
        allocSize }
      (before ++ { first with nextReserved := true } :: second :: after) := by
  obtain ⟨_, hjoin, hadjacent, _, _⟩ := isChain_splice.mp hlayout.chain
  have hsecond := hadjacent.addr
  have hreadFirst := hlayout.read first (by simp)
  have hreadSecond := hlayout.read second (by simp)
  refine hlayout.replace [] [] second second.prevSize rfl rfl rfl rfl ?_ ?_ ?_ ?_
  · intro tag htag
    have htag := hjoin tag htag
    exact ⟨htag.addr, htag.sizes, htag.nonempty, .inr (.inl rfl)⟩
  · simp only [List.nil_append, List.isChain_cons_cons, List.isChain_singleton, and_true]
    exact ⟨hadjacent.addr, hadjacent.sizes, hadjacent.nonempty, .inl rfl⟩
  · intro place hplace
    simp only [tagSize] at *
    rw [fill_apply_of_outside (by omega)]
    exact storeLE_apply_of_outside (by omega)
  · simp only [List.nil_append, List.mem_cons, List.not_mem_nil, or_false, forall_eq_or_imp,
      forall_eq]
    constructor
    · rw [readTag_fill_of_disjoint (.inl le_rfl), readTag_setNextReserved_self, hreadFirst]
    · rw [readTag_fill_of_disjoint (.inr (by omega)),
        readTag_setNextReserved_of_disjoint (.inr (by omega)), hreadSecond]

/-- The tag that a split of `first` puts behind the first `size` bytes. -/
def midTag (first : Tag) (size : Nat) : Tag where
  addr := first.addr + size + tagSize
  nextReserved := false
  prevSize := size
  nextSize := first.nextSize - size - tagSize

/-- The memory after a split, with the tags where the layout has them. -/
def splitMemory (memory : Memory) (first second : Tag) (size : Nat) : Memory :=
  let mid := first.addr + size + tagSize
  let remaining := first.nextSize - size - tagSize
  let memory := setNextSize memory first.addr size
  let memory := setNextReserved memory first.addr true
  let memory := setPrevSize memory mid size
  let memory := setNextSize memory mid remaining
  let memory := setNextReserved memory mid false
  setPrevSize memory second.addr remaining

theorem splitBlock_eq (hlayout : Layout heap (before ++ first :: second :: after))
    (hfree : first.nextReserved = false) (hlarge : size + tagSize + 1 < first.nextSize) :
    splitBlock heap.memory first.addr size = .ok (splitMemory heap.memory first second size) := by
  have hadjacent := hlayout.adjacent
  have hreadFirst := hlayout.read first (by simp)
  have hreadSecond := hlayout.read second (by simp)
  have hsecond := hlayout.mem_le_tail (show second ∈ _ by simp)
  have hbound := hlayout.bound
  have haddr := hadjacent.addr
  have hmid : u64 (first.addr + size + tagSize) = first.addr + size + tagSize :=
    u64_eq_self (by omega)
  have hremaining : u64 (first.nextSize + 2 ^ 64 - size + 2 ^ 64 - tagSize) =
      first.nextSize - size - tagSize := by
    unfold u64
    omega
  simp only [splitBlock, hlayout.followingTag_eq, nextReserved_eq, nextSize_eq, prevSize_eq,
    hreadFirst, hreadSecond, hfree, hadjacent.sizes, ne_eq, not_true_eq_false, Bool.false_eq_true,
    ↓reduceIte, hmid, hremaining, splitMemory]

/-- The layout after a split: the found block shrinks to `size` bytes and a
new tag starts the free rest. -/
theorem layout_split (hlayout : Layout heap (before ++ first :: second :: after))
    (hpos : 0 < size) (hlarge : size + tagSize + 1 < first.nextSize)
    (hreserved : second.nextReserved = true ∨ second.nextSize = 0) (allocSize : Nat) :
    Layout { heap with
        memory := fill (splitMemory heap.memory first second size) (first.addr + tagSize) size 0
        allocSize }
      (before ++ { first with nextReserved := true, nextSize := size } ::
        midTag first size :: { second with prevSize := first.nextSize - size - tagSize } :: after) := by
  obtain ⟨_, hjoin, hadjacent, _, _⟩ := isChain_splice.mp hlayout.chain
  have hsecond := hadjacent.addr
  have hreadFirst := hlayout.read first (by simp)
  have hreadSecond := hlayout.read second (by simp)
  have htail := hlayout.mem_le_tail (show second ∈ _ by simp)
  have hbound := hlayout.bound
  refine hlayout.replace [] [midTag first size] second (first.nextSize - size - tagSize)
    rfl rfl rfl rfl ?_ ?_ ?_ ?_
  · intro tag htag
    have htag := hjoin tag htag
    exact ⟨htag.addr, htag.sizes, htag.nonempty, .inr (.inl rfl)⟩
  · simp only [List.cons_append, List.nil_append, List.isChain_cons_cons, List.isChain_singleton,
      and_true]
    refine ⟨⟨rfl, rfl, hpos, .inl rfl⟩, ⟨?_, rfl, ?_, .inr hreserved⟩⟩
    · simp only [midTag]
      omega
    · simp only [midTag]
      omega
  · intro place hplace
    simp only [tagSize] at *
    rw [fill_apply_of_outside (by omega)]
    simp only [splitMemory, setNextReserved, setNextSize, setPrevSize, tagSize]
    iterate 6 rw [storeLE_apply_of_outside (by omega)]
  · simp only [List.cons_append, List.nil_append, List.mem_cons, List.not_mem_nil, or_false,
      forall_eq_or_imp, forall_eq, splitMemory, midTag]
    refine ⟨?_, ?_, ?_⟩ <;>
      simp (disch := omega) only [readTag_fill_of_disjoint, readTag_setPrevSize_of_disjoint,
        readTag_setNextReserved_of_disjoint, readTag_setNextSize_of_disjoint,
        readTag_setPrevSize_self, readTag_setNextReserved_self, readTag_setNextSize_self,
        hreadFirst, hreadSecond]
    rfl

/-! ## The whole call -/

/-- What a returning call of `heap_alloc` does to the layout. -/
structure Allocated (heap next : Heap) (tags : List Tag) (block size : Nat) : Prop where
  layout : ∃ tags', Layout next tags' ∧
    ∀ start count, Reserved tags' start count ↔ (start = block ∧ count = size) ∨
      Reserved tags start count
  fresh : ∀ count, ¬ Reserved tags block count
  zeroed : ∀ place ∈ Set.Ico block (block + size), next.memory place = 0
  frame : ∀ start count, Reserved tags start count →
    Set.EqOn next.memory heap.memory (Set.Ico start (start + count))
  headTag : next.headTag = heap.headTag
  tailTag : next.tailTag = heap.tailTag

/-- A reserved block lies before a free one or behind the tag after it. -/
theorem Layout.reserved_outside (hlayout : Layout heap (before ++ first :: second :: after))
    (hfree : first.nextReserved = false) {start count : Nat}
    (hreserved : Reserved (before ++ first :: second :: after) start count) :
    start + count ≤ first.addr ∨ second.addr + tagSize ≤ start := by
  obtain ⟨tag, htag, hflag, rfl, rfl⟩ := hreserved
  simp only [List.mem_append, List.mem_cons] at htag
  rcases htag with hbefore | rfl | rfl | hafter
  · have := hlayout.before_first hbefore
    simp only [Before] at this
    exact .inl (by omega)
  · exact absurd hflag (by simp [hfree])
  · exact .inr le_rfl
  · have := hlayout.second_before hafter
    simp only [Before] at this
    exact .inr (by omega)

/-- Both ways of taking a block write only from its tag to the end of the next
tag, so every reserved block keeps its bytes. -/
theorem allocated_of_layout {next : Heap} {tags' : List Tag}
    (hlayout : Layout heap (before ++ first :: second :: after))
    (hfree : first.nextReserved = false) (hnext : Layout next tags')
    (hreserved : ∀ start count, Reserved tags' start count ↔
      (start = first.addr + tagSize ∧ count = size) ∨
        Reserved (before ++ first :: second :: after) start count)
    (hzeroed : ∀ place ∈ Set.Ico (first.addr + tagSize) (first.addr + tagSize + size),
      next.memory place = 0)
    (hframe : ∀ place, place < first.addr ∨ second.addr + tagSize ≤ place →
      next.memory place = heap.memory place)
    (hhead : next.headTag = heap.headTag) (htail : next.tailTag = heap.tailTag) :
    Allocated heap next (before ++ first :: second :: after) (first.addr + tagSize) size where
  layout := ⟨tags', hnext, hreserved⟩
  fresh count hcount := by
    have hadjacent := hlayout.adjacent
    have haddr := hadjacent.addr
    have hnonempty := hadjacent.nonempty
    have := hlayout.reserved_outside hfree hcount
    simp only [tagSize] at *
    omega
  zeroed := hzeroed
  frame start count hcount place hplace := by
    have houtside := hlayout.reserved_outside hfree hcount
    have := hplace.1
    have := hplace.2
    exact hframe place (by omega)
  headTag := hhead
  tailTag := htail

theorem allocated_exactFit (hlayout : Layout heap (before ++ first :: second :: after))
    (hfree : first.nextReserved = false) (hexact : first.nextSize = size) (allocSize : Nat) :
    Allocated heap { heap with
        memory := fill (setNextReserved heap.memory first.addr true) (first.addr + tagSize) size 0
        allocSize } (before ++ first :: second :: after) (first.addr + tagSize) size := by
  refine allocated_of_layout hlayout hfree (layout_exactFit hlayout hexact allocSize) ?_ ?_ ?_
    rfl rfl
  · intro start count
    simp only [Reserved, List.mem_append, List.mem_cons, or_and_right, exists_or, exists_eq_left,
      hfree, hexact, true_and, Bool.false_eq_true, false_and, false_or]
    constructor
    · rintro (h | ⟨rfl, rfl⟩ | h)
      exacts [.inr (.inl h), .inl ⟨rfl, rfl⟩, .inr (.inr h)]
    · rintro (⟨rfl, rfl⟩ | h | h)
      exacts [.inr (.inl ⟨rfl, rfl⟩), .inl h, .inr (.inr h)]
  · intro place hplace
    exact if_pos ⟨hplace.1, hplace.2⟩
  · intro place hplace
    have haddr := hlayout.adjacent.addr
    simp only [tagSize] at *
    rw [fill_apply_of_outside (by omega)]
    exact storeLE_apply_of_outside (by omega)

theorem allocated_split (hlayout : Layout heap (before ++ first :: second :: after))
    (hfree : first.nextReserved = false) (hpos : 0 < size)
    (hlarge : size + tagSize + 1 < first.nextSize) (allocSize : Nat) :
    Allocated heap { heap with
        memory := fill (splitMemory heap.memory first second size) (first.addr + tagSize) size 0
        allocSize } (before ++ first :: second :: after) (first.addr + tagSize) size := by
  have hadjacent := hlayout.adjacent
  have hreserved : second.nextReserved = true ∨ second.nextSize = 0 := by
    simpa [hfree] using hadjacent.coalesced
  refine allocated_of_layout hlayout hfree
    (layout_split hlayout hpos hlarge hreserved allocSize) ?_ ?_ ?_ rfl rfl
  · intro start count
    simp only [Reserved, List.mem_append, List.mem_cons, or_and_right, exists_or, exists_eq_left,
      hfree, true_and, Bool.false_eq_true, false_and, false_or, midTag]
    constructor
    · rintro (h | ⟨rfl, rfl⟩ | h | h)
      exacts [.inr (.inl h), .inl ⟨rfl, rfl⟩, .inr (.inr (.inl h)), .inr (.inr (.inr h))]
    · rintro (⟨rfl, rfl⟩ | h | h | h)
      exacts [.inr (.inl ⟨rfl, rfl⟩), .inl h, .inr (.inr (.inl h)), .inr (.inr (.inr h))]
  · intro place hplace
    exact if_pos ⟨hplace.1, hplace.2⟩
  · intro place hplace
    have haddr := hadjacent.addr
    simp only [tagSize] at *
    rw [fill_apply_of_outside (by omega)]
    simp only [splitMemory, setNextReserved, setNextSize, setPrevSize, tagSize]
    iterate 6 rw [storeLE_apply_of_outside (by omega)]

/-- A block inside the address space is cleared. -/
theorem memset_eq {memory : Memory} {address count : Nat} (hcount : address + count ≤ 2 ^ 64) :
    memset memory address count = .ok (fill memory address count 0) :=
  if_neg (by omega)

theorem memset_ok {memory result : Memory} {address count : Nat}
    (hcall : memset memory address count = .ok result) :
    address + count ≤ 2 ^ 64 ∧ result = fill memory address count 0 := by
  unfold memset at hcall
  split at hcall
  · contradiction
  next hcount => exact ⟨by omega, (Except.ok.inj hcall).symm⟩

/-- What a returning call went through. -/
theorem heapAlloc_eq_ok {next : Heap} {block : Nat}
    (hcall : heapAlloc heap size = .ok (next, block)) :
    size ≠ 0 ∧ ∃ current memory cleared,
      findTag heap.memory size walkBound heap.headTag = .ok current ∧
      (if nextSize heap.memory current = size then
        .ok (setNextReserved heap.memory current true)
      else splitBlock heap.memory current size) = .ok memory ∧
      memset memory (u64 (current + tagSize)) size = .ok cleared ∧
      block = u64 (current + tagSize) ∧
      next = { heap with memory := cleared, allocSize := u64 (heap.allocSize + size) } := by
  by_cases hzero : size = 0
  · simp [heapAlloc, hzero] at hcall
  · simp only [heapAlloc, if_neg hzero, pure_eq_ok, ok_bind, bind_eq_ok] at hcall
    obtain ⟨current, hsearch, hcall⟩ := hcall
    refine ⟨hzero, current, ?_⟩
    split at hcall
    next hexact =>
      obtain ⟨cleared, hclear, hcall⟩ := bind_eq_ok.mp hcall
      cases hcall
      exact ⟨_, cleared, hsearch, if_pos hexact, hclear, rfl, rfl⟩
    next hexact =>
      obtain ⟨memory, hsplit, hcall⟩ := bind_eq_ok.mp hcall
      obtain ⟨cleared, hclear, hcall⟩ := bind_eq_ok.mp hcall
      cases hcall
      exact ⟨memory, cleared, hsearch, by rw [if_neg hexact, hsplit], hclear, rfl,
        rfl⟩

/-- The call when the search stops at a block of the size asked for. -/
theorem heapAlloc_exactFit (hlayout : Layout heap (before ++ first :: second :: after))
    (hpos : 0 < size)
    (hsearch : findTag heap.memory size walkBound heap.headTag = .ok first.addr)
    (hexact : first.nextSize = size) :
    heapAlloc heap size = .ok ({ heap with
      memory := fill (setNextReserved heap.memory first.addr true) (first.addr + tagSize) size 0
      allocSize := u64 (heap.allocSize + size) }, first.addr + tagSize) := by
  have hread := hlayout.read first (by simp)
  have htail := hlayout.mem_le_tail (show first ∈ _ by simp)
  have hbound := hlayout.bound
  have hblock : u64 (first.addr + tagSize) = first.addr + tagSize := u64_eq_self (by omega)
  have hclear : ∀ memory, memset memory (first.addr + tagSize) size =
      .ok (fill memory (first.addr + tagSize) size 0) := fun _ => memset_eq (by omega)
  simp only [heapAlloc, if_neg (Nat.pos_iff_ne_zero.mp hpos), pure_eq_ok, ok_bind, hsearch,
    nextSize_eq, hread, hexact, hblock, hclear, ↓reduceIte]

/-- The call when the search stops at a larger block. -/
theorem heapAlloc_split (hlayout : Layout heap (before ++ first :: second :: after))
    (hpos : 0 < size)
    (hsearch : findTag heap.memory size walkBound heap.headTag = .ok first.addr)
    (hfree : first.nextReserved = false) (hlarge : size + tagSize + 1 < first.nextSize) :
    heapAlloc heap size = .ok ({ heap with
      memory := fill (splitMemory heap.memory first second size) (first.addr + tagSize) size 0
      allocSize := u64 (heap.allocSize + size) }, first.addr + tagSize) := by
  have hread := hlayout.read first (by simp)
  have htail := hlayout.mem_le_tail (show first ∈ _ by simp)
  have hbound := hlayout.bound
  have hblock : u64 (first.addr + tagSize) = first.addr + tagSize := u64_eq_self (by omega)
  have hclear : ∀ memory, memset memory (first.addr + tagSize) size =
      .ok (fill memory (first.addr + tagSize) size 0) := fun _ => memset_eq (by omega)
  have hexact : first.nextSize ≠ size := by omega
  simp only [heapAlloc, if_neg (Nat.pos_iff_ne_zero.mp hpos), pure_eq_ok, ok_bind, hsearch,
    nextSize_eq, hread, if_neg hexact, hblock, hclear, splitBlock_eq hlayout hfree hlarge]

theorem heapAlloc_spec (hlayout : Layout heap tags) (hpos : 0 < size)
    (hsize : size + tagSize + 1 < 2 ^ 64) :
    heapAlloc heap size = .error (noSpace size) ∨
      ∃ next block, heapAlloc heap size = .ok (next, block) ∧
        Allocated heap next tags block size := by
  rcases hlayout.findTag_spec size with
    ⟨hnone, _⟩ | ⟨before, found, next, after, rfl, _, hpasses, hsearch⟩
  · left
    simp only [heapAlloc, if_neg (Nat.pos_iff_ne_zero.mp hpos), pure_eq_ok, ok_bind, hnone,
      error_bind]
  · right
    obtain ⟨hfree, hfit⟩ := (passes_iff_fits hsize).mp hpasses
    by_cases hexact : found.nextSize = size
    · exact ⟨_, _, heapAlloc_exactFit hlayout hpos hsearch hexact,
        allocated_exactFit hlayout hfree hexact _⟩
    · have hlarge := hfit.resolve_left hexact
      exact ⟨_, _, heapAlloc_split hlayout hpos hsearch hfree hlarge,
        allocated_split hlayout hfree hpos hlarge _⟩

end PKernel.Heap
