import PKernel.Heap.Allocator
import PKernel.Library.LinkedList

/-! # Well-formed tag layouts

A layout is the list of tags that the heap's memory holds, from the head tag
to the tail tag. Two neighbouring tags agree on the block between them, that
block is not empty, and of two neighbouring blocks one is reserved. Every
allocator operation replaces a short stretch of this list; what it must show
is that the new stretch reads back from memory and joins up at both ends.
-/

namespace PKernel.Heap

open Library.ByteMemory Library.LinkedList

/-! ## Reading a tag back -/

theorem readTag_congr {memory other : Memory} {tag : Nat}
    (hagree : Set.EqOn memory other (Set.Ico tag (tag + tagSize))) :
    readTag memory tag = readTag other tag := by
  have hbyte : memory tag = other tag := hagree ⟨le_rfl, by simp [tagSize]⟩
  have hword : ∀ offset, offset + 8 ≤ tagSize →
      loadLE memory (tag + offset) 8 = loadLE other (tag + offset) 8 := by
    intro offset hoffset
    refine loadLE_congr (hagree.mono ?_)
    exact Set.Ico_subset_Ico (by omega) (by omega)
  simp only [readTag, nextReserved, prevSize, nextSize, hbyte,
    hword 8 (by decide), hword 16 (by decide)]

theorem readTag_setNextSize_of_disjoint {memory : Memory} {tag other value : Nat}
    (hdisjoint : tag + tagSize ≤ other ∨ other + tagSize ≤ tag) :
    readTag (setNextSize memory other value) tag = readTag memory tag := by
  refine readTag_congr fun place hplace => storeLE_apply_of_outside ?_
  have := hplace.1
  have := hplace.2
  simp only [tagSize] at *
  omega

theorem readTag_setPrevSize_of_disjoint {memory : Memory} {tag other value : Nat}
    (hdisjoint : tag + tagSize ≤ other ∨ other + tagSize ≤ tag) :
    readTag (setPrevSize memory other value) tag = readTag memory tag := by
  refine readTag_congr fun place hplace => storeLE_apply_of_outside ?_
  have := hplace.1
  have := hplace.2
  simp only [tagSize] at *
  omega

theorem readTag_setNextReserved_of_disjoint {memory : Memory} {tag other : Nat} {value : Bool}
    (hdisjoint : tag + tagSize ≤ other ∨ other + tagSize ≤ tag) :
    readTag (setNextReserved memory other value) tag = readTag memory tag := by
  refine readTag_congr fun place hplace => storeLE_apply_of_outside ?_
  have := hplace.1
  have := hplace.2
  simp only [tagSize] at *
  omega

theorem readTag_fill_of_disjoint {memory : Memory} {tag address count : Nat} {byte : UInt8}
    (hdisjoint : tag + tagSize ≤ address ∨ address + count ≤ tag) :
    readTag (fill memory address count byte) tag = readTag memory tag := by
  refine readTag_congr fun place hplace => fill_apply_of_outside ?_
  have := hplace.1
  have := hplace.2
  omega

theorem readTag_setNextSize_self {memory : Memory} {tag value : Nat} (hvalue : value < 2 ^ 64) :
    readTag (setNextSize memory tag value) tag =
      { readTag memory tag with nextSize := value } := by
  have hsize : loadLE (storeLE memory (tag + 16) 8 value) (tag + 16) 8 = value := by
    rw [loadLE_storeLE_same]
    exact Nat.mod_eq_of_lt (by norm_num at hvalue ⊢; exact hvalue)
  simp only [readTag, nextReserved, prevSize, nextSize, setNextSize, hsize]
  rw [storeLE_apply_of_outside (by omega), loadLE_storeLE_of_disjoint (by omega)]

theorem readTag_setPrevSize_self {memory : Memory} {tag value : Nat} (hvalue : value < 2 ^ 64) :
    readTag (setPrevSize memory tag value) tag =
      { readTag memory tag with prevSize := value } := by
  have hsize : loadLE (storeLE memory (tag + 8) 8 value) (tag + 8) 8 = value := by
    rw [loadLE_storeLE_same]
    exact Nat.mod_eq_of_lt (by norm_num at hvalue ⊢; exact hvalue)
  simp only [readTag, nextReserved, prevSize, nextSize, setPrevSize, hsize]
  rw [storeLE_apply_of_outside (by omega), loadLE_storeLE_of_disjoint (by omega)]

theorem readTag_setNextReserved_self {memory : Memory} {tag : Nat} {value : Bool} :
    readTag (setNextReserved memory tag value) tag =
      { readTag memory tag with nextReserved := value } := by
  have hflag : (storeLE memory tag 1 value.toNat tag != 0) = value := by
    cases value <;> simp [storeLE]
  simp only [readTag, nextReserved, prevSize, nextSize, setNextReserved, hflag]
  rw [loadLE_storeLE_of_disjoint (by omega), loadLE_storeLE_of_disjoint (by omega)]

/-! The fields of a tag are the fields of `readTag`; stating them this way lets
one rewrite of `readTag` decide all three. -/

theorem nextReserved_eq (memory : Memory) (tag : Nat) :
    nextReserved memory tag = (readTag memory tag).nextReserved := rfl

theorem prevSize_eq (memory : Memory) (tag : Nat) :
    prevSize memory tag = (readTag memory tag).prevSize := rfl

theorem nextSize_eq (memory : Memory) (tag : Nat) :
    nextSize memory tag = (readTag memory tag).nextSize := rfl

theorem nextSize_lt (memory : Memory) (tag : Nat) : nextSize memory tag < 2 ^ 64 := by
  have := loadLE_lt memory (tag + 16) 8
  norm_num [nextSize] at this ⊢
  exact this

/-! ## Layouts -/

/-- `later` is the tag right after the block of `earlier`. -/
structure Adjacent (earlier later : Tag) : Prop where
  addr : later.addr = earlier.addr + earlier.nextSize + tagSize
  sizes : later.prevSize = earlier.nextSize
  nonempty : 0 < earlier.nextSize
  coalesced : earlier.nextReserved = true ∨ later.nextReserved = true ∨ later.nextSize = 0

/-- `earlier` and its block end before `later` starts. -/
def Before (earlier later : Tag) : Prop :=
  earlier.addr + earlier.nextSize + tagSize ≤ later.addr

instance : Trans Before Before Before where
  trans hfirst hsecond := by
    simp only [Before] at *
    omega

/-- The tags in memory, from the head tag to the tail tag. -/
structure Layout (heap : Heap) (tags : List Tag) : Prop where
  read : ∀ tag ∈ tags, readTag heap.memory tag.addr = tag
  chain : tags.IsChain Adjacent
  first : ∃ tag, tags.head? = some tag ∧ tag.addr = heap.headTag ∧ tag.prevSize = 0
  last : ∃ tag, tags.getLast? = some tag ∧ tag.addr = heap.tailTag ∧
    tag.nextSize = 0 ∧ tag.nextReserved = false
  nonempty : heap.headTag < heap.tailTag
  small : heap.tailTag < heap.headTag + heapInitialSize
  bound : heap.tailTag + tagSize < 2 ^ 63

namespace Layout

variable {heap : Heap} {tags before after : List Tag} {first second : Tag}

theorem pairwise (hlayout : Layout heap tags) : tags.Pairwise Before := by
  refine List.IsChain.pairwise (hlayout.chain.imp ?_)
  intro earlier later hadjacent
  simp only [Before]
  exact le_of_eq hadjacent.addr.symm

theorem before_first (hlayout : Layout heap (before ++ first :: second :: after))
    {tag : Tag} (htag : tag ∈ before) : Before tag first :=
  (List.pairwise_append.mp hlayout.pairwise).2.2 tag htag first List.mem_cons_self

theorem second_before (hlayout : Layout heap (before ++ first :: second :: after))
    {tag : Tag} (htag : tag ∈ after) : Before second tag := by
  have htail := (List.pairwise_append.mp hlayout.pairwise).2.1
  exact List.rel_of_pairwise_cons (List.pairwise_cons.mp htail).2 htag

theorem adjacent (hlayout : Layout heap (before ++ first :: second :: after)) :
    Adjacent first second :=
  (isChain_splice.mp hlayout.chain).2.2.1

theorem mem_le_tail (hlayout : Layout heap tags) {tag : Tag} (htag : tag ∈ tags) :
    tag.addr + tag.nextSize ≤ heap.tailTag := by
  obtain ⟨last, hlast, haddr, hsize, _⟩ := hlayout.last
  obtain ⟨front, rfl⟩ := List.getLast?_eq_some_iff.mp hlast
  rcases List.mem_append.mp htag with hfront | hend
  · have := (List.pairwise_append.mp hlayout.pairwise).2.2 tag hfront last (by simp)
    simp only [Before] at this
    omega
  · obtain rfl := List.mem_singleton.mp hend
    omega

theorem head_le (hlayout : Layout heap tags) {tag : Tag} (htag : tag ∈ tags) :
    heap.headTag ≤ tag.addr := by
  obtain ⟨head, hhead, haddr, _⟩ := hlayout.first
  obtain ⟨rest, rfl⟩ := List.head?_eq_some_iff.mp hhead
  rcases List.mem_cons.mp htag with rfl | hrest
  · omega
  · have := List.rel_of_pairwise_cons hlayout.pairwise hrest
    simp only [Before] at this
    omega

/-- No block is as large as the region. -/
theorem nextSize_lt (hlayout : Layout heap tags) {tag : Tag} (htag : tag ∈ tags) :
    tag.nextSize < heapInitialSize := by
  have hlow := hlayout.head_le htag
  have hhigh := hlayout.mem_le_tail htag
  have hsmall := hlayout.small
  omega

/-- Two tags of a layout are the same tag or their blocks do not meet. -/
theorem eq_or_before (hlayout : Layout heap tags) {tag other : Tag}
    (htag : tag ∈ tags) (hother : other ∈ tags) :
    tag = other ∨ Before tag other ∨ Before other tag :=
  List.Pairwise.forall_of_forall_of_flip (R := fun tag other =>
      tag = other ∨ Before tag other ∨ Before other tag)
    (fun _ _ => .inl rfl)
    (hlayout.pairwise.imp fun h => .inr (.inl h))
    (hlayout.pairwise.imp fun h => .inr (.inr h)) htag hother

/-- The tag after a block is where `heap_alloc` and `heap_free` look for it. -/
theorem followingTag_eq (hlayout : Layout heap (before ++ first :: second :: after)) :
    followingTag heap.memory first.addr = second.addr := by
  have hread := hlayout.read first (by simp)
  have hadjacent := hlayout.adjacent
  have hsecond := hlayout.mem_le_tail (show second ∈ _ by simp)
  have hbound := hlayout.bound
  simp only [followingTag, nextSize_eq, hread]
  rw [hadjacent.addr, u64_eq_self]
  have := hadjacent.addr
  omega

/-- The last tag of the list is the tail tag, with no block behind it. -/
theorem of_last (before : List Tag) (hlayout : Layout heap (before ++ [first])) :
    first.nextSize = 0 ∧ first.nextReserved = false ∧ first.addr = heap.tailTag := by
  obtain ⟨last, hlast, haddr, hzero, hfree⟩ := hlayout.last
  simp only [List.getLast?_append, List.getLast?_singleton, Option.some_or,
    Option.some.injEq] at hlast
  rw [hlast]
  exact ⟨hzero, hfree, haddr⟩

/-- Every tag but the last has a block behind it. -/
theorem nonempty_of_mem {last : Tag} (hlayout : Layout heap (before ++ [last])) {tag : Tag}
    (htag : tag ∈ before) : 0 < tag.nextSize := by
  obtain ⟨earlier, later, rfl⟩ := List.append_of_mem htag
  rw [List.append_assoc, List.cons_append] at hlayout
  cases later with
  | nil => exact hlayout.adjacent.nonempty
  | cons next later => exact hlayout.adjacent.nonempty

/-- A reserved tag is not the last one, so another follows it. -/
theorem exists_next (hlayout : Layout heap tags) {tag : Tag} (htag : tag ∈ tags)
    (hreserved : tag.nextReserved = true) :
    ∃ before second after, tags = before ++ tag :: second :: after := by
  obtain ⟨before, rest, rfl⟩ := List.append_of_mem htag
  cases rest with
  | nil =>
      have hfree := (hlayout.of_last before).2.1
      rw [hreserved] at hfree
      contradiction
  | cons second after => exact ⟨before, second, after, rfl⟩

/-- Every tag but the last takes up at least its own bytes. -/
theorem chain_length_le {head : Tag} {rest : List Tag}
    (hchain : (head :: rest).IsChain Adjacent) :
    head.addr + tagSize * rest.length ≤ ((head :: rest).getLast (by simp)).addr := by
  induction rest generalizing head with
  | nil => simp
  | cons next rest ih =>
      obtain ⟨hadjacent, htail⟩ := List.isChain_cons_cons.mp hchain
      have hrest := ih htail
      have := hadjacent.addr
      rw [List.getLast_cons (by simp), List.length_cons, Nat.mul_add]
      omega

theorem length_le (hlayout : Layout heap tags) :
    heap.headTag + tagSize * tags.length ≤ heap.tailTag + tagSize := by
  obtain ⟨head, hhead, haddr, _⟩ := hlayout.first
  obtain ⟨rest, rfl⟩ := List.head?_eq_some_iff.mp hhead
  obtain ⟨last, hlast, htail, _⟩ := hlayout.last
  have hle := chain_length_le hlayout.chain
  rw [List.getLast?_eq_some_getLast (by simp)] at hlast
  rw [Option.some.inj hlast] at hle
  rw [List.length_cons, Nat.mul_add]
  omega

/-- A walk over the tags ends within the bound the loops are given. -/
theorem length_lt_walkBound (hlayout : Layout heap tags) : tags.length < walkBound := by
  have hle := hlayout.length_le
  have hsmall := hlayout.small
  simp only [walkBound, heapInitialSize, tagSize] at *
  omega

theorem exists_two (hlayout : Layout heap tags) :
    ∃ first second after, tags = first :: second :: after ∧ first.addr = heap.headTag := by
  obtain ⟨head, hhead, haddr, _⟩ := hlayout.first
  obtain ⟨rest, rfl⟩ := List.head?_eq_some_iff.mp hhead
  cases rest with
  | nil =>
      obtain ⟨last, hlast, htail, _⟩ := hlayout.last
      simp only [List.getLast?_singleton, Option.some.injEq] at hlast
      subst last
      have := hlayout.nonempty
      omega
  | cons second after => exact ⟨head, second, after, rfl, haddr⟩

/-- Replace the stretch from `first` to `last`. The new stretch starts at the
same address, ends with the same tag up to its `prevSize`, and the memory is
changed only between the two. -/
theorem replace {other : Heap} {head : Tag} (middle fresh : List Tag) (last : Tag) (prev : Nat)
    (hlayout : Layout heap (before ++ first :: (middle ++ last :: after)))
    (hheadTag : other.headTag = heap.headTag) (htailTag : other.tailTag = heap.tailTag)
    (haddr : head.addr = first.addr) (hprev : head.prevSize = first.prevSize)
    (hjoin : ∀ tag ∈ before.getLast?, Adjacent tag head)
    (hchain : (head :: (fresh ++ [{ last with prevSize := prev }])).IsChain Adjacent)
    (hframe : ∀ place, place < first.addr ∨ last.addr + tagSize ≤ place →
      other.memory place = heap.memory place)
    (hread : ∀ tag ∈ head :: (fresh ++ [{ last with prevSize := prev }]),
      readTag other.memory tag.addr = tag) :
    Layout other (before ++ head :: (fresh ++ { last with prevSize := prev } :: after)) := by
  have hpairwise := hlayout.pairwise
  rw [List.pairwise_append] at hpairwise
  obtain ⟨_, hstretch, hcross⟩ := hpairwise
  obtain ⟨_, hinner, _⟩ := List.pairwise_append.mp (List.pairwise_cons.mp hstretch).2
  have hold := List.isChain_append.mp hlayout.chain
  have htail := (List.isChain_append.mp hold.2.1.tail).2.1
  have hkeep : ∀ tag ∈ before ++ first :: (middle ++ last :: after),
      tag.addr + tagSize ≤ first.addr ∨ last.addr + tagSize ≤ tag.addr →
      readTag other.memory tag.addr = tag := by
    intro tag htag haway
    have hagree : Set.EqOn other.memory heap.memory (Set.Ico tag.addr (tag.addr + tagSize)) := by
      intro place hplace
      have := hplace.1
      have := hplace.2
      exact hframe place (by omega)
    rw [readTag_congr hagree, hlayout.read tag htag]
  refine ⟨?_, ?_, ?_, ?_, by rw [hheadTag, htailTag]; exact hlayout.nonempty,
    by rw [hheadTag, htailTag]; exact hlayout.small, by rw [htailTag]; exact hlayout.bound⟩
  · intro tag htag
    have hcases : tag ∈ before ∨ tag ∈ head :: (fresh ++ [{ last with prevSize := prev }]) ∨
        tag ∈ after := by
      simp only [List.mem_append, List.mem_cons, List.not_mem_nil] at htag ⊢
      tauto
    rcases hcases with hbefore | hfresh | hafter
    · have := hcross tag hbefore first List.mem_cons_self
      simp only [Before] at this
      exact hkeep tag (by simp [hbefore]) (.inl (by omega))
    · exact hread tag hfresh
    · have := List.rel_of_pairwise_cons hinner hafter
      simp only [Before] at this
      exact hkeep tag (by simp [hafter]) (.inr (by omega))
  · rw [List.isChain_append]
    refine ⟨hold.1, ?_, by simpa using hjoin⟩
    rw [← List.cons_append, List.isChain_append] at hchain ⊢
    refine ⟨hchain.1, List.isChain_cons.mpr ⟨?_, htail.tail⟩, by simpa using hchain.2.2⟩
    intro tag htag
    have hadjacent := (List.isChain_cons.mp htail).1 tag htag
    exact ⟨hadjacent.addr, hadjacent.sizes, hadjacent.nonempty, hadjacent.coalesced⟩
  · obtain ⟨start, hstart, haddr', hzero⟩ := hlayout.first
    rw [hheadTag]
    cases before with
    | nil =>
        simp only [List.nil_append, List.head?_cons, Option.some.injEq] at hstart
        subst start
        exact ⟨head, rfl, by omega, by omega⟩
    | cons tag rest =>
        exact ⟨start, by simpa using hstart, haddr', hzero⟩
  · obtain ⟨final, hfinal, haddr', hzero, hfree⟩ := hlayout.last
    rw [htailTag]
    cases hend : after.getLast? with
    | none =>
        rw [List.getLast?_eq_none_iff] at hend
        subst hend
        simp only [List.getLast?_append, List.getLast?_cons, List.getLast?_nil, Option.getD_none,
          Option.getD_some, Option.some_or, Option.some.injEq] at hfinal
        subst final
        exact ⟨{ last with prevSize := prev }, by simp [List.getLast?_append, List.getLast?_cons],
          haddr', hzero, hfree⟩
    | some tag =>
        refine ⟨final, ?_, haddr', hzero, hfree⟩
        simpa [List.getLast?_append, List.getLast?_cons, hend] using hfinal

end Layout

end PKernel.Heap
