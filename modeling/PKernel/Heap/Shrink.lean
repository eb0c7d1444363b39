import PKernel.Heap.Canonical

/-! # Reallocation to a smaller block

`heap_realloc` copies as many bytes as the old block has, also when the new
one is smaller. The bytes that do not fit land on the tag behind the new
block, and on what lies behind that tag.
-/

namespace PKernel.Heap

open Library.ByteMemory Library.LinkedList Library.Tiling Library.Transition

variable {heap next : Heap} {tags before after front rest : List Tag}
  {found following hole tail tag : Tag} {world : World} {memory : Memory}
  {size newSize block newBlock : Nat}

/-- The size of the one block that `heap_init` leaves. -/
def sectorSize : Nat := heapInitialSize - 2 * tagSize

/-- Blocks of these two sizes fit in the heap at the same time: they fill it, or
there is room for a third one. -/
def Together (size newSize : Nat) : Prop :=
  size + newSize + tagSize = sectorSize ∨ size + newSize + 2 * tagSize + 1 ≤ sectorSize

/-! ## Two live blocks -/

/-- Besides the tail tag, two live blocks and their tags fit in the region. -/
theorem Invariant.together (hworld : Invariant world tags) (hlive : (block, size) ∈ world.live)
    (hother : (newBlock, newSize) ∈ world.live) (hne : block ≠ newBlock) :
    Together size newSize := by
  obtain ⟨first, hfirst, hfirstFlag, haddr, rfl⟩ := (hworld.live block size).mp hlive
  obtain ⟨second, hsecond, hsecondFlag, haddr', rfl⟩ :=
    (hworld.live newBlock newSize).mp hother
  have hdistinct : first ≠ second := by
    rintro rfl
    exact hne (haddr.symm.trans haddr')
  obtain ⟨fore, last, rfl, _, hflag, htiles, _⟩ := hworld.layout.front
  have hfore : ∀ tag ∈ fore ++ [last], tag.nextReserved = true → tag ∈ fore := by
    intro tag htag hreserved
    rcases List.mem_append.mp htag with h | h
    · exact h
    · obtain rfl := List.mem_singleton.mp h
      simp [hflag] at hreserved
  have hrest : second ∈ fore.erase first :=
    (List.mem_erase_of_ne hdistinct.symm).mpr (hfore second hsecond hsecondFlag)
  have hperm : fore.Perm (first :: second :: (fore.erase first).erase second) :=
    (List.perm_cons_erase (hfore first hfirst hfirstFlag)).trans
      ((List.perm_cons_erase hrest).cons first)
  have hsum := (hperm.map fun tag => tag.nextSize + tagSize).sum_nat
  have htotal := htiles.sum_eq
  have htail := hworld.tailTag
  rw [hsum, hworld.headTag] at htotal
  simp only [List.map_cons, List.sum_cons] at htotal
  cases hothers : (fore.erase first).erase second with
  | nil =>
      simp only [hothers, List.map_nil, List.sum_nil] at htotal
      left
      simp only [sectorSize, tagSize, heapInitialSize] at *
      omega
  | cons third others =>
      -- a third block has at least one byte
      have hthird := hworld.layout.nonempty_of_mem
        (hperm.mem_iff.mpr (show third ∈ _ by simp [hothers]))
      simp only [hothers, List.map_cons, List.sum_cons] at htotal
      right
      simp only [sectorSize, tagSize, heapInitialSize] at *
      omega

/-! ## The first fit -/

/-- The search stops at the first tag that passes. -/
theorem Layout.findTag_eq (hlayout : Layout heap (before ++ found :: following :: after))
    (hskip : ∀ tag ∈ before, ¬ Passes tag size) (hpasses : Passes found size) :
    findTag heap.memory size walkBound heap.headTag = .ok found.addr := by
  rcases hlayout.findTag_spec size with
    ⟨_, hnone⟩ | ⟨before', found', following', after', htags, hskip', hpasses', hfound⟩
  · have hnonempty := hlayout.adjacent.nonempty
    exact absurd hpasses (hnone found (by simp) (by omega))
  · have hsame : found' = found := by
      rcases List.append_eq_append_iff.mp htags with ⟨more, hbefore, hrest⟩ | ⟨more, hbefore, hrest⟩
      · cases more with
        | nil => exact (List.cons.inj hrest).1.symm
        | cons first more =>
            obtain rfl := (List.cons.inj hrest).1
            exact absurd hpasses (hskip' found (by simp [hbefore]))
      · cases more with
        | nil => exact (List.cons.inj hrest).1
        | cons first more =>
            obtain rfl := (List.cons.inj hrest).1
            exact absurd hpasses' (hskip found' (by simp [hbefore]))
    rw [hfound, hsame]

/-- An allocation at a known place. -/
theorem Invariant.alloc_at (hworld : Invariant world (before ++ found :: following :: after))
    (hskip : ∀ tag ∈ before, ¬ Passes tag size) (hfits : Fits found size) (hpos : 0 < size)
    (hsize : size + tagSize + 1 < 2 ^ 64) :
    ∃ heap rest, heapAlloc world.heap size = .ok (heap, found.addr + tagSize) ∧
      Allocated world.heap heap (before ++ found :: following :: after) (found.addr + tagSize)
        size ∧
      Invariant ⟨heap, (found.addr + tagSize, size) :: world.live⟩
        (before ++ { found with nextReserved := true, nextSize := size } :: rest) ∧
      (found.nextSize = size ∧ rest = following :: after ∨
        size + tagSize + 1 < found.nextSize ∧ rest = midTag found size ::
          { following with prevSize := found.nextSize - size - tagSize } :: after) := by
  have hsearch := hworld.layout.findTag_eq hskip ((passes_iff_fits hsize).mpr hfits)
  obtain ⟨hfree, hfit⟩ := hfits
  by_cases hexact : found.nextSize = size
  · have hcall := heapAlloc_exactFit hworld.layout hpos hsearch hexact
    obtain ⟨hallocated, tags', hnext⟩ := hworld.alloc hpos hsize hcall
    have hlayout := layout_exactFit hworld.layout hexact (u64 (world.heap.allocSize + size))
    obtain rfl := hnext.layout.tags_eq.symm.trans hlayout.tags_eq
    refine ⟨_, _, hcall, hallocated, ?_, .inl ⟨hexact, rfl⟩⟩
    subst hexact
    exact hnext
  · have hlarge := hfit.resolve_left hexact
    have hcall := heapAlloc_split hworld.layout hpos hsearch hfree hlarge
    obtain ⟨hallocated, tags', hnext⟩ := hworld.alloc hpos hsize hcall
    have hreserved : following.nextReserved = true ∨ following.nextSize = 0 := by
      simpa [hfree] using hworld.layout.adjacent.coalesced
    have hlayout := layout_split hworld.layout hpos hlarge hreserved
      (u64 (world.heap.allocSize + size))
    obtain rfl := hnext.layout.tags_eq.symm.trans hlayout.tags_eq
    exact ⟨_, _, hcall, hallocated, hnext, .inr ⟨hlarge, rfl⟩⟩

/-! ## Calls in detail -/

theorem readTag_copyBytes_of_disjoint {place dst src count : Nat}
    (hdisjoint : place + tagSize ≤ dst ∨ dst + count ≤ place) :
    readTag (copyBytes memory dst src count) place = readTag memory place := by
  refine readTag_congr fun other hother => copyBytes_apply_of_outside ?_
  have := hother.1
  have := hother.2
  omega

/-- A tag among the bytes of the source is a tag among those of the copy. -/
theorem readTag_copyBytes {dst src count offset : Nat} (hsafe : dst ≤ src ∨ src + count ≤ dst)
    (hoffset : offset + tagSize ≤ count) :
    readTag (copyBytes memory dst src count) (dst + offset) =
      { readTag memory (src + offset) with addr := dst + offset } := by
  have hbyte : ∀ further < tagSize, copyBytes memory dst src count (dst + offset + further) =
      memory (src + offset + further) := by
    intro further hfurther
    rw [Nat.add_assoc, Nat.add_assoc]
    exact copyBytes_apply hsafe (by omega)
  have hword : ∀ field, field + 8 ≤ tagSize →
      loadLE (copyBytes memory dst src count) (dst + offset + field) 8 =
        loadLE memory (src + offset + field) 8 := by
    intro field hfield
    refine loadLE_shift fun further hfurther => ?_
    rw [Nat.add_assoc _ field, Nat.add_assoc _ field]
    exact hbyte _ (by omega)
  have hflag := hbyte 0 (by decide)
  simp only [Nat.add_zero] at hflag
  simp only [readTag, nextReserved, prevSize, nextSize, hflag, hword 8 (by decide),
    hword 16 (by decide)]

/-- A free between blocks in use only clears the flag; it looks at no tag but
the three around the block. -/
theorem heapFree_alone (hread : readTag heap.memory tag.addr = tag)
    (hreadFollowing : readTag heap.memory following.addr = following)
    (haddr : following.addr = tag.addr + tag.nextSize + tagSize)
    (hsmall : following.addr < 2 ^ 64) (hreserved : tag.nextReserved = true)
    (hfollowing : following.nextReserved = true ∨ following.nextSize = 0)
    (hsizes : following.prevSize = tag.nextSize)
    (hprev : tag.prevSize = 0 ∨ ∃ earlier, readTag heap.memory earlier.addr = earlier ∧
      earlier.nextReserved = true ∧ tag.addr = earlier.addr + tag.prevSize + tagSize) :
    heapFree heap (tag.addr + tagSize) = .ok { heap with
      memory := setNextReserved (setPrevSize heap.memory following.addr tag.nextSize) tag.addr false
      allocSize := u64 (heap.allocSize + 2 ^ 64 - tag.nextSize) } := by
  have htag : u64 (tag.addr + tagSize + 2 ^ 64 - tagSize) = tag.addr := by
    unfold u64
    omega
  have hfollow : followingTag heap.memory tag.addr = following.addr := by
    rw [followingTag, nextSize_eq, hread, ← haddr]
    exact u64_eq_self hsmall
  have hmerge : mergeNext heap.memory tag.addr = (heap.memory, following.addr) := by
    simp only [mergeNext, hfollow, nextReserved_eq, nextSize_eq, hreadFollowing]
    rcases hfollowing with h | h <;> simp [h]
  have hkept : readTag (setPrevSize heap.memory following.addr tag.nextSize) tag.addr = tag := by
    rw [readTag_setPrevSize_of_disjoint (.inl (by omega)), hread]
  simp only [heapFree, htag, hfollow, hmerge, nextReserved_eq, nextSize_eq, prevSize_eq, hread,
    hreadFollowing, hreserved, hsizes, hkept]
  rcases hprev with hzero | ⟨earlier, hreadEarlier, hflag, hplace⟩
  · simp [hzero]
  · have hback : u64 (tag.addr + 2 ^ 64 - tag.prevSize + 2 ^ 64 - tagSize) = earlier.addr := by
      unfold u64
      omega
    have hkeptEarlier : readTag (setPrevSize heap.memory following.addr tag.nextSize)
        earlier.addr = earlier := by
      rw [readTag_setPrevSize_of_disjoint (.inl (by omega)), hreadEarlier]
    simp only [hback, hkeptEarlier, hflag]
    simp

/-- The walk passes over tags whose sizes are still in place. -/
theorem tagsFrom_of_sizes {old : Heap} {first : Nat}
    (hlayout : Layout old (before ++ front ++ found :: after))
    (hsizes : ∀ tag ∈ front, nextSize memory tag.addr = tag.nextSize)
    (hfirst : ((front ++ [found]).map Tag.addr).head? = some first) (fuel : Nat) :
    tagsFrom memory (fuel + front.length) first =
      front.map (fun tag => readTag memory tag.addr) ++ tagsFrom memory fuel found.addr := by
  induction front generalizing before first with
  | nil =>
      obtain rfl : found.addr = first := by simpa using hfirst
      rfl
  | cons tag front ih =>
      obtain rfl : tag.addr = first := by simpa using hfirst
      obtain ⟨second, later, hsecond⟩ := List.exists_cons_of_ne_nil
        (List.append_ne_nil_of_right_ne_nil front (List.cons_ne_nil found []))
      have hsplit : before ++ tag :: front ++ found :: after =
          before ++ tag :: second :: (later ++ after) := by
        rw [← List.cons_append, ← hsecond]
        simp
      rw [hsplit] at hlayout
      have hadjacent := hlayout.adjacent
      have htail := hlayout.mem_le_tail (show second ∈ _ by simp)
      have hbound := hlayout.bound
      have hsize := hsizes tag List.mem_cons_self
      have haddr := hadjacent.addr
      have hfollow : followingTag memory tag.addr = second.addr := by
        rw [followingTag, hsize, ← haddr]
        exact u64_eq_self (by omega)
      have hnonzero : nextSize memory tag.addr ≠ 0 := by
        have := hadjacent.nonempty
        omega
      have hrest := @ih (before ++ [tag]) second.addr
        (by rw [← hsplit] at hlayout; simpa using hlayout)
        (fun tag htag => hsizes tag (List.mem_cons_of_mem _ htag)) (by rw [hsecond]; rfl)
      rw [List.length_cons, ← Nat.add_assoc, tagsFrom, if_neg hnonzero, hfollow, hrest]
      rfl

/-- The tags of a heap as far as the sizes of an earlier layout are still in place. -/
theorem tags_of_sizes {last old : Heap} (hlayout : Layout old (front ++ found :: after))
    (hhead : last.headTag = old.headTag)
    (hsizes : ∀ tag ∈ front, nextSize last.memory tag.addr = tag.nextSize) :
    ∃ rest, last.tags = front.map (fun tag => readTag last.memory tag.addr) ++
      readTag last.memory found.addr :: rest := by
  obtain ⟨head, hstart, haddr, _⟩ := hlayout.first
  have hlength := hlayout.length_lt_walkBound
  rw [List.length_append, List.length_cons] at hlength
  obtain ⟨fuel, hfuel⟩ : ∃ fuel, walkBound = fuel + 1 + front.length :=
    ⟨walkBound - 1 - front.length, by omega⟩
  have hfirst : ((front ++ [found]).map Tag.addr).head? = some last.headTag := by
    rw [hhead, ← haddr]
    cases front with
    | nil => simpa using congrArg (Option.map Tag.addr) hstart
    | cons tag front => simpa using congrArg (Option.map Tag.addr) hstart
  have hwalk := @tagsFrom_of_sizes [] after front found last.memory old last.headTag hlayout hsizes
    hfirst (fuel + 1)
  rw [tags, hfuel, hwalk]
  exact ⟨_, rfl⟩

theorem heapRealloc_eq {grown : Heap} (halloc : heapAlloc heap newSize = .ok (grown, newBlock))
    (hsize : nextSize grown.memory (u64 (block + 2 ^ 64 - tagSize)) = size)
    (hfree : heapFree { grown with memory := copyBytes grown.memory newBlock block size } block =
      .ok next) : heapRealloc heap block newSize = .ok (next, newBlock) := by
  simp only [heapRealloc, halloc, ok_bind, hsize, hfree, pure_eq_ok]

/-! ## Heaps with one hole at their end -/

/-- A state of a run in which only the last block is free. -/
structure Hole (world : World) (front : List Tag) (hole tail : Tag) : Prop where
  reach : runs.Reachable world
  invariant : Invariant world (front ++ [hole, tail])
  reserved : ∀ tag ∈ front, tag.nextReserved = true
  free : hole.nextReserved = false

namespace Hole

theorem skip (hhole : Hole world front hole tail) : ∀ tag ∈ front, ¬ Passes tag size := by
  rintro tag htag ⟨hfree, _⟩
  simp [hhole.reserved tag htag] at hfree

theorem size_lt (hhole : Hole world front hole tail) : hole.nextSize < heapInitialSize :=
  hhole.invariant.layout.nextSize_lt (by simp)

theorem tail_last (hhole : Hole world front hole tail) : tail.nextSize = 0 ∧
    tail.nextReserved = false ∧ tail.addr = world.heap.tailTag :=
  Layout.of_last (front ++ [hole]) (by simpa using hhole.invariant.layout)

theorem init : ∃ world front hole tail, Hole world front hole tail ∧
    hole.nextSize = sectorSize := by
  have hreach : runs.Reachable ⟨heapInit fun _ => 0, []⟩ := .init ⟨_, rfl⟩
  exact ⟨_, [], _, _, ⟨hreach, Invariant.init _, by simp, rfl⟩, rfl⟩

/-- Take a block from the hole and leave the rest of it free. -/
theorem alloc (hhole : Hole world front hole tail) (hpos : 0 < size)
    (hlarge : size + tagSize + 1 < hole.nextSize) :
    ∃ heap tail', Hole ⟨heap, (hole.addr + tagSize, size) :: world.live⟩
      (front ++ [{ hole with nextReserved := true, nextSize := size }]) (midTag hole size) tail' := by
  have hbound := hhole.size_lt
  obtain ⟨heap, rest, hcall, _, hnext, hrest⟩ := hhole.invariant.alloc_at hhole.skip
    ⟨hhole.free, .inr hlarge⟩ hpos (by simp only [heapInitialSize] at hbound; omega)
  rcases hrest with ⟨hexact, _⟩ | ⟨_, rfl⟩
  · omega
  · rw [List.append_cons] at hnext
    refine ⟨heap, _, runs_step hhole.reach (CallStep.alloc hcall) trivial, hnext, ?_, rfl⟩
    intro tag htag
    rcases List.mem_append.mp htag with h | h
    · exact hhole.reserved tag h
    · obtain rfl := List.mem_singleton.mp h
      rfl

/-- Take the whole hole. -/
theorem fill (hhole : Hole world front hole tail) (hpos : 0 < hole.nextSize) :
    ∃ heap, runs.Reachable ⟨heap, (hole.addr + tagSize, hole.nextSize) :: world.live⟩ ∧
      Invariant ⟨heap, (hole.addr + tagSize, hole.nextSize) :: world.live⟩
        (front ++ [{ hole with nextReserved := true }, tail]) := by
  have hbound := hhole.size_lt
  obtain ⟨heap, rest, hcall, _, hnext, hrest⟩ := hhole.invariant.alloc_at hhole.skip
    ⟨hhole.free, .inl rfl⟩ hpos (by simp only [heapInitialSize, tagSize] at hbound ⊢; omega)
  rcases hrest with ⟨_, rfl⟩ | ⟨hlarge, _⟩
  · exact ⟨heap, runs_step hhole.reach (CallStep.alloc hcall) trivial, hnext⟩
  · omega

end Hole

/-- Two blocks that fit together fit in a hole, exactly or with room for a tag
and more. If they leave just 25 bytes, a block of one byte takes these first. -/
theorem exists_hole (htogether : Together size newSize) : ∃ world front hole tail,
    Hole world front hole tail ∧ sectorSize ≤ hole.nextSize + tagSize + 1 ∧
      (hole.nextSize = size + newSize + tagSize ∨
        size + newSize + 2 * tagSize + 2 ≤ hole.nextSize) := by
  obtain ⟨world, front, hole, tail, hhole, hsize⟩ := Hole.init
  by_cases hspare : size + newSize + 2 * tagSize + 1 = sectorSize
  · obtain ⟨heap, tail', hnext⟩ := @Hole.alloc front hole tail world 1 hhole (by decide) (by
      rw [hsize]
      decide)
    have hrest : (midTag hole 1).nextSize = sectorSize - 1 - tagSize := by rw [← hsize]; rfl
    exact ⟨_, _, _, _, hnext, by omega, .inl (by omega)⟩
  · refine ⟨_, _, _, _, hhole, by omega, ?_⟩
    rcases htogether with hexact | hroom <;> omega

theorem runs_write (hreach : runs.Reachable world) (hlive : (block, size) ∈ world.live)
    {offset : Nat} (hoffset : offset < size) (byte : UInt8) :
    runs.Reachable ⟨{ world.heap with
      memory := Function.update world.heap.memory (block + offset) byte }, world.live⟩ :=
  runs_step hreach (CallStep.write hlive hoffset) trivial

/-- The owner of a block may fill it with anything. -/
theorem reachable_overwrite (hreach : runs.Reachable world) (hlive : (block, size) ∈ world.live)
    (hframe : ∀ place, place < block ∨ block + size ≤ place →
      memory place = world.heap.memory place) :
    runs.Reachable ⟨{ world.heap with memory }, world.live⟩ := by
  have hpart : ∀ count ≤ size, runs.Reachable ⟨{ world.heap with
      memory := fun place => if block ≤ place ∧ place < block + count then memory place
        else world.heap.memory place }, world.live⟩ := by
    intro count
    induction count with
    | zero =>
        intro _
        have hsame : (fun place => if block ≤ place ∧ place < block + 0 then memory place
            else world.heap.memory place) = world.heap.memory := by
          funext place
          exact if_neg (by omega)
        rw [hsame]
        exact hreach
    | succ count ih =>
        intro hcount
        have hstep := runs_write (ih (by omega)) hlive (show count < size by omega)
          (memory (block + count))
        have hsame : Function.update (fun place => if block ≤ place ∧ place < block + count then
            memory place else world.heap.memory place) (block + count) (memory (block + count)) =
            fun place => if block ≤ place ∧ place < block + (count + 1) then memory place
              else world.heap.memory place := by
          funext place
          by_cases hplace : place = block + count
          · subst hplace
            rw [Function.update_self, if_pos (by omega)]
          · rw [Function.update_of_ne hplace]
            by_cases hinside : block ≤ place ∧ place < block + count
            · rw [if_pos hinside, if_pos (by omega)]
            · rw [if_neg hinside, if_neg (by omega)]
        simp only [hsame] at hstep
        exact hstep
  have hall := hpart size le_rfl
  have hsame : (fun place => if block ≤ place ∧ place < block + size then memory place
      else world.heap.memory place) = memory := by
    funext place
    split
    · rfl
    · exact (hframe place (by omega)).symm
  rwa [hsame] at hall

/-! ## Shrinking goes wrong -/

/-- A call on a reachable heap that returns without moving the block as it should. -/
def Misplaces (size newSize : Nat) : Prop :=
  ∃ world block heap newBlock, runs.Reachable world ∧ (block, size) ∈ world.live ∧
    heapRealloc world.heap block newSize = .ok (heap, newBlock) ∧
    ¬ Reallocated world block size newBlock newSize heap

/-- A tag behind the new block that reads as reserved belongs to no live block. -/
theorem not_reallocated_of_reserved {tags' : List Tag} {behind : Tag} {live : List (Nat × Nat)}
    (hold : Invariant ⟨next, (newBlock, newSize) :: live⟩ tags) (hbehind : behind ∈ tags)
    (hfree : behind.nextReserved = false) (htags : heap.tags = tags')
    (hlive : world.live = live)
    (hreserved : ∃ tag ∈ tags', tag.addr = behind.addr ∧ tag.nextReserved = true) :
    ¬ Reallocated world block size newBlock newSize heap := by
  intro hmoved
  obtain ⟨tag, htag, haddr, hflag⟩ := hreserved
  have hmem := (hmoved.consistent.live (tag.addr + tagSize) tag.nextSize).mpr
    ⟨tag, by rw [htags]; exact htag, hflag, rfl, rfl⟩
  have hmem' : (tag.addr + tagSize, tag.nextSize) ∈ (newBlock, newSize) :: live := by
    rw [← hlive]
    rcases List.mem_cons.mp hmem with h | h
    · exact List.mem_cons.mpr (.inl h)
    · exact List.mem_cons_of_mem _ (List.mem_of_mem_erase h)
  obtain ⟨owner, howner, hownerFlag, hownerAddr, _⟩ := (hold.live _ _).mp hmem'
  have hsame : owner = behind := by
    rcases hold.layout.eq_or_before howner hbehind with h | h | h
    · exact h
    · simp only [Before, tagSize] at h hownerAddr
      omega
    · simp only [Before, tagSize] at h hownerAddr
      omega
  rw [hsame, hfree] at hownerFlag
  contradiction

/-- The tag of a live block, given where it stands. -/
theorem Invariant.nextSize_of_live (hworld : Invariant world tags) (htag : tag ∈ tags)
    (hreserved : tag.nextReserved = true) (hlive : (tag.addr + tagSize, size) ∈ world.live) :
    tag.nextSize = size :=
  hworld.live_unique hlive ((hworld.live _ _).mpr ⟨tag, htag, hreserved, rfl, rfl⟩)

/-- The old block stands right before the new one: its surplus bytes land on
the tag behind the new block, and a byte that is not 0 makes that tag reserved. -/
theorem not_reallocated_of_spill {grown : Heap} {old fresh behind : Tag}
    (hgrown : Invariant ⟨grown, (fresh.addr + tagSize, newSize) :: world.live⟩
      (front ++ old :: fresh :: behind :: after))
    (hcall : heapAlloc world.heap newSize = .ok (grown, fresh.addr + tagSize))
    (hlive : (old.addr + tagSize, size) ∈ world.live)
    (hfront : ∀ tag ∈ front, tag.nextReserved = true) (hold : old.nextReserved = true)
    (hfresh : fresh.nextReserved = true) (hbehind : behind.nextReserved = false)
    (hsmaller : newSize < size) (hbyte : grown.memory (old.addr + tagSize + newSize) ≠ 0) :
    ∃ heap, heapRealloc world.heap (old.addr + tagSize) newSize =
        .ok (heap, fresh.addr + tagSize) ∧
      ¬ Reallocated world (old.addr + tagSize) size (fresh.addr + tagSize) newSize heap := by
  have hlayout := hgrown.layout
  have hliveGrown : (old.addr + tagSize, size) ∈
      (fresh.addr + tagSize, newSize) :: world.live := List.mem_cons_of_mem _ hlive
  have holdSize := hgrown.nextSize_of_live (by simp) hold hliveGrown
  have hfreshSize := hgrown.nextSize_of_live (by simp) hfresh List.mem_cons_self
  have holdFresh := hlayout.adjacent
  have hfreshBehind : Adjacent fresh behind :=
    (isChain_splice.mp hlayout.chain).2.2.2.1 behind rfl
  have haddr := holdFresh.addr
  have haddrBehind := hfreshBehind.addr
  have htail := hlayout.mem_le_tail (show fresh ∈ _ by simp)
  have hbound := hlayout.bound
  generalize hmemory : copyBytes grown.memory (fresh.addr + tagSize) (old.addr + tagSize) size =
    memory
  have hkeep : ∀ tag ∈ front ++ [old, fresh], readTag memory tag.addr = tag := by
    intro tag htag
    rw [← hmemory, readTag_copyBytes_of_disjoint, hlayout.read tag]
    · simp only [List.mem_append, List.mem_cons, List.not_mem_nil, or_false] at htag ⊢
      tauto
    · left
      simp only [List.mem_append, List.mem_cons, List.not_mem_nil, or_false] at htag
      rcases htag with h | rfl | rfl
      · have := hlayout.before_first h
        simp only [Before] at this
        omega
      · omega
      · exact le_rfl
  have hprev : old.prevSize = 0 ∨ ∃ earlier, readTag memory earlier.addr = earlier ∧
      earlier.nextReserved = true ∧ old.addr = earlier.addr + old.prevSize + tagSize := by
    rcases List.eq_nil_or_concat' front with rfl | ⟨before, earlier, rfl⟩
    · obtain ⟨head, hhead, _, hzero⟩ := hlayout.first
      cases hhead
      exact .inl hzero
    · have hadjacent : Adjacent earlier old :=
        (isChain_splice.mp hlayout.chain).2.1 earlier (by simp)
      have hplace := hadjacent.addr
      rw [← hadjacent.sizes] at hplace
      exact .inr ⟨earlier, hkeep earlier (by simp), hfront earlier (by simp), hplace⟩
  have hfreed := @heapFree_alone { grown with memory } fresh old (hkeep old (by simp))
    (hkeep fresh (by simp)) haddr (by omega) hold (.inl hfresh) holdFresh.sizes hprev
  rw [← hmemory] at hfreed
  have hrealloc := heapRealloc_eq hcall (hgrown.nextSize_eq hliveGrown) hfreed
  rw [hmemory] at hrealloc
  refine ⟨_, hrealloc, ?_⟩
  generalize hlast : setNextReserved (setPrevSize memory fresh.addr old.nextSize) old.addr false =
    last
  have hflag : nextReserved last behind.addr = true := by
    have hcopied : memory behind.addr = grown.memory (old.addr + tagSize + newSize) := by
      rw [← hmemory, haddrBehind, hfreshSize, Nat.add_right_comm]
      exact copyBytes_apply (.inr (by omega)) hsmaller
    rw [← hlast, nextReserved, setNextReserved, storeLE_apply_of_outside (by omega), setPrevSize,
      storeLE_apply_of_outside (by simp only [tagSize] at *; omega), hcopied]
    simpa using hbyte
  have hsizes : ∀ tag ∈ front ++ [old, fresh], nextSize last tag.addr = tag.nextSize := by
    intro tag htag
    rw [← hlast, ← congrArg Tag.nextSize (hkeep tag htag), ← nextSize_eq, nextSize,
      setNextReserved, loadLE_storeLE_of_disjoint, setPrevSize, loadLE_storeLE_of_disjoint, nextSize]
    all_goals
      simp only [List.mem_append, List.mem_cons, List.not_mem_nil, or_false] at htag
      rcases htag with h | rfl | rfl
    all_goals try have := hlayout.before_first h
    all_goals
      simp only [Before, tagSize] at *
      omega
  have hgap : front ++ old :: fresh :: behind :: after =
      (front ++ [old, fresh]) ++ behind :: after := by simp
  rw [hgap] at hlayout
  obtain ⟨more, htags⟩ := @tags_of_sizes after (front ++ [old, fresh]) behind
    { grown with memory := last, allocSize := u64 (grown.allocSize + 2 ^ 64 - old.nextSize) } grown
    hlayout rfl hsizes
  refine not_reallocated_of_reserved hgrown (show behind ∈ _ by simp) hbehind htags rfl
    ⟨readTag last behind.addr, by simp, rfl, hflag⟩

/-- A heap and a block in it for which the spill goes wrong. -/
theorem misplaces_of_spill (hhole : Hole world front hole tail) (hpos : 0 < newSize)
    (hsmaller : newSize < size) (hlarge : size + tagSize + 1 < hole.nextSize)
    (hroom : hole.nextSize = size + newSize + tagSize ∨
      size + newSize + 2 * tagSize + 2 ≤ hole.nextSize) : Misplaces size newSize := by
  obtain ⟨heap, tail', htaken⟩ := hhole.alloc (by omega) hlarge
  have hlive : (hole.addr + tagSize, size) ∈ (hole.addr + tagSize, size) :: world.live := by simp
  have hreach := runs_write htaken.reach hlive hsmaller 1
  have hwritten := @Invariant.write _ _ htaken.invariant _ _ newSize 1 hlive hsmaller
  have hbound := hhole.size_lt
  -- the new block comes right behind the old one
  have hfits : Fits (midTag hole size) newSize := ⟨rfl, by simp only [midTag]; omega⟩
  obtain ⟨grown, rest, hcall, hallocated, hgrown, hrest⟩ := hwritten.alloc_at htaken.skip hfits hpos
    (by simp only [heapInitialSize] at hbound; omega)
  have hbehind : ∃ behind after, rest = behind :: after ∧ behind.nextReserved = false := by
    rcases hrest with ⟨_, rfl⟩ | ⟨_, rfl⟩
    · exact ⟨tail', [], rfl, htaken.tail_last.2.1⟩
    · exact ⟨_, _, rfl, rfl⟩
  obtain ⟨behind, after, rfl, hfree⟩ := hbehind
  rw [List.append_assoc, List.singleton_append] at hgrown
  have hbyte : grown.memory (hole.addr + tagSize + newSize) ≠ 0 := by
    rw [hallocated.frame _ _ ((hwritten.live _ _).mp hlive) ⟨by omega, by omega⟩]
    simp
  have hspill := @not_reallocated_of_spill after front _ size newSize grown
    { hole with nextReserved := true, nextSize := size }
    { midTag hole size with nextReserved := true, nextSize := newSize } behind hgrown
  obtain ⟨last, hrealloc, hmoved⟩ := hspill hcall hlive hhole.reserved rfl rfl hfree hsmaller hbyte
  exact ⟨_, _, _, _, hreach, hlive, hrealloc, hmoved⟩

/-- The new block stands right before the old one: the surplus bytes land on the
tag of the old block. If they read as a tag of the same block that has no
block before it, the old block is freed with a size that no longer matches. -/
theorem not_reallocated_of_forgery {grown : Heap} {old fresh : Tag}
    (hgrown : Invariant ⟨grown, (fresh.addr + tagSize, newSize) :: world.live⟩
      (front ++ fresh :: old :: following :: after))
    (hcall : heapAlloc world.heap newSize = .ok (grown, fresh.addr + tagSize))
    (hlive : (old.addr + tagSize, size) ∈ world.live) (hpos : 0 < newSize)
    (hfresh : fresh.nextReserved = true) (hold : old.nextReserved = true)
    (hfollowing : following.nextReserved = true ∨ following.nextSize = 0)
    (hsurplus : newSize + tagSize ≤ size)
    (hforged : readTag grown.memory (old.addr + tagSize + newSize) =
      { addr := old.addr + tagSize + newSize, nextReserved := true, prevSize := 0,
        nextSize := size }) :
    ∃ heap, heapRealloc world.heap (old.addr + tagSize) newSize =
        .ok (heap, fresh.addr + tagSize) ∧
      ¬ Reallocated world (old.addr + tagSize) size (fresh.addr + tagSize) newSize heap := by
  have hlayout := hgrown.layout
  have hliveGrown : (old.addr + tagSize, size) ∈
      (fresh.addr + tagSize, newSize) :: world.live := List.mem_cons_of_mem _ hlive
  have holdSize := hgrown.nextSize_of_live (by simp) hold hliveGrown
  have hfreshSize := hgrown.nextSize_of_live (by simp) hfresh List.mem_cons_self
  have hfreshOld := hlayout.adjacent
  have holdFollowing : Adjacent old following :=
    (isChain_splice.mp hlayout.chain).2.2.2.1 following rfl
  have haddr := hfreshOld.addr
  have haddrFollowing := holdFollowing.addr
  have htail := hlayout.mem_le_tail (show following ∈ _ by simp)
  have hbound := hlayout.bound
  generalize hmemory : copyBytes grown.memory (fresh.addr + tagSize) (old.addr + tagSize) size =
    memory
  have hread : readTag memory old.addr =
      { addr := old.addr, nextReserved := true, prevSize := 0, nextSize := size } := by
    have hplace : old.addr = fresh.addr + tagSize + newSize := by omega
    have hcopied := @readTag_copyBytes grown.memory (fresh.addr + tagSize) (old.addr + tagSize) size
      newSize (.inl (by omega)) hsurplus
    rw [hmemory, ← hplace, hforged] at hcopied
    exact hcopied
  have hkeep : ∀ tag ∈ front ++ [fresh], readTag memory tag.addr = tag := by
    intro tag htag
    rw [← hmemory, readTag_copyBytes_of_disjoint, hlayout.read tag]
    · simp only [List.mem_append, List.mem_cons, List.not_mem_nil, or_false] at htag ⊢
      tauto
    · left
      simp only [List.mem_append, List.mem_cons, List.not_mem_nil, or_false] at htag
      rcases htag with h | rfl
      · have := hlayout.before_first h
        simp only [Before] at this
        omega
      · exact le_rfl
  have hreadFollowing : readTag memory following.addr = following := by
    rw [← hmemory, readTag_copyBytes_of_disjoint (.inr (by omega)), hlayout.read following (by simp)]
  have hfreed := @heapFree_alone { grown with memory } following
    { addr := old.addr, nextReserved := true, prevSize := 0, nextSize := size } hread hreadFollowing
    (by simp only; omega) (by omega) rfl hfollowing (by rw [holdFollowing.sizes, holdSize])
    (.inl rfl)
  rw [← hmemory] at hfreed
  have hrealloc := heapRealloc_eq hcall (hgrown.nextSize_eq hliveGrown) hfreed
  rw [hmemory] at hrealloc
  refine ⟨_, hrealloc, ?_⟩
  generalize hlast : setNextReserved (setPrevSize memory following.addr size) old.addr false = last
  have hsizes : ∀ tag ∈ front ++ [fresh], nextSize last tag.addr = tag.nextSize := by
    intro tag htag
    have hbefore : tag.addr + tagSize ≤ old.addr := by
      simp only [List.mem_append, List.mem_cons, List.not_mem_nil, or_false] at htag
      rcases htag with h | rfl
      · have := hlayout.before_first h
        simp only [Before] at this
        omega
      · omega
    rw [nextSize_eq, ← hlast, readTag_setNextReserved_of_disjoint (.inl hbefore),
      readTag_setPrevSize_of_disjoint (.inl (by omega)), hkeep tag htag]
  have hzero : (readTag last old.addr).prevSize = 0 := by
    rw [← hlast, readTag_setNextReserved_self, readTag_setPrevSize_of_disjoint (.inl (by omega)),
      hread]
  rw [List.append_cons] at hlayout
  obtain ⟨more, htags⟩ := @tags_of_sizes (following :: after) (front ++ [fresh]) old
    { grown with memory := last, allocSize := u64 (grown.allocSize + 2 ^ 64 - size) } grown
    hlayout rfl hsizes
  intro hmoved
  have hchain := hmoved.consistent.sizes
  simp only at hchain
  rw [htags, List.map_append, List.append_assoc, List.isChain_append] at hchain
  have hjoin := (List.isChain_cons_cons.mp hchain.2.1).1
  have hsize := hsizes fresh (by simp)
  have hbackward : (readTag last old.addr).prevSize = (readTag last fresh.addr).nextSize := hjoin
  rw [nextSize_eq, hfreshSize] at hsize
  omega

/-! ### Heaps for the forgery -/

/-- Take a block from the hole; if a rest is left, take that too. -/
theorem Hole.alloc_shut (hhole : Hole world front hole tail) (hpos : 0 < size)
    (hroom : hole.nextSize = size ∨ size + tagSize + 2 ≤ hole.nextSize) :
    ∃ next following after, runs.Reachable next ∧
      Invariant next (front ++ { hole with nextReserved := true, nextSize := size } :: following ::
        after) ∧ (following.nextReserved = true ∨ following.nextSize = 0) ∧
      (hole.addr + tagSize, size) ∈ next.live ∧ ∀ pair ∈ world.live, pair ∈ next.live := by
  rcases hroom with hexact | hroom
  · obtain ⟨heap, hreach, hnext⟩ := hhole.fill (by omega)
    subst hexact
    exact ⟨_, tail, [], hreach, hnext, .inr hhole.tail_last.1, List.mem_cons_self,
      fun _ hmem => List.mem_cons_of_mem _ hmem⟩
  · obtain ⟨heap, tail', htaken⟩ := hhole.alloc hpos (by omega)
    obtain ⟨shut, hreach, hnext⟩ := htaken.fill (by simp only [midTag]; omega)
    rw [List.append_assoc, List.singleton_append] at hnext
    exact ⟨_, _, [tail'], hreach, hnext, .inl rfl, by simp, fun _ hmem => by simp [hmem]⟩

/-- A free between blocks in use leaves a hole of the size of the block. -/
theorem Invariant.free_alone (hworld : Invariant world (before ++ tag :: following :: after))
    (hreserved : tag.nextReserved = true)
    (hfollowing : following.nextReserved = true ∨ following.nextSize = 0)
    (hprev : ∀ earlier ∈ before.getLast?, earlier.nextReserved = true)
    (hlive : (tag.addr + tagSize, size) ∈ world.live) :
    ∃ heap, heapFree world.heap (tag.addr + tagSize) = .ok heap ∧
      Invariant ⟨heap, world.live.erase (tag.addr + tagSize, size)⟩
        (before ++ { tag with nextReserved := false } :: following :: after) := by
  have hmerged := merged_of_reserved hworld.layout hreserved hfollowing
  have hfree := heapFree_eq_clear hworld.layout hreserved hmerged hprev
  obtain ⟨_, tags', hnext⟩ := hworld.free hlive hfree
  have hlayout := layout_clear hmerged.layout hprev hfollowing
    (u64 (world.heap.allocSize + 2 ^ 64 - tag.nextSize))
  obtain rfl := hnext.layout.tags_eq.symm.trans hlayout.tags_eq
  exact ⟨_, hfree, hnext⟩

/-- Two neighbouring live blocks: the first is freed, the owner of the second
puts a tag among its bytes, and the call takes the first one again. -/
theorem misplaces_of_neighbours {old fresh : Tag} (hreach : runs.Reachable world)
    (hworld : Invariant world (front ++ fresh :: old :: following :: after))
    (hfront : ∀ tag ∈ front, tag.nextReserved = true) (hfresh : fresh.nextReserved = true)
    (hold : old.nextReserved = true)
    (hfollowing : following.nextReserved = true ∨ following.nextSize = 0)
    (hliveFresh : (fresh.addr + tagSize, newSize) ∈ world.live)
    (hlive : (old.addr + tagSize, size) ∈ world.live) (hpos : 0 < newSize)
    (hsurplus : newSize + tagSize ≤ size) : Misplaces size newSize := by
  have hfreshSize := hworld.nextSize_of_live (by simp) hfresh hliveFresh
  have holdSize := hworld.nextSize_of_live (by simp) hold hlive
  have hbound := hworld.layout.nextSize_lt (show old ∈ _ by simp)
  obtain ⟨freed, hfree, hfreed⟩ := hworld.free_alone hfresh (.inl hold)
    (fun earlier hearlier => hfront earlier (List.mem_of_getLast? hearlier)) hliveFresh
  have hne : fresh.addr + tagSize ≠ old.addr + tagSize := by
    have := hworld.layout.adjacent.addr
    simp only [tagSize] at *
    omega
  have hkept : (old.addr + tagSize, size) ∈ world.live.erase (fresh.addr + tagSize, newSize) :=
    (List.mem_erase_of_ne fun hpair => hne (Prod.mk.inj hpair).1.symm).mpr hlive
  have hreachFreed := runs_step hreach (CallStep.free hliveFresh hfree) trivial
  -- the owner of the second block writes the tag
  generalize hplace : old.addr + tagSize + newSize = place
  generalize hmemory : setNextReserved (setPrevSize (setNextSize freed.memory place size) place 0)
    place true = memory
  have hforged : readTag memory place =
      { addr := place, nextReserved := true, prevSize := 0, nextSize := size } := by
    rw [← hmemory, readTag_setNextReserved_self, readTag_setPrevSize_self (by decide),
      readTag_setNextSize_self (by simp only [heapInitialSize] at hbound; omega)]
    rfl
  have hframe : ∀ other, other < old.addr + tagSize ∨ old.addr + tagSize + size ≤ other →
      memory other = freed.memory other := by
    intro other hother
    rw [← hmemory]
    simp only [setNextReserved, setPrevSize, setNextSize, tagSize] at *
    iterate 3 rw [storeLE_apply_of_outside (by omega)]
  have hreachForged := reachable_overwrite hreachFreed hkept hframe
  have hforgery := hfreed.overwrite hkept hframe
  obtain ⟨grown, rest, hcall, hallocated, hgrown, hrest⟩ := hforgery.alloc_at
    (fun tag htag hpasses => absurd hpasses.1 (by simp [hfront tag htag])) ⟨rfl, .inl hfreshSize⟩
    hpos
    (by simp only [heapInitialSize, tagSize] at *; omega)
  obtain rfl : rest = old :: following :: after := by
    rcases hrest with ⟨_, hrest⟩ | ⟨hlarge, _⟩
    · exact hrest
    · simp only at hlarge
      omega
  have hread : readTag grown.memory (old.addr + tagSize + newSize) =
      { addr := old.addr + tagSize + newSize, nextReserved := true, prevSize := 0,
        nextSize := size } := by
    rw [hplace, ← hforged]
    refine readTag_congr fun other hother => ?_
    have hlower := hother.1
    have hupper := hother.2
    exact hallocated.frame _ _ ((hforgery.live _ _).mp hkept) ⟨by omega, by omega⟩
  have hsurplusLost := @not_reallocated_of_forgery after front following _ size newSize grown old
    { fresh with nextReserved := true, nextSize := newSize } hgrown hcall hkept hpos rfl hold
    hfollowing hsurplus hread
  obtain ⟨last, hrealloc, hmoved⟩ := hsurplusLost
  exact ⟨_, _, _, _, hreachForged, hkept, hrealloc, hmoved⟩

/-- A heap and a block in it, with contents that read as a tag, for which the
surplus goes wrong. -/
theorem misplaces_of_forgery (hhole : Hole world front hole tail) (hpos : 0 < newSize)
    (hsurplus : newSize + tagSize ≤ size)
    (hroom : hole.nextSize = size + newSize + tagSize ∨
      size + newSize + 2 * tagSize + 2 ≤ hole.nextSize) : Misplaces size newSize := by
  have htagSize : tagSize = 24 := rfl
  obtain ⟨heap, tail', htaken⟩ := hhole.alloc hpos (by omega)
  obtain ⟨full, following, after, hreach, hfull, hfollowing, hlive, hkept⟩ :=
    htaken.alloc_shut (show 0 < size by omega) (by simp only [midTag]; omega)
  rw [List.append_assoc, List.singleton_append] at hfull
  exact misplaces_of_neighbours hreach hfull hhole.reserved rfl rfl hfollowing
    (hkept _ List.mem_cons_self) hlive hpos hsurplus

/-! ## When a reallocation does what it should -/

/-- For two blocks that fit together, a smaller new one can go wrong. -/
theorem misplaces_of_smaller (hpos : 0 < newSize) (hsmaller : newSize < size)
    (htogether : Together size newSize) : Misplaces size newSize := by
  obtain ⟨world, front, hole, tail, hhole, hwhole, hroom⟩ := exists_hole htogether
  rcases Nat.lt_or_ge size (newSize + tagSize) with hclose | hsurplus
  · refine misplaces_of_spill hhole hpos hsmaller ?_ hroom
    simp only [sectorSize, heapInitialSize, tagSize] at *
    omega
  · exact misplaces_of_forgery hhole hpos hsurplus hroom

theorem heap_realloc_moves (hpos : 0 < newSize) :
    (∀ world, runs.Reachable world → ∀ block, (block, size) ∈ world.live →
      ∀ heap newBlock, heapRealloc world.heap block newSize = .ok (heap, newBlock) →
        Reallocated world block size newBlock newSize heap) ↔
      size ≤ newSize ∨ ¬ Together size newSize := by
  constructor
  · intro hmoves
    by_contra hno
    simp only [not_or, not_le, not_not] at hno
    obtain ⟨world, block, heap, newBlock, hreach, hlive, hcall, hfails⟩ :=
      misplaces_of_smaller hpos hno.1 hno.2
    exact hfails (hmoves world hreach block hlive heap newBlock hcall)
  · intro hsizes world hreach block hlive heap newBlock hcall
    obtain ⟨tags, hworld⟩ := hreach.invariant runs_inductive
    rcases hsizes with hgrows | hapart
    · exact (hworld.realloc hlive hgrows hcall).2
    · -- the new block would have to fit beside the old one
      obtain ⟨grown, halloc, _⟩ := heapRealloc_eq_ok hcall
      obtain ⟨hpos, hsize⟩ := hworld.heapAlloc_ok halloc
      obtain ⟨hallocated, tags', hgrown⟩ := hworld.alloc hpos hsize halloc
      refine absurd (hgrown.together (List.mem_cons_of_mem _ hlive) List.mem_cons_self ?_) hapart
      rintro rfl
      exact hallocated.fresh size ((hworld.live block size).mp hlive)

/-- A block of 48 bytes of a fresh heap is reallocated to its own size. -/
theorem heap_realloc_moves_same_size : ∃ world heap newBlock, runs.Reachable world ∧
    (pagingHeapVaddr + 24, 48) ∈ world.live ∧
    heapRealloc world.heap (pagingHeapVaddr + 24) 48 = .ok (heap, newBlock) ∧
    Reallocated world (pagingHeapVaddr + 24) 48 newBlock 48 heap := by
  have hcompute : ((heapAlloc (heapInit fun _ => 0) 48).toOption.bind fun taken =>
      (heapRealloc taken.1 taken.2 48).toOption.map fun last => (taken.2, last.2)) =
      some (pagingHeapVaddr + 24, pagingHeapVaddr + 96) := by decide +kernel
  obtain ⟨⟨taken, block⟩, htaken, hcompute⟩ := Option.bind_eq_some_iff.mp hcompute
  obtain ⟨⟨last, newBlock⟩, hlast, hcompute⟩ := Option.map_eq_some_iff.mp hcompute
  obtain rfl : block = pagingHeapVaddr + 24 := (Prod.mk.inj hcompute).1
  have hreach : runs.Reachable ⟨taken, [(pagingHeapVaddr + 24, 48)]⟩ :=
    runs_step (.init ⟨_, rfl⟩) (CallStep.alloc (toOption_eq_some.mp htaken)) trivial
  have hcall := toOption_eq_some.mp hlast
  exact ⟨_, last, newBlock, hreach, List.mem_cons_self, hcall,
    (heap_realloc_moves (by decide)).mpr (.inl (by decide)) _ hreach _ List.mem_cons_self _ _
      hcall⟩

/-- A block of 48 bytes whose byte 24 is 1 is reallocated to 24 bytes: the tag
behind the new block becomes that of a reserved block nobody holds. -/
theorem heap_realloc_spills : ∃ world heap newBlock, runs.Reachable world ∧
    world.live = [(pagingHeapVaddr + 24, 48)] ∧
    world.heap.memory (pagingHeapVaddr + 24 + 24) = 1 ∧
    heapRealloc world.heap (pagingHeapVaddr + 24) 24 = .ok (heap, newBlock) ∧
    ¬ Reallocated world (pagingHeapVaddr + 24) 48 newBlock 24 heap := by
  have hcompute : ((heapAlloc (heapInit fun _ => 0) 48).toOption.bind fun taken =>
      (heapRealloc { taken.1 with memory := Function.update taken.1.memory (taken.2 + 24) 1 }
        taken.2 24).toOption.map fun last => (taken.2, last.2, last.1.tags[2]?)) =
      some (pagingHeapVaddr + 24, pagingHeapVaddr + 96,
        some ⟨pagingHeapVaddr + 120, true, 0, 0⟩) := by decide +kernel
  obtain ⟨⟨taken, block⟩, htaken, hcompute⟩ := Option.bind_eq_some_iff.mp hcompute
  obtain ⟨⟨last, newBlock⟩, hlast, hcompute⟩ := Option.map_eq_some_iff.mp hcompute
  obtain ⟨hblock, hrest⟩ := Prod.mk.inj hcompute
  obtain ⟨hnewBlock, htag⟩ := Prod.mk.inj hrest
  simp only at hblock hnewBlock htag
  subst hblock hnewBlock
  have hcall := toOption_eq_some.mp htaken
  have hrealloc := toOption_eq_some.mp hlast
  have htakenReach : runs.Reachable ⟨taken, [(pagingHeapVaddr + 24, 48)]⟩ :=
    runs_step (.init ⟨_, rfl⟩) (CallStep.alloc hcall) trivial
  have hreach := runs_write htakenReach List.mem_cons_self (show 24 < 48 by decide) 1
  have hbyte : Function.update taken.memory (pagingHeapVaddr + 24 + 24) (1 : UInt8)
      (pagingHeapVaddr + 24 + 24) = 1 := Function.update_self ..
  refine ⟨_, last, pagingHeapVaddr + 96, hreach, rfl, hbyte, hrealloc, ?_⟩
  intro hmoved
  have hmem : (pagingHeapVaddr + 120 + tagSize, 0) ∈
      (pagingHeapVaddr + 96, 24) :: [(pagingHeapVaddr + 24, 48)].erase (pagingHeapVaddr + 24, 48) :=
    (hmoved.consistent.live (pagingHeapVaddr + 120 + tagSize) 0).mpr
      ⟨_, List.mem_of_getElem? htag, rfl, rfl, rfl⟩
  revert hmem
  decide

end PKernel.Heap
