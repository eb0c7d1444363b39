import PKernel.Library.Transition
import PKernel.Paging.ContiguousSearch

/-! # The physical allocator

`physical_allocator.c` on top of the bitmap, and runs of it. A run allocates
and frees pallocs in any order, while other parts of the kernel take pages for
themselves with `bitmap_reserve`. `bitmap_free` computes a bit index from the
address alone, where `bitmap_reserve` counts from the start of the area, so
freeing a palloc clears bits that can belong to others.
-/

namespace PKernel

open Bitmap Library.Transition

inductive PallocType where
  | alloc
  | contiguousAlloc
  | contiguousMap
deriving DecidableEq, Repr

/-- `palloc_t`, with the array behind `paddrs`. -/
structure Palloc where
  type : PallocType
  sizePages : Nat
  paddrCount : Nat
  paddrs : List Nat
deriving DecidableEq, Repr

/-- The loop of `palloc_alloc`. -/
def Palloc.reserveMany (area : Area) (words : Words) : Nat → List Nat × Words
  | 0 => ([], words)
  | count + 1 =>
      let earlier := Palloc.reserveMany area words count
      let last := bitmapReserve area earlier.2
      (earlier.1 ++ [last.1], last.2)

/-- `palloc_alloc`. The array comes from the heap, which panics on zero bytes. -/
def pallocAlloc (area : Area) (words : Words) (size : Nat) : Except Fault (Palloc × Words) :=
  let sizePages := divUp size pageSize
  if u64 (sizePages * 8) = 0 then .error (.panic "Zero byte allocation" [])
  else
    let reserved := Palloc.reserveMany area words sizePages
    .ok (⟨.alloc, sizePages, sizePages, reserved.1⟩, reserved.2)

/-- `palloc_alloc_contiguous`. -/
def pallocAllocContiguous (area : Area) (words : Words) (size paddr : Nat) : Palloc × Words :=
  let sizePages := divUp size pageSize
  if paddr = 0 then
    let reserved := bitmapReserveContiguous area words sizePages
    (⟨.contiguousAlloc, sizePages, 1, [reserved.1]⟩, reserved.2)
  else (⟨.contiguousMap, sizePages, 1, [paddr]⟩, words)

/-- `palloc_free`. -/
def pallocFree (words : Words) (palloc : Palloc) : Words :=
  match palloc.type with
  | .alloc => (palloc.paddrs.take palloc.paddrCount).foldl
      (fun words paddr => (bitmapFree words paddr 1).2) words
  | .contiguousAlloc => (bitmapFree words (palloc.paddrs.headD 0) palloc.sizePages).2
  | .contiguousMap => words

namespace Palloc

/-- The page addresses that a palloc records: one by one, or as the first of a
run. -/
def pages (palloc : Palloc) : List Nat :=
  match palloc.type with
  | .alloc => palloc.paddrs
  | .contiguousAlloc => palloc.paddrs ++
      (List.range palloc.sizePages).map fun i => palloc.paddrs.headD 0 + i * pageSize
  | .contiguousMap => []

/-! ## Runs -/

/-- The bitmap and the live pallocs. -/
structure World where
  words : Words
  live : List Palloc

inductive Op where
  | alloc (size : Nat)
  | contiguous (size : Nat)
  | free (palloc : Palloc)
  /-- Another part of the kernel takes a page for itself. -/
  | reserve
deriving DecidableEq

inductive Step (area : Area) (world : World) : Op → World → Prop
  | alloc {size : Nat} {palloc : Palloc} {words : Words} (hsize : size < 2 ^ 64)
      (hreturn : pallocAlloc area world.words size = .ok (palloc, words)) :
      Step area world (.alloc size) ⟨words, palloc :: world.live⟩
  | contiguous {size : Nat} (hsize : size < 2 ^ 64) :
      Step area world (.contiguous size)
        ⟨(pallocAllocContiguous area world.words size 0).2,
          (pallocAllocContiguous area world.words size 0).1 :: world.live⟩
  | free {palloc : Palloc} (hlive : palloc ∈ world.live) :
      Step area world (.free palloc) ⟨pallocFree world.words palloc, world.live.erase palloc⟩
  | reserve : Step area world .reserve ⟨(bitmapReserve area world.words).2, world.live⟩

/-- A run starts with the bitmap cleared by `paging_bitmap_init`. -/
def system (area : Area) : System World Op where
  init world := world = ⟨fun _ => 0#64, []⟩
  step := Step area

/-- No page belongs to two live pallocs, and recorded pages are real ones. -/
structure Exclusive (world : World) : Prop where
  page : ∀ palloc ∈ world.live, ∀ page ∈ palloc.pages, page ≠ 0 ∧ pageSize ∣ page
  disjoint : world.live.Pairwise fun first second => List.Disjoint first.pages second.pages

/-- When an operation keeps to pages that are its own. Allocations find enough
room that the search can end in, and the bits that freeing clears, computed
without the start of the area, are not those of another live palloc. -/
def Sound (area : Area) (world : World) : Op → Prop
  | .alloc size => divUp size pageSize ≤ (usable area world.words).card
  | .contiguous size => 0 < divUp size pageSize ∧
      ∃ goal, goal + divUp size pageSize ≤ area.availablePages ∧
        ∀ j < divUp size pageSize, getIndex world.words (goal + j) = false
  | .free palloc => ∀ other ∈ world.live.erase palloc, ∀ page ∈ palloc.pages,
      ∀ kept ∈ other.pages, ¬Reaches (page / pageSize) ((kept - area.start) / pageSize)
  | .reserve => True

variable {area : Area} {words new : Words} {world next : World} {op : Op}

/-! ## Pages that are taken -/

/-- The pages with these indexes were clear before and are set now. -/
structure Taken (area : Area) (words new : Words) (indexes : List Nat) : Prop where
  uniform : Uniform new
  mono : ∀ i, getIndex words i = true → getIndex new i = true
  available : ∀ i ∈ indexes, i < area.availablePages
  clear : ∀ i ∈ indexes, getIndex words i = false
  set : ∀ i ∈ indexes, getIndex new i = true

theorem reserveMany_spec (huniform : Uniform words) {count : Nat}
    (hroom : count ≤ (usable area words).card) :
    ∃ indexes, (reserveMany area words count).1 = indexes.map area.page ∧
      Taken area words (reserveMany area words count).2 indexes ∧
      (usable area words).card ≤ (usable area (reserveMany area words count).2).card + count := by
  induction count with
  | zero => exact ⟨[], rfl, ⟨huniform, fun _ h => h, by simp, by simp, by simp⟩, Nat.le_refl _⟩
  | succ count ih =>
      obtain ⟨indexes, hpaddrs, htaken, hcard⟩ := ih (by omega)
      obtain ⟨i, hi, hreserve⟩ := bitmapReserve_spec htaken.uniform
        (show 0 < (usable area (reserveMany area words count).2).card by omega)
      obtain ⟨havailable, hhalf, hclear⟩ := mem_usable.mp hi
      have hself : getIndex (setIndex (reserveMany area words count).2 i) i = true := by
        rw [getIndex_setIndex]
        have : Reaches i i := ⟨rfl, .inl (by omega)⟩
        simp [this]
      have hkeep : ∀ k, getIndex (reserveMany area words count).2 k = true →
          getIndex (setIndex (reserveMany area words count).2 i) k = true := by
        intro k hk
        rw [getIndex_setIndex, hk, Bool.true_or]
      simp only [reserveMany, hreserve]
      refine ⟨indexes ++ [i], by simp [hpaddrs], ⟨htaken.uniform.setIndex i, ?_, ?_, ?_, ?_⟩, ?_⟩
      · intro k hk
        exact hkeep k (htaken.mono k hk)
      · simpa [or_imp, forall_and, havailable] using htaken.available
      · have hbefore : getIndex words i = false := by
          by_contra hset
          have := htaken.mono i (by simpa using hset)
          simp [hclear] at this
        simpa [or_imp, forall_and, hbefore] using htaken.clear
      · intro k hk
        rcases List.mem_append.mp hk with h | h
        · exact hkeep k (htaken.set k h)
        · rw [List.mem_singleton.mp h]
          exact hself
      · rw [usable_setIndex hhalf, Finset.card_erase_of_mem hi]
        omega

theorem pallocAllocContiguous_type (area : Area) (words : Words) (size : Nat) :
    (pallocAllocContiguous area words size 0).1.type = .contiguousAlloc := by
  simp only [pallocAllocContiguous, ↓reduceIte]

theorem contiguous_spec (huniform : Uniform words) {size goal : Nat}
    (hpos : 0 < divUp size pageSize) (hinside : goal + divUp size pageSize ≤ area.availablePages)
    (hrun : ∀ j < divUp size pageSize, getIndex words (goal + j) = false) :
    ∃ indexes, (∀ page ∈ (pallocAllocContiguous area words size 0).1.pages,
        ∃ i ∈ indexes, page = area.page i) ∧
      Taken area words (pallocAllocContiguous area words size 0).2 indexes := by
  obtain ⟨i, hend, hhalf, hclear, hreserve⟩ := bitmapReserveContiguous_spec huniform hpos hinside hrun
  simp only [pallocAllocContiguous, ↓reduceIte, hreserve]
  refine ⟨(List.range (divUp size pageSize)).map (i + ·), ?_, huniform.setRun _ _, ?_, ?_, ?_, ?_⟩
  · intro page hpage
    simp only [pages, List.singleton_append, List.headD_cons, List.mem_cons, List.mem_map,
      List.mem_range] at hpage
    rcases hpage with rfl | ⟨j, hj, rfl⟩
    · exact ⟨i, List.mem_map.mpr ⟨0, List.mem_range.mpr hpos, rfl⟩, rfl⟩
    · refine ⟨i + j, List.mem_map.mpr ⟨j, List.mem_range.mpr hj, rfl⟩, ?_⟩
      rw [page_eq (by omega), page_eq (by omega), Nat.add_mul, Nat.add_assoc]
  · intro k hk
    exact getIndex_setRun.mpr (.inl hk)
  · intro k hk
    obtain ⟨j, hj, rfl⟩ := List.mem_map.mp hk
    have := List.mem_range.mp hj
    omega
  · intro k hk
    obtain ⟨j, hj, rfl⟩ := List.mem_map.mp hk
    exact hclear j (List.mem_range.mp hj)
  · intro k hk
    obtain ⟨j, hj, rfl⟩ := List.mem_map.mp hk
    exact getIndex_setRun_self hhalf (List.mem_range.mp hj)

theorem reserveMany_length (area : Area) (words : Words) (count : Nat) :
    (reserveMany area words count).1.length = count := by
  induction count with
  | zero => rfl
  | succ count ih => simp [reserveMany, ih]

theorem pallocAlloc_eq_ok {size : Nat} {palloc : Palloc}
    (hreturn : pallocAlloc area words size = .ok (palloc, new)) :
    ∃ count, count = divUp size pageSize ∧
      palloc = ⟨.alloc, count, count, (reserveMany area words count).1⟩ ∧
      new = (reserveMany area words count).2 := by
  simp only [pallocAlloc] at hreturn
  by_cases hzero : u64 (divUp size pageSize * 8) = 0
  · simp only [if_pos hzero] at hreturn
    cases hreturn
  · simp only [if_neg hzero, Except.ok.injEq, Prod.mk.injEq] at hreturn
    exact ⟨_, rfl, hreturn.1.symm, hreturn.2.symm⟩

/-- One more reservation sets bits and clears none. -/
theorem bitmapReserve_keeps (huniform : Uniform words) (area : Area) :
    Uniform (bitmapReserve area words).2 ∧
      ∀ i, getIndex words i = true → getIndex (bitmapReserve area words).2 i = true := by
  unfold bitmapReserve
  split
  · next i _ =>
      refine ⟨huniform.setIndex i, ?_⟩
      intro k hk
      rw [getIndex_setIndex, hk, Bool.true_or]
  · exact ⟨huniform, fun _ h => h⟩

theorem uniform_freeMany (huniform : Uniform words) (paddrs : List Nat) :
    Uniform (paddrs.foldl (fun words paddr => (bitmapFree words paddr 1).2) words) := by
  induction paddrs generalizing words with
  | nil => exact huniform
  | cons paddr paddrs ih => exact ih (huniform.bitmapFree paddr 1)

theorem getIndex_freeMany {i : Nat} (hset : getIndex words i = true) {paddrs : List Nat}
    (hreaches : ∀ paddr ∈ paddrs, ¬Reaches (paddr / pageSize) i) :
    getIndex (paddrs.foldl (fun words paddr => (bitmapFree words paddr 1).2) words) i = true := by
  induction paddrs generalizing words with
  | nil => exact hset
  | cons paddr paddrs ih =>
      refine ih (getIndex_bitmapFree hset ?_) fun paddr hpaddr =>
        hreaches paddr (List.mem_cons_of_mem _ hpaddr)
      intro j hj
      obtain rfl : j = 0 := by omega
      exact hreaches paddr List.mem_cons_self

theorem uniform_pallocFree (huniform : Uniform words) (palloc : Palloc) :
    Uniform (pallocFree words palloc) := by
  unfold pallocFree
  split
  · exact uniform_freeMany huniform _
  · exact huniform.bitmapFree _ _
  · exact huniform

theorem uniform_reserveMany (huniform : Uniform words) (area : Area) (count : Nat) :
    Uniform (reserveMany area words count).2 := by
  induction count with
  | zero => exact huniform
  | succ count ih => exact (bitmapReserve_keeps ih area).1

theorem uniform_contiguous (huniform : Uniform words) (area : Area) (size paddr : Nat) :
    Uniform (pallocAllocContiguous area words size paddr).2 := by
  unfold pallocAllocContiguous bitmapReserveContiguous
  dsimp only
  split
  next =>
    split
    · exact huniform.setRun _ _
    · exact huniform
  next => exact huniform

theorem uniform_zero : Uniform fun _ => 0#64 := by
  intro index other _ _ _
  simp [getIndex]

/-- The words of the bitmap are uniform in every run, whatever is freed. -/
theorem uniform_of_reachable (hreach : (system area).Reachable world) : Uniform world.words := by
  have hinductive : (system area).Inductive fun world => Uniform world.words := by
    constructor
    case init =>
      rintro world rfl
      exact uniform_zero
    case step =>
      intro world op next huniform hstep
      cases hstep with
      | alloc _ hreturn =>
          obtain ⟨count, _, _, rfl⟩ := pallocAlloc_eq_ok hreturn
          exact uniform_reserveMany huniform area count
      | contiguous _ => exact uniform_contiguous huniform area _ 0
      | free _ => exact uniform_pallocFree huniform _
      | reserve => exact (bitmapReserve_keeps huniform area).1
  exact hreach.invariant hinductive

/-! ## The invariant -/

/-- The live pallocs' pages are pages of the area whose bits are set. -/
structure Invariant (area : Area) (world : World) : Prop where
  uniform : Uniform world.words
  owned : ∀ palloc ∈ world.live, ∀ page ∈ palloc.pages,
    ∃ i < area.availablePages, page = area.page i ∧ getIndex world.words i = true
  disjoint : world.live.Pairwise fun first second => List.Disjoint first.pages second.pages
  /-- Every live palloc is one that the two allocating functions build. -/
  shape : ∀ palloc ∈ world.live, (palloc.type = .alloc ∧ palloc.paddrCount = palloc.paddrs.length) ∨
    palloc.type = .contiguousAlloc

namespace Invariant

theorem exclusive (hworld : Invariant area world) : Exclusive world := by
  refine ⟨?_, hworld.disjoint⟩
  intro palloc hpalloc page hpage
  obtain ⟨i, hi, rfl, -⟩ := hworld.owned palloc hpalloc page hpage
  exact ⟨page_ne_zero hi, pageSize_dvd_page hi⟩

/-- A new palloc of pages that were clear joins the live ones. -/
theorem take (hworld : Invariant area world) {palloc : Palloc} {indexes : List Nat}
    (htaken : Taken area world.words new indexes)
    (hpages : ∀ page ∈ palloc.pages, ∃ i ∈ indexes, page = area.page i)
    (hshape : (palloc.type = .alloc ∧ palloc.paddrCount = palloc.paddrs.length) ∨
      palloc.type = .contiguousAlloc) :
    Invariant area ⟨new, palloc :: world.live⟩ := by
  refine ⟨htaken.uniform, ?_, List.pairwise_cons.mpr ⟨?_, hworld.disjoint⟩, ?_⟩
  · intro holder hholder page hpage
    rcases List.mem_cons.mp hholder with rfl | hlive
    · obtain ⟨i, hi, rfl⟩ := hpages page hpage
      exact ⟨i, htaken.available i hi, rfl, htaken.set i hi⟩
    · obtain ⟨i, hi, rfl, hset⟩ := hworld.owned holder hlive page hpage
      exact ⟨i, hi, rfl, htaken.mono i hset⟩
  · intro holder hlive page hpage hheld
    obtain ⟨i, hi, rfl⟩ := hpages page hpage
    obtain ⟨k, hk, heq, hset⟩ := hworld.owned holder hlive _ hheld
    have hsame : i = k := by
      rw [← index_page (htaken.available i hi), heq, index_page hk]
    have hclear := htaken.clear i hi
    rw [hsame, hset] at hclear
    exact absurd hclear (by decide)
  · intro holder hholder
    rcases List.mem_cons.mp hholder with rfl | hlive
    · exact hshape
    · exact hworld.shape holder hlive

/-- Freeing a palloc keeps the bits that it does not reach. -/
theorem getIndex_pallocFree (hworld : Invariant area world) {palloc : Palloc}
    (hlive : palloc ∈ world.live) {i : Nat} (hset : getIndex world.words i = true)
    (hreaches : ∀ page ∈ palloc.pages, ¬Reaches (page / pageSize) i) :
    getIndex (pallocFree world.words palloc) i = true := by
  rcases hworld.shape palloc hlive with ⟨htype, hcount⟩ | htype
  · simp only [pallocFree, htype, hcount, List.take_length]
    simp only [pages, htype] at hreaches
    exact getIndex_freeMany hset hreaches
  · simp only [pallocFree, htype]
    refine getIndex_bitmapFree hset ?_
    intro j hj
    have hpage := hreaches (palloc.paddrs.headD 0 + j * pageSize) (by
      simp only [pages, htype]
      exact List.mem_append_right _ (List.mem_map.mpr ⟨j, List.mem_range.mpr hj, rfl⟩))
    rwa [Nat.add_mul_div_right _ _ (by decide)] at hpage

theorem free (hworld : Invariant area world) {palloc : Palloc} (hlive : palloc ∈ world.live)
    (hsound : Sound area world (.free palloc)) :
    Invariant area ⟨pallocFree world.words palloc, world.live.erase palloc⟩ := by
  refine ⟨uniform_pallocFree hworld.uniform palloc, ?_, ?_, ?_⟩
  · intro other hother page hpage
    obtain ⟨i, hi, rfl, hset⟩ := hworld.owned other (List.mem_of_mem_erase hother) page hpage
    refine ⟨i, hi, rfl, hworld.getIndex_pallocFree hlive hset ?_⟩
    intro freed hfreed
    have := hsound other hother freed hfreed _ hpage
    rwa [index_page hi] at this
  · exact hworld.disjoint.sublist List.erase_sublist
  · intro other hother
    exact hworld.shape other (List.mem_of_mem_erase hother)

theorem alloc (hworld : Invariant area world) {size : Nat} {palloc : Palloc}
    (hroom : divUp size pageSize ≤ (usable area world.words).card)
    (hreturn : pallocAlloc area world.words size = .ok (palloc, new)) :
    Invariant area ⟨new, palloc :: world.live⟩ := by
  obtain ⟨count, hcount, rfl, rfl⟩ := pallocAlloc_eq_ok hreturn
  rw [← hcount] at hroom
  obtain ⟨indexes, hpaddrs, htaken, -⟩ := reserveMany_spec hworld.uniform hroom
  refine hworld.take htaken ?_ (.inl ⟨rfl, (reserveMany_length area world.words _).symm⟩)
  intro page hpage
  simp only [pages, hpaddrs, List.mem_map] at hpage
  obtain ⟨i, hi, rfl⟩ := hpage
  exact ⟨i, hi, rfl⟩

theorem reserve (hworld : Invariant area world) :
    Invariant area ⟨(bitmapReserve area world.words).2, world.live⟩ := by
  obtain ⟨huniform, hkeep⟩ := bitmapReserve_keeps hworld.uniform area
  refine ⟨huniform, ?_, hworld.disjoint, hworld.shape⟩
  intro palloc hpalloc page hpage
  obtain ⟨i, hi, rfl, hset⟩ := hworld.owned palloc hpalloc page hpage
  exact ⟨i, hi, rfl, hkeep i hset⟩

theorem step (hworld : Invariant area world) (hsound : Sound area world op)
    (hstep : Step area world op next) : Invariant area next := by
  cases hstep with
  | alloc hsize hreturn => exact hworld.alloc hsound hreturn
  | contiguous hsize =>
      obtain ⟨hpos, goal, hinside, hrun⟩ := hsound
      obtain ⟨indexes, hpages, htaken⟩ := contiguous_spec hworld.uniform hpos hinside hrun
      exact hworld.take htaken hpages (.inr (pallocAllocContiguous_type area world.words _))
  | free hlive => exact hworld.free hlive hsound
  | reserve => exact hworld.reserve

theorem init (hinit : (system area).init world) : Invariant area world := by
  obtain rfl : world = ⟨fun _ => 0#64, []⟩ := hinit
  exact ⟨uniform_zero, by simp, List.Pairwise.nil, by simp⟩

end Invariant

/-- In every run whose steps are all sound no page belongs to two live pallocs. -/
theorem palloc_exclusive {area : Area} {world : World}
    (hreach : ((system area).restrict (Sound area)).Reachable world) : Exclusive world := by
  have hinductive : ((system area).restrict (Sound area)).Inductive (Invariant area) :=
    ⟨fun _ hinit => Invariant.init hinit,
      fun _ _ _ hworld hstep => hworld.step hstep.1 hstep.2⟩
  exact (hreach.invariant hinductive).exclusive

/-- Eight pages from `0x3000` on. -/
def smallArea : Area := ⟨0x3000, 8, by decide, by decide, by decide⟩

/-- The first palloc of `smallArea` holds page 0 and the second one pages 1 to 3.
Freeing the first clears the bit of page 3, which the next one then gets too. -/
theorem palloc_shares_page :
    ∃ world, (system smallArea).Reachable world ∧ ¬Exclusive world := by
  have hinit : (system smallArea).Reachable ⟨fun _ => 0#64, []⟩ := .init rfl
  have hfirst := System.Reachable.step hinit
    (@Step.alloc smallArea ⟨fun _ => 0#64, []⟩ 4096 ⟨.alloc, 1, 1, [0x3000]⟩
      (reserveMany smallArea (fun _ => 0#64) 1).2 (by decide) rfl)
  have hsecond := System.Reachable.step hfirst
    (@Step.alloc smallArea _ 12288 ⟨.alloc, 3, 3, [0x4000, 0x5000, 0x6000]⟩ _ (by decide) rfl)
  have hfreed := System.Reachable.step hsecond
    (@Step.free smallArea _ ⟨.alloc, 1, 1, [0x3000]⟩ (by decide))
  have hthird := System.Reachable.step hfreed
    (@Step.alloc smallArea _ 4096 ⟨.alloc, 1, 1, [0x6000]⟩ _ (by decide) rfl)
  refine ⟨_, hthird, ?_⟩
  intro hexclusive
  have hdisjoint := (List.pairwise_cons.mp hexclusive.disjoint).1
    ⟨.alloc, 3, 3, [0x4000, 0x5000, 0x6000]⟩ (by decide)
  exact hdisjoint (show 0x6000 ∈ [0x6000] by decide) (show 0x6000 ∈ [0x4000, 0x5000, 0x6000] by decide)

/-- A single page and then a run of two, with room for both. -/
theorem palloc_exclusive_after_two : ∃ world : World,
    world.live = [⟨.contiguousAlloc, 2, 1, [0x4000]⟩, ⟨.alloc, 1, 1, [0x3000]⟩] ∧
      ((system smallArea).restrict (Sound smallArea)).Reachable world ∧ Exclusive world := by
  have hinit : ((system smallArea).restrict (Sound smallArea)).Reachable ⟨fun _ => 0#64, []⟩ :=
    .init rfl
  have hroom : Sound smallArea ⟨fun _ => 0#64, []⟩ (.alloc 4096) :=
    show divUp 4096 pageSize ≤ (usable smallArea fun _ => 0#64).card by decide +kernel
  have hfirst := System.Reachable.step hinit ⟨hroom,
    @Step.alloc smallArea ⟨fun _ => 0#64, []⟩ 4096 ⟨.alloc, 1, 1, [0x3000]⟩
      (reserveMany smallArea (fun _ => 0#64) 1).2 (by decide) rfl⟩
  have hrun : Sound smallArea ⟨(reserveMany smallArea (fun _ => 0#64) 1).2,
      [⟨.alloc, 1, 1, [0x3000]⟩]⟩ (.contiguous 8192) := by
    refine ⟨by decide, 1, by decide, ?_⟩
    decide +kernel
  have hsecond := System.Reachable.step hfirst ⟨hrun, Step.contiguous (by decide)⟩
  exact ⟨_, rfl, hsecond, palloc_exclusive hsecond⟩

end Palloc

end PKernel
