import PKernel.Paging.Bitmap
import PKernel.Paging.Frames

/-! # Setting up the bitmap

`paging_bitmap_init`: where the bitmap and the tables of its window lie in the paging region, how
many pages it is for, and where the allocation region starts. The number of pages is what is left
of the region behind the tables; the bitmap itself is not subtracted.
-/

namespace PKernel.Bitmap

/-- `PAGING_BITMAP_VADDR`. -/
def bitmapVaddr : Nat := 0x008000000000

/-- The variables that `paging_bitmap_init` sets, and its two counts of tables. -/
structure Layout where
  bitmapSize : Nat
  availablePages : Nat
  ptCount : Nat
  pdtCount : Nat
  bitmapPaddr : Nat
  allocationRegionStart : Nat
  allocationRegionEnd : Nat
deriving DecidableEq, Repr

/-- The computations of `paging_bitmap_init`. -/
def layout (regionStart regionEnd : Nat) : Layout :=
  let regionSize := u64 (regionEnd + 2 ^ 64 - regionStart)
  let overestimate := u64 (divUp (regionSize / (pageSize * 8)) 8 * 8)
  let ptRegion := u64 (divUp overestimate (pageSize * 512) * pageSize)
  let pdtRegion := u64 (divUp overestimate (pageSize * 512 * 512) * pageSize)
  let remaining := u64 (u64 (regionSize + 2 ^ 64 - ptRegion) + 2 ^ 64 - pdtRegion)
  let ptCount := divUp overestimate (pageSize * 512)
  let pdtCount := divUp overestimate (pageSize * 512 * 512)
  let bitmapPaddr := u64 (regionStart + pageSize * (ptCount + pdtCount))
  { bitmapSize := overestimate
    availablePages := remaining / pageSize
    ptCount := ptCount
    pdtCount := pdtCount
    bitmapPaddr := bitmapPaddr
    allocationRegionStart := u64 (divUp (u64 (bitmapPaddr + overestimate)) pageSize * pageSize)
    allocationRegionEnd := regionEnd }

/-- The loop that fills the page tables. It advances `bitmap_paddr`. -/
def fillPts : Nat → Frames → Nat → Nat → Frames × Nat
  | 0, frames, _, bitmapPaddr => (frames, bitmapPaddr)
  | count + 1, frames, ptPaddr, bitmapPaddr =>
      fillPts count ((frames.clear ptPaddr).map2mb ptPaddr bitmapPaddr) (u64 (ptPaddr + pageSize))
        (u64 (bitmapPaddr + pageSize * 512))

/-- What the loop over the directories carries on: the next page table, its address in the window,
and `pt_remaining`. -/
structure Cursor where
  ptPaddr : Nat
  vaddr : Nat
  remaining : Nat
deriving DecidableEq, Repr

/-- The inner loop. Its bound is compared with `pt_remaining` as that goes down. -/
def linkPts (pdt : Nat) : Nat → Frames → Nat → Cursor → Frames × Cursor
  | 0, frames, _, cursor => (frames, cursor)
  | fuel + 1, frames, j, cursor =>
      if j < min 512 cursor.remaining then
        linkPts pdt fuel (frames.link pdt (PageTables.pdtIndex cursor.vaddr) cursor.ptPaddr) (j + 1)
          ⟨u64 (cursor.ptPaddr + pageSize), u64 (cursor.vaddr + pageSize * 512),
            cursor.remaining - 1⟩
      else (frames, cursor)

/-- The loop over the directories. -/
def fillPdts : Nat → Frames → Nat → Cursor → Frames
  | 0, frames, _, _ => frames
  | count + 1, frames, pdtPaddr, cursor =>
      let linked := linkPts pdtPaddr 512 (frames.clear pdtPaddr) 0 cursor
      fillPdts count linked.1 (u64 (pdtPaddr + pageSize)) linked.2

/-- The loop that enters the directories in `paging_bitmap_pdpt`. -/
def linkPdts (bitmapPdpt : Nat) : Nat → Frames → Nat → Nat → Frames
  | 0, frames, _, _ => frames
  | count + 1, frames, pdtPaddr, vaddr =>
      linkPdts bitmapPdpt count (frames.link bitmapPdpt (PageTables.pdptIndex vaddr) pdtPaddr)
        (u64 (pdtPaddr + pageSize)) (u64 (vaddr + pageSize * 512 * 512))

/-- The accesses of the last `memset`, page by page. -/
def clearBitmap (frames : Frames) (bitmapPdpt bitmapSize : Nat) : Except Fault Unit :=
  (List.range (divUp bitmapSize pageSize)).forM fun page => do
    let _ ← frames.access bitmapPdpt (bitmapVaddr + page * pageSize)

/-- The three loops over tables, and `bitmap_paddr` after them. -/
def bitmapTables (bitmapPdpt : Nat) (frames : Frames) (regionStart : Nat) (layout : Layout) :
    Frames × Nat :=
  let filled := fillPts layout.ptCount frames regionStart layout.bitmapPaddr
  let pdtPaddr := u64 (regionStart + pageSize * layout.ptCount)
  let linked := fillPdts layout.pdtCount filled.1 pdtPaddr
    ⟨regionStart, bitmapVaddr, layout.ptCount⟩
  (linkPdts bitmapPdpt layout.pdtCount linked pdtPaddr bitmapVaddr, filled.2)

/-- `paging_bitmap_init`, for the region that `paging_init` passes on. -/
def pagingBitmapInit (bitmapPdpt : Nat) (frames : Frames) (regionStart regionEnd : Nat) :
    Except Fault (Layout × Frames) := do
  let layout := layout regionStart regionEnd
  let tables := bitmapTables bitmapPdpt frames regionStart layout
  clearBitmap tables.1 bitmapPdpt layout.bitmapSize
  return ({ layout with bitmapPaddr := tables.2 }, tables.1)

/-- Each page has a bit in the bitmap and lies in the allocation region, and the bitmap and its
tables lie in front of that. The tables come first in the paging region, then the bitmap. -/
structure Layout.Sized (regionStart : Nat) (layout : Layout) : Prop where
  bits : ∀ i < layout.availablePages, i / 8 < layout.bitmapSize
  pages : ∀ i < layout.availablePages,
    layout.allocationRegionStart + i * pageSize + pageSize ≤ layout.allocationRegionEnd
  front : regionStart + pageSize * (layout.ptCount + layout.pdtCount) + layout.bitmapSize ≤
    layout.allocationRegionStart

/-- The region has room for the tables, the pages of the bitmap, and one page more. -/
def LargeEnough (regionStart regionEnd : Nat) : Prop :=
  regionStart + pageSize * ((layout regionStart regionEnd).ptCount +
    (layout regionStart regionEnd).pdtCount) +
      divUp (layout regionStart regionEnd).bitmapSize pageSize * pageSize + pageSize ≤ regionEnd

variable {regionStart regionEnd bitmapPdpt : Nat} {frames after : Frames} {found : Layout}

theorem pagingBitmapInit_eq_ok
    (hreturn : pagingBitmapInit bitmapPdpt frames regionStart regionEnd = .ok (found, after)) :
    ∃ bitmapPaddr, found = { layout regionStart regionEnd with bitmapPaddr := bitmapPaddr } := by
  unfold pagingBitmapInit at hreturn
  obtain ⟨_, -, hreturn⟩ := bind_eq_ok.mp hreturn
  cases hreturn
  exact ⟨_, rfl⟩

/-- The sizes of the bitmap and of its tables never wrap around. -/
theorem layout_sizes (hlayout : layout regionStart regionEnd = found)
    (hle : regionStart ≤ regionEnd) (hend : regionEnd < 2 ^ 64) :
    found.bitmapSize = ((regionEnd - regionStart) / (pageSize * 8) + 7) / 8 * 8 ∧
      found.ptCount = (found.bitmapSize + pageSize * 512 - 1) / (pageSize * 512) ∧
      found.pdtCount = (found.bitmapSize + pageSize * 512 * 512 - 1) / (pageSize * 512 * 512) := by
  have hsize : u64 (regionEnd + 2 ^ 64 - regionStart) = regionEnd - regionStart := by
    unfold u64
    omega
  have hbitmap : found.bitmapSize = ((regionEnd - regionStart) / (pageSize * 8) + 7) / 8 * 8 := by
    rw [← hlayout]
    simp only [layout, hsize]
    rw [divUp_eq (by decide) (by unfold pageSize; omega), u64_eq_self (by unfold pageSize; omega)]
    rfl
  have hsmall : found.bitmapSize < 2 ^ 50 := by
    rw [hbitmap]
    unfold pageSize
    omega
  have hpt : found.ptCount = divUp found.bitmapSize (pageSize * 512) := by rw [← hlayout]; rfl
  have hpdt : found.pdtCount = divUp found.bitmapSize (pageSize * 512 * 512) := by
    rw [← hlayout]
    rfl
  refine ⟨hbitmap, ?_, ?_⟩
  · rw [hpt, divUp_eq (by decide) (by unfold pageSize; omega)]
  · rw [hpdt, divUp_eq (by decide) (by unfold pageSize; omega)]

/-- The pages that are counted, and where the first of them starts: right behind the bitmap. -/
theorem layout_pages (hlayout : layout regionStart regionEnd = found) (hend : regionEnd < 2 ^ 64)
    (hlarge : LargeEnough regionStart regionEnd) :
    found.availablePages =
        (regionEnd - regionStart) / pageSize - (found.ptCount + found.pdtCount) ∧
      found.allocationRegionStart = divUp (regionStart +
        pageSize * (found.ptCount + found.pdtCount) + found.bitmapSize) pageSize * pageSize := by
  unfold LargeEnough at hlarge
  rw [hlayout] at hlarge
  obtain ⟨hbitmap, hpt, hpdt⟩ := layout_sizes hlayout (by omega) hend
  have hpages := divUp_pageSize_spec (show found.bitmapSize + pageSize ≤ 2 ^ 64 by
    rw [hbitmap]
    unfold pageSize
    omega)
  have hsize : u64 (regionEnd + 2 ^ 64 - regionStart) = regionEnd - regionStart := by
    unfold u64
    omega
  constructor
  · have hcount : found.availablePages = u64 (u64 (u64 (regionEnd + 2 ^ 64 - regionStart) +
        2 ^ 64 - u64 (found.ptCount * pageSize)) + 2 ^ 64 - u64 (found.pdtCount * pageSize)) /
          pageSize := by
      rw [← hlayout]
      rfl
    rw [hcount, hsize]
    generalize found.ptCount = pts at *
    generalize found.pdtCount = pdts at *
    unfold u64 pageSize at *
    omega
  · have hstart : found.allocationRegionStart = u64 (divUp (u64 (u64 (regionStart +
        pageSize * (found.ptCount + found.pdtCount)) + found.bitmapSize)) pageSize * pageSize) := by
      rw [← hlayout]
      rfl
    have hfits := divUp_pageSize_spec (show regionStart +
      pageSize * (found.ptCount + found.pdtCount) + found.bitmapSize + pageSize ≤ 2 ^ 64 by omega)
    have htables : u64 (regionStart + pageSize * (found.ptCount + found.pdtCount)) =
        regionStart + pageSize * (found.ptCount + found.pdtCount) := u64_eq_self (by omega)
    rw [hstart, htables, @u64_eq_self (_ + found.bitmapSize) (by omega), u64_eq_self (by omega)]

/-- In no region the sizes fit: the pages of the bitmap are counted a second time at the end. A
region without a whole byte of bits has no bitmap at all. -/
theorem not_sized (haligned : pageSize ∣ regionStart) (hend : regionEnd < 2 ^ 64)
    (hlarge : LargeEnough regionStart regionEnd) :
    ¬∃ found after, pagingBitmapInit bitmapPdpt frames regionStart regionEnd = .ok (found, after) ∧
      found.Sized regionStart := by
  rintro ⟨found, after, hreturn, hsized⟩
  obtain ⟨bitmapPaddr, rfl⟩ := pagingBitmapInit_eq_ok hreturn
  obtain ⟨hbits, hpages, -⟩ := hsized
  obtain ⟨region, hregion⟩ : ∃ region, layout regionStart regionEnd = region := ⟨_, rfl⟩
  obtain ⟨havailable, hstart⟩ := layout_pages hregion hend hlarge
  unfold LargeEnough at hlarge
  simp only [hregion] at hbits hpages hlarge
  have hregionEnd : region.allocationRegionEnd = regionEnd := by
    rw [← hregion]
    rfl
  have hbitmap := divUp_pageSize_spec (show region.bitmapSize + pageSize ≤ 2 ^ 64 by
    obtain ⟨hbitmap, -⟩ := layout_sizes hregion (by omega) hend
    rw [hbitmap]
    unfold pageSize
    omega)
  -- the last page
  have hlast : region.availablePages - 1 < region.availablePages := by
    unfold pageSize at *
    omega
  by_cases hsize : region.bitmapSize = 0
  · have hbit := hbits _ hlast
    rw [hsize] at hbit
    exact absurd hbit (Nat.not_lt_zero _)
  · have hpage := hpages _ hlast
    have hfits := divUp_pageSize_spec (show regionStart +
      pageSize * (region.ptCount + region.pdtCount) + region.bitmapSize + pageSize ≤ 2 ^ 64 by
        omega)
    rw [hregionEnd, hstart] at hpage
    obtain ⟨first, rfl⟩ := haligned
    unfold pageSize at *
    omega

/-- A hundred pages from 1 MiB on. -/
theorem not_sized_hundred : ¬∃ found after,
    pagingBitmapInit 0x80000 (fun _ _ => .zero) 0x100000 0x164000 = .ok (found, after) ∧
      found.Sized 0x100000 :=
  not_sized (by decide) (by decide) (by unfold LargeEnough; decide)

/-- The sizes are set for the hundred pages all the same: 98 pages are counted from `0x103000` on,
and the last of them starts at the end of the region. -/
theorem sizes_overlap : ∃ found after,
    pagingBitmapInit 0x80000 (fun _ _ => .zero) 0x100000 0x164000 = .ok (found, after) ∧
      found.availablePages = 98 ∧ found.allocationRegionStart = 0x103000 ∧
      ¬found.Sized 0x100000 := by
  have hsize : (layout 0x100000 0x164000).bitmapSize = 16 := by decide
  have hclear : clearBitmap (bitmapTables 0x80000 (fun _ _ => .zero) 0x100000
      (layout 0x100000 0x164000)).1 0x80000 16 = .ok () := by
    decide +kernel
  refine ⟨{ layout 0x100000 0x164000 with bitmapPaddr := 0x302000 }, (bitmapTables 0x80000
    (fun _ _ => .zero) 0x100000 (layout 0x100000 0x164000)).1, ?_, by decide, by decide, ?_⟩
  · have hpaddr : (bitmapTables 0x80000 (fun _ _ => .zero) 0x100000
        (layout 0x100000 0x164000)).2 = 0x302000 := by
      decide +kernel
    unfold pagingBitmapInit
    simp only [hsize, hclear, hpaddr, ok_bind, pure_eq_ok]
  · rintro ⟨-, hpages, -⟩
    exact absurd (hpages 97 (by decide)) (by decide)

end PKernel.Bitmap
