import PKernel.Paging.Bitmap
import PKernel.Paging.PageTables

/-! # The table allocator

`table_allocator.c`: page tables whose present entries are the slots that are
handed out, each with a physical page. Every page table maps itself in its first
slot. Registering a page in the translation map can take pages for the map, here
with the frames that are registered in them.
-/

namespace PKernel.Talloc

open Bitmap
open PageTables (Allocation)

/-! ## Pages of the translation map -/

/-- `PAGING_TMAP_BUCKETS`. -/
def tmapBuckets : Nat := 256

/-- `PAGING_TMAP_PAGE_ENTRIES`. -/
def tmapPageEntries : Nat := (pageSize - 8 - 8 - 4) / 16

structure TranslationMap where
  /-- The frames in the pages of each bucket. -/
  buckets : Nat → List (List Nat)
  /-- The number of pages made so far, which gives `next_page_ptr`. -/
  pages : Nat

/-- `tmap_hash_function`. -/
def tmapHash (paddr : Nat) : Nat := (paddr >>> 12) % tmapBuckets

/-- `add_tmap_page`: the frame of the new page, which is 0 if no page was free, the words
and the number of pages. A new directory of the map takes the place of the old one, and
the access that follows runs into that. -/
def addTmapPage (area : Area) (words : Words) (pages : Nat) :
    Except Fault (Nat × Words × Nat) := do
  let (paddr, words) := bitmapReserve area words
  if pages % 512 = 511 then
    if (pages + 1) / 512 % 512 = 511 then throw .badPointer
    return (paddr, (bitmapReserve area words).2, pages + 1)
  else return (paddr, words, pages + 1)

/-- The loop of `paging_tmap_map`: `none` when all pages are full. -/
def insertFrame (paddr : Nat) : List (List Nat) → Option (List (List Nat))
  | [] => none
  | page :: rest =>
      if page.length ≠ tmapPageEntries then some ((page ++ [paddr]) :: rest)
      else (insertFrame paddr rest).map fun rest => page :: rest

/-- `paging_tmap_map`. -/
def tmapMap (area : Area) (words : Words) (tmap : TranslationMap) (paddr : Nat) :
    Except Fault (Words × TranslationMap) := do
  let pages := tmap.buckets (tmapHash paddr)
  match insertFrame paddr pages with
  | some pages =>
      return (words, { tmap with
        buckets := Function.update tmap.buckets (tmapHash paddr) pages })
  | none =>
      let (_, words, made) ← addTmapPage area words tmap.pages
      return (words, ⟨Function.update tmap.buckets (tmapHash paddr) ([paddr] :: pages), made⟩)

/-- The loops of `paging_tmap_unmap`. -/
def eraseFrame (paddr : Nat) : List (List Nat) → List (List Nat)
  | [] => []
  | page :: rest =>
      if paddr ∈ page then page.erase paddr :: rest else page :: eraseFrame paddr rest

/-- `paging_tmap_unmap`. -/
def tmapUnmap (tmap : TranslationMap) (paddr : Nat) : TranslationMap :=
  let pages := eraseFrame paddr (tmap.buckets (tmapHash paddr))
  { tmap with buckets := Function.update tmap.buckets (tmapHash paddr) pages }

/-! ## Slots -/

/-- `PAGING_TALLOC_VADDR`. -/
def tallocVaddr : Nat := 0x028000000000

/-- The address that entry `i` of page table `pt` maps. -/
def slotAddress (pt i : Nat) : Nat := tallocVaddr + (pt * 512 + i) * pageSize

structure Allocator where
  /-- The bitmap of physical pages. -/
  words : Words
  /-- The present bits of every page table; there are `talloc_pt_count` of them. -/
  pts : List (Nat → Bool)
  tmap : TranslationMap

/-- `(*pt)[i].present`. -/
def Allocator.present (allocator : Allocator) (pt i : Nat) : Bool :=
  match allocator.pts[pt]? with
  | some bits => bits i
  | none => false

/-- `add_pt`. The last page table of a directory comes with a new directory, which is
put in the place of the old one: the next access to any page table runs into that. -/
def addPt (area : Area) (allocator : Allocator) : Except Fault Allocator := do
  if allocator.pts.length % 512 = 511 then throw .badPointer
  return { allocator with
    words := (bitmapReserve area allocator.words).2
    pts := allocator.pts ++ [fun i => i == 0] }

/-- The body of `paging_talloc_alloc` for an entry that is not present. -/
def takeSlot (area : Area) (allocator : Allocator) (pt i : Nat) :
    Except Fault (Allocation × Allocator) := do
  let (paddr, words) := bitmapReserve area allocator.words
  let pts := allocator.pts.modify pt fun bits => Function.update bits i true
  let (words, tmap) ← tmapMap area words allocator.tmap paddr
  return (⟨paddr, slotAddress pt i⟩, ⟨words, pts, tmap⟩)

/-- The loops of `paging_talloc_alloc`: the first entry that is not present. -/
def Allocator.freeSlot (allocator : Allocator) : Option (Nat × Nat) :=
  (List.range allocator.pts.length).findSome? fun pt =>
    ((List.range' 1 511).find? fun i => !allocator.present pt i).map fun i => (pt, i)

/-- `paging_talloc_alloc`. -/
def tallocAlloc (area : Area) (allocator : Allocator) : Except Fault (Allocation × Allocator) :=
  match allocator.freeSlot with
  | some (pt, i) => takeSlot area allocator pt i
  | none => do
      let grown ← addPt area allocator
      takeSlot area grown allocator.pts.length 1

/-- `paging_talloc_free`. -/
def tallocFree (allocator : Allocator) (allocation : Allocation) : Allocator :=
  { allocator with tmap := tmapUnmap allocator.tmap allocation.paddr }

/-! ## Slots are never given back -/

/-- Slots that are occupied stay so. -/
def Grows (before after : Allocator) : Prop :=
  ∀ pt i, before.present pt i = true → after.present pt i = true

variable {area : Area} {allocator middle after : Allocator} {allocation : Allocation} {pt i : Nat}

theorem Grows.refl (allocator : Allocator) : Grows allocator allocator := fun _ _ hpresent => hpresent

theorem Grows.trans (hfirst : Grows allocator middle) (hsecond : Grows middle after) :
    Grows allocator after :=
  fun pt i hpresent => hsecond pt i (hfirst pt i hpresent)

/-- Only the page tables matter. -/
theorem Grows.of_pts (hpts : after.pts = allocator.pts) : Grows allocator after := by
  intro pt i hpresent
  rwa [Allocator.present, hpts]

theorem present_takeSlot (hcall : takeSlot area allocator pt i = .ok (allocation, after))
    (hlt : pt < allocator.pts.length) :
    Grows allocator after ∧ after.present pt i = true ∧ allocation.vaddr = slotAddress pt i := by
  obtain ⟨⟨words, tmap⟩, _, hcall⟩ := bind_eq_ok.mp hcall
  cases hcall
  refine ⟨?_, ?_, rfl⟩
  · intro other j hpresent
    simp only [Allocator.present, List.getElem?_modify] at hpresent ⊢
    by_cases hpt : pt = other
    · subst hpt
      simp only [List.getElem?_eq_getElem hlt, if_true] at hpresent ⊢
      by_cases hentry : j = i
      · simp [hentry]
      · simpa [hentry] using hpresent
    · simpa [hpt] using hpresent
  · simp [Allocator.present, hlt]

theorem addPt_grows (hcall : addPt area allocator = .ok after) :
    Grows allocator after ∧ allocator.pts.length < after.pts.length := by
  unfold addPt at hcall
  split at hcall
  · simp at hcall
  cases hcall
  refine ⟨?_, by simp⟩
  intro pt i hpresent
  unfold Allocator.present at hpresent ⊢
  by_cases hlt : pt < allocator.pts.length
  · simpa [List.getElem?_append_left hlt] using hpresent
  · simp [List.getElem?_eq_none (Nat.le_of_not_lt hlt)] at hpresent

/-- A table comes with a slot that was free. -/
theorem tallocAlloc_spec (hcall : tallocAlloc area allocator = .ok (allocation, after)) :
    Grows allocator after ∧ ∃ pt i, allocator.present pt i = false ∧
      after.present pt i = true ∧ allocation.vaddr = slotAddress pt i := by
  unfold tallocAlloc at hcall
  split at hcall
  next pt i hfree =>
    obtain ⟨found, hmem, hfound⟩ := List.exists_of_findSome?_eq_some hfree
    obtain ⟨entry, hentry, hpair⟩ := Option.map_eq_some_iff.mp hfound
    obtain ⟨rfl, rfl⟩ := Prod.mk.inj hpair
    obtain ⟨hgrows, hpresent, hvaddr⟩ := present_takeSlot hcall (List.mem_range.mp hmem)
    have hclear : allocator.present found entry = false := by
      simpa using List.find?_some hentry
    exact ⟨hgrows, found, entry, hclear, hpresent, hvaddr⟩
  next =>
    obtain ⟨grown, hgrown, hcall⟩ := bind_eq_ok.mp hcall
    obtain ⟨hgrows, hlt⟩ := addPt_grows hgrown
    obtain ⟨htaken, hpresent, hvaddr⟩ := present_takeSlot hcall hlt
    refine ⟨hgrows.trans htaken, allocator.pts.length, 1, ?_, hpresent, hvaddr⟩
    simp [Allocator.present]

end PKernel.Talloc
