import PKernel.Paging.Windows

/-! # The tables of the windows

What the code keeps of the two windows while their first directory has room: which entries lead to
the page tables, which slots and pages are taken, and that no frame is used twice.
-/

namespace PKernel.Windows

open PageTables (Allocation pdptIndex pdtIndex ptIndex)
open Talloc (tmapPageEntries tmapBuckets tmapHash tallocVaddr slotAddress)

/-- The tables of a window: the directory in the first entry of the `pdpt`, and the page tables in
the directory, in their order. -/
structure Spans (frames : Frames) (pdpt pdt : Nat) (pts : List Nat) : Prop where
  directory : frames.child pdpt 0 = some pdt
  table : ∀ (i pt : Nat), pts[i]? = some pt → frames.child pdt i = some pt

/-- The frames that are still to come are pages, and no frame has two uses. -/
structure Apart (supply inner leaves : List Nat) : Prop where
  distinct : inner.Nodup
  once : supply.Nodup
  page : ∀ frame ∈ supply, pageSize ∣ frame ∧ frame < 2 ^ 52
  fresh : ∀ frame ∈ supply, frame ∉ inner ∧ frame ∉ leaves
  leaf : ∀ frame ∈ leaves, frame ∉ inner

/-- The pages of the translation map, in order, and those of its chains among them. -/
structure TmapPages (frames : Frames) (pdpt : Nat) (tmap : TmapState) (pts : List Nat) : Prop where
  spans : Spans frames pdpt tmap.pdtPaddr pts
  few : pts.length ≤ 511
  ptr : tmap.nextPagePtr = tmapVaddr + tmap.pages.length * pageSize
  page : ∀ (k : Nat) (made : Allocation), tmap.pages[k]? = some made →
    made.vaddr = tmapVaddr + k * pageSize ∧
      ∃ pt, pts[k / 512]? = some pt ∧ frames.child pt (k % 512) = some made.paddr
  chain : ∀ hash, ∀ page ∈ tmap.buckets hash, ∃ made ∈ tmap.pages, page.vaddr = made.vaddr

/-- The last page table is the one for the next page. -/
structure TmapWindow (frames : Frames) (pdpt : Nat) (tmap : TmapState) (pts : List Nat) : Prop
    extends TmapPages frames pdpt tmap pts where
  count : pts.length = tmap.pages.length / 512 + 1
  last : pts[tmap.pages.length / 512]? = some tmap.ptPaddr

/-- The slots of the table allocator are taken in order, from slot 1 of each page table on. -/
structure TallocWindow (frames : Frames) (pdpt : Nat) (talloc : TallocState) (pts : List Nat) :
    Prop where
  spans : Spans frames pdpt talloc.pdtPaddr pts
  few : pts.length ≤ 511
  count : talloc.ptCount = pts.length
  vaddr : talloc.currentVaddr = slotAddress pts.length 0
  self : ∀ (i pt : Nat), pts[i]? = some pt → frames.child pt 0 = some pt
  full : talloc.tables.length ≤ 511 * pts.length
  slot : ∀ (k : Nat) (alloc : Allocation), talloc.tables[k]? = some alloc →
    alloc.vaddr = slotAddress (k / 511) (k % 511 + 1) ∧
      ∃ pt, pts[k / 511]? = some pt ∧ frames.child pt (k % 511 + 1) = some alloc.paddr
  free : ∀ (k pt : Nat), talloc.tables.length ≤ k → pts[k / 511]? = some pt →
    frames.child pt (k % 511 + 1) = none

/-- The tables of a window. -/
def inner (pdpt pdt : Nat) (pts : List Nat) : List Nat := pdpt :: pdt :: pts

variable {frames after : Frames} {pdpt pdt frame : Nat} {pts supply used leaves : List Nat}
variable {talloc : TallocState} {tmap : TmapState}

/-! ## Frames that stay apart -/

namespace Apart

theorem tail (hapart : Apart (frame :: supply) used leaves) : Apart supply used leaves where
  distinct := hapart.distinct
  once := (List.nodup_cons.mp hapart.once).2
  page other hother := hapart.page other (List.mem_cons_of_mem _ hother)
  fresh other hother := hapart.fresh other (List.mem_cons_of_mem _ hother)
  leaf := hapart.leaf

/-- The next frame becomes a table of a window. -/
theorem grow (hapart : Apart (frame :: supply) used leaves) {grown : List Nat}
    (hperm : grown.Perm (frame :: used)) : Apart supply grown leaves := by
  obtain ⟨hnew, hsupply⟩ := List.nodup_cons.mp hapart.once
  obtain ⟨hused, hleaves⟩ := hapart.fresh frame List.mem_cons_self
  refine ⟨?_, hsupply, hapart.tail.page, ?_, ?_⟩
  · rw [hperm.nodup_iff, List.nodup_cons]
    exact ⟨hused, hapart.distinct⟩
  · intro other hother
    obtain ⟨hother', hleaf⟩ := hapart.tail.fresh other hother
    refine ⟨?_, hleaf⟩
    rw [hperm.mem_iff, List.mem_cons, not_or]
    exact ⟨fun heq => hnew (heq ▸ hother), hother'⟩
  · intro leaf hleaf
    rw [hperm.mem_iff, List.mem_cons, not_or]
    exact ⟨fun heq => hleaves (heq ▸ hleaf), hapart.leaf leaf hleaf⟩

/-- The next frame becomes a page that a window maps. -/
theorem map (hapart : Apart (frame :: supply) used leaves) {grown : List Nat}
    (hgrown : ∀ leaf, leaf ∈ grown ↔ leaf = frame ∨ leaf ∈ leaves) : Apart supply used grown := by
  obtain ⟨hnew, hsupply⟩ := List.nodup_cons.mp hapart.once
  refine ⟨hapart.distinct, hsupply, hapart.tail.page, ?_, ?_⟩
  · intro other hother
    obtain ⟨hother', hleaf⟩ := hapart.tail.fresh other hother
    refine ⟨hother', ?_⟩
    rw [hgrown, not_or]
    exact ⟨fun heq => hnew (heq ▸ hother), hleaf⟩
  · intro leaf hleaf
    rcases (hgrown leaf).mp hleaf with rfl | hold
    · exact (hapart.fresh leaf List.mem_cons_self).1
    · exact hapart.leaf leaf hold

end Apart

/-! ## Walking a window -/

theorem child_congr (hframe : after frame = frames frame) (index : Nat) :
    after.child frame index = frames.child frame index := by
  simp only [Frames.child, hframe]

theorem mem_of_getElem? {i pt : Nat} (hpt : pts[i]? = some pt) : pt ∈ pts :=
  List.mem_iff_getElem?.mpr ⟨i, hpt⟩

namespace Spans

theorem congr (hspans : Spans frames pdpt pdt pts)
    (hkept : ∀ frame ∈ inner pdpt pdt pts, after frame = frames frame) :
    Spans after pdpt pdt pts where
  directory := by
    rw [child_congr (hkept pdpt (by simp [inner]))]
    exact hspans.directory
  table i pt hpt := by
    rw [child_congr (hkept pdt (by simp [inner]))]
    exact hspans.table i pt hpt

/-- The walk goes through the directory and one page table. -/
theorem translate (hspans : Spans frames pdpt pdt pts) {base i j pt : Nat} (hbase : 2 ^ 39 ∣ base)
    (hpt : pts[i]? = some pt) (hi : i < 512) (hj : j < 512) :
    frames.translate pdpt (base + (i * 512 + j) * pageSize) = frames.child pt j := by
  have hpdpt : pdptIndex (base + (i * 512 + j) * pageSize) = 0 := by
    rw [Frames.pdptIndex_page hbase]
    omega
  have hpdt : pdtIndex (base + (i * 512 + j) * pageSize) = i := by
    rw [Frames.pdtIndex_page hbase]
    omega
  have hindex : ptIndex (base + (i * 512 + j) * pageSize) = j := by
    rw [Frames.ptIndex_page hbase]
    omega
  rw [Frames.translate, hpdpt, hpdt, hindex]
  simp only [Library.TableTree.descend, hspans.directory, hspans.table i pt hpt, Option.bind_some]
  cases frames.child pt j <;> rfl

/-- The directory gets one entry more. -/
theorem extend (hspans : Spans frames pdpt pdt pts)
    (hpdpt : after.child pdpt 0 = frames.child pdpt 0)
    (hpdt : ∀ i, after.child pdt i = if i = pts.length then some frame else frames.child pdt i) :
    Spans after pdpt pdt (pts ++ [frame]) where
  directory := hpdpt.trans hspans.directory
  table i pt hpt := by
    rw [hpdt]
    by_cases hlast : i = pts.length
    · subst hlast
      rw [List.getElem?_concat_length] at hpt
      rw [if_pos rfl, hpt]
    · rw [if_neg hlast]
      refine hspans.table i pt ?_
      have hlt := (List.getElem?_eq_some_iff.mp hpt).1
      rw [List.length_append, List.length_singleton] at hlt
      rwa [List.getElem?_append_left (by omega)] at hpt

end Spans

/-- A new table is cleared and entered in another one. -/
theorem child_install (frames : Frames) (target slot other index : Nat)
    (hpage : pageSize ∣ frame ∧ frame < 2 ^ 52) :
    ((frames.clear frame).link target slot frame).child other index =
      if other = target ∧ index = slot then some frame
      else if other = frame then none else frames.child other index := by
  rw [Frames.child_link _ _ _ _ _ hpage.1 hpage.2, Frames.child_clear]

/-! ## The window of the translation map -/

namespace TmapPages

theorem congr (hpages : TmapPages frames pdpt tmap pts)
    (hkept : ∀ frame ∈ inner pdpt tmap.pdtPaddr pts, after frame = frames frame) :
    TmapPages after pdpt tmap pts where
  spans := hpages.spans.congr hkept
  few := hpages.few
  ptr := hpages.ptr
  page k made hmade := by
    obtain ⟨hvaddr, pt, hpt, hchild⟩ := hpages.page k made hmade
    refine ⟨hvaddr, pt, hpt, ?_⟩
    rwa [child_congr (hkept pt (by simp [inner, mem_of_getElem? hpt]))]
  chain := hpages.chain

/-- Every page is mapped to its frame. -/
theorem translate (hpages : TmapPages frames pdpt tmap pts) {made : Allocation}
    (hmade : made ∈ tmap.pages) : frames.translate pdpt made.vaddr = some made.paddr := by
  obtain ⟨k, hk⟩ := List.mem_iff_getElem?.mp hmade
  obtain ⟨hvaddr, pt, hpt, hchild⟩ := hpages.page k made hk
  have hlt := (List.getElem?_eq_some_iff.mp hpt).1
  have hfew := hpages.few
  have hbase : 2 ^ 39 ∣ tmapVaddr := by decide
  rw [hvaddr, ← hchild, ← hpages.spans.translate hbase hpt (by omega)
    (Nat.mod_lt k (by decide)), Nat.div_add_mod' k 512]

/-- The next page is entered in its page table. -/
theorem fill (hpages : TmapPages frames pdpt tmap pts) {pt : Nat}
    (hpt : pts[tmap.pages.length / 512]? = some pt) (hpage : pageSize ∣ frame ∧ frame < 2 ^ 52)
    (hdistinct : (inner pdpt tmap.pdtPaddr pts).Nodup)
    (hfresh : frame ∉ inner pdpt tmap.pdtPaddr pts) :
    TmapPages ((frames.clear frame).link pt (tmap.pages.length % 512) frame) pdpt
      { tmap with
        nextPagePtr := u64 (tmap.nextPagePtr + pageSize)
        pages := tmap.pages ++ [⟨frame, tmap.nextPagePtr⟩] } pts := by
  simp only [inner, List.nodup_cons, List.mem_cons, not_or] at hdistinct hfresh
  obtain ⟨⟨hpdpt, hpdptPts⟩, hpdtPts, hpts⟩ := hdistinct
  obtain ⟨hframePdpt, hframePdt, hframePts⟩ := hfresh
  have hmem := mem_of_getElem? hpt
  have hlt := (List.getElem?_eq_some_iff.mp hpt).1
  have hfew := hpages.few
  have hptr := hpages.ptr
  refine ⟨⟨?_, ?_⟩, hfew, ?_, ?_, ?_⟩
  · rw [child_install _ _ _ _ _ hpage, if_neg (by rintro ⟨rfl, -⟩; exact hpdptPts hmem),
      if_neg (Ne.symm hframePdpt)]
    exact hpages.spans.directory
  · intro i other hother
    rw [child_install _ _ _ _ _ hpage, if_neg (by rintro ⟨rfl, -⟩; exact hpdtPts hmem),
      if_neg (Ne.symm hframePdt)]
    exact hpages.spans.table i other hother
  · simp only [hptr, List.length_append, List.length_singleton]
    unfold u64 tmapVaddr pageSize
    omega
  · intro k made hmade
    rcases Nat.lt_or_ge k tmap.pages.length with hold | hnew
    · rw [List.getElem?_append_left hold] at hmade
      obtain ⟨hvaddr, other, hother, hchild⟩ := hpages.page k made hmade
      refine ⟨hvaddr, other, hother, ?_⟩
      have hslot : ¬(other = pt ∧ k % 512 = tmap.pages.length % 512) := by
        rintro ⟨rfl, hmod⟩
        have hsame := (List.getElem?_inj (List.getElem?_eq_some_iff.mp hother).1 hpts).mp
          (hother.trans hpt.symm)
        omega
      rw [child_install _ _ _ _ _ hpage, if_neg hslot, if_neg (by
        rintro rfl
        exact hframePts (mem_of_getElem? hother))]
      exact hchild
    · have hk : k = tmap.pages.length := by
        have hlt := (List.getElem?_eq_some_iff.mp hmade).1
        rw [List.length_append, List.length_singleton] at hlt
        omega
      subst hk
      rw [List.getElem?_concat_length] at hmade
      cases hmade
      exact ⟨hptr, pt, hpt, by rw [child_install _ _ _ _ _ hpage, if_pos ⟨rfl, rfl⟩]⟩
  · intro hash page hchain
    obtain ⟨made, hmade, hvaddr⟩ := hpages.chain hash page hchain
    exact ⟨made, List.mem_append_left _ hmade, hvaddr⟩

/-- A new page table is entered in the directory. -/
theorem extend (hpages : TmapPages frames pdpt tmap pts) (hroom : pts.length < 511)
    (hpage : pageSize ∣ frame ∧ frame < 2 ^ 52)
    (hdistinct : (inner pdpt tmap.pdtPaddr pts).Nodup)
    (hfresh : frame ∉ inner pdpt tmap.pdtPaddr pts) :
    TmapPages ((frames.clear frame).link tmap.pdtPaddr pts.length frame) pdpt
      { tmap with ptPaddr := frame } (pts ++ [frame]) := by
  simp only [inner, List.nodup_cons, List.mem_cons, not_or] at hdistinct hfresh
  obtain ⟨⟨hpdpt, hpdptPts⟩, hpdtPts, hpts⟩ := hdistinct
  obtain ⟨hframePdpt, hframePdt, hframePts⟩ := hfresh
  refine ⟨hpages.spans.extend ?_ ?_, ?_, hpages.ptr, ?_, hpages.chain⟩
  · rw [child_install _ _ _ _ _ hpage, if_neg (fun h => hpdpt h.1), if_neg (Ne.symm hframePdpt)]
  · intro i
    rw [child_install _ _ _ _ _ hpage, if_neg (Ne.symm hframePdt)]
    simp
  · rw [List.length_append, List.length_singleton]
    omega
  · intro k made hmade
    obtain ⟨hvaddr, pt, hpt, hchild⟩ := hpages.page k made hmade
    have hlt := (List.getElem?_eq_some_iff.mp hpt).1
    have hmem := mem_of_getElem? hpt
    refine ⟨hvaddr, pt, by rwa [List.getElem?_append_left hlt], ?_⟩
    rw [child_install _ _ _ _ _ hpage, if_neg (by rintro ⟨rfl, -⟩; exact hpdtPts hmem), if_neg (by
      rintro rfl
      exact hframePts hmem)]
    exact hchild

end TmapPages

theorem TmapWindow.congr (hwindow : TmapWindow frames pdpt tmap pts)
    (hkept : ∀ frame ∈ inner pdpt tmap.pdtPaddr pts, after frame = frames frame) :
    TmapWindow after pdpt tmap pts :=
  ⟨hwindow.toTmapPages.congr hkept, hwindow.count, hwindow.last⟩

/-! ## The window of the table allocator -/

namespace TallocWindow

theorem congr (hwindow : TallocWindow frames pdpt talloc pts)
    (hkept : ∀ frame ∈ inner pdpt talloc.pdtPaddr pts, after frame = frames frame) :
    TallocWindow after pdpt talloc pts where
  spans := hwindow.spans.congr hkept
  few := hwindow.few
  count := hwindow.count
  vaddr := hwindow.vaddr
  self i pt hpt := by
    rw [child_congr (hkept pt (by simp [inner, mem_of_getElem? hpt]))]
    exact hwindow.self i pt hpt
  full := hwindow.full
  slot k alloc halloc := by
    obtain ⟨hvaddr, pt, hpt, hchild⟩ := hwindow.slot k alloc halloc
    refine ⟨hvaddr, pt, hpt, ?_⟩
    rwa [child_congr (hkept pt (by simp [inner, mem_of_getElem? hpt]))]
  free k pt hk hpt := by
    rw [child_congr (hkept pt (by simp [inner, mem_of_getElem? hpt]))]
    exact hwindow.free k pt hk hpt

/-- A slot is reached through the window. -/
theorem translate_slot (hwindow : TallocWindow frames pdpt talloc pts) {i j pt : Nat}
    (hpt : pts[i]? = some pt) (hj : j < 512) :
    frames.translate pdpt (slotAddress i j) = frames.child pt j := by
  have hbase : 2 ^ 39 ∣ tallocVaddr := by decide
  have hlt := (List.getElem?_eq_some_iff.mp hpt).1
  have hfew := hwindow.few
  exact hwindow.spans.translate hbase hpt (by omega) hj

/-- Every table that was handed out is mapped to its frame. -/
theorem translate (hwindow : TallocWindow frames pdpt talloc pts) {alloc : Allocation}
    (halloc : alloc ∈ talloc.tables) : frames.translate pdpt alloc.vaddr = some alloc.paddr := by
  obtain ⟨k, hk⟩ := List.mem_iff_getElem?.mp halloc
  obtain ⟨hvaddr, pt, hpt, hchild⟩ := hwindow.slot k alloc hk
  rw [hvaddr, hwindow.translate_slot hpt (by omega), hchild]

/-- A new page table is entered in the directory. -/
theorem extend (hwindow : TallocWindow frames pdpt talloc pts) (hroom : pts.length < 511)
    (hpage : pageSize ∣ frame ∧ frame < 2 ^ 52)
    (hdistinct : (inner pdpt talloc.pdtPaddr pts).Nodup)
    (hfresh : frame ∉ inner pdpt talloc.pdtPaddr pts) :
    TallocWindow ((((frames.clear frame).link talloc.pdtPaddr pts.length frame).clear frame).link
        frame 0 frame) pdpt
      { talloc with
        ptPaddr := frame
        currentVaddr := u64 (talloc.currentVaddr + 512 * pageSize)
        ptCount := talloc.ptCount + 1 } (pts ++ [frame]) := by
  simp only [inner, List.nodup_cons, List.mem_cons, not_or] at hdistinct hfresh
  obtain ⟨⟨hpdpt, hpdptPts⟩, hpdtPts, hpts⟩ := hdistinct
  obtain ⟨hframePdpt, hframePdt, hframePts⟩ := hfresh
  -- the new table has only its own entry, and the directory one more
  have hchild (other index : Nat) :
      ((((frames.clear frame).link talloc.pdtPaddr pts.length frame).clear frame).link
        frame 0 frame).child other index =
      if other = frame then if index = 0 then some frame else none
      else if other = talloc.pdtPaddr ∧ index = pts.length then some frame
      else frames.child other index := by
    rw [child_install _ _ _ _ _ hpage, child_install _ _ _ _ _ hpage]
    by_cases hother : other = frame
    · simp [hother]
    · simp [hother]
  have hold (other : Nat) (hother : other ∈ pts) (index : Nat) :
      ((((frames.clear frame).link talloc.pdtPaddr pts.length frame).clear frame).link
        frame 0 frame).child other index = frames.child other index := by
    rw [hchild, if_neg (by rintro rfl; exact hframePts hother),
      if_neg (by rintro ⟨rfl, -⟩; exact hpdtPts hother)]
  have hlast (k : Nat) (hk : k < pts.length) : (pts ++ [frame])[k]? = pts[k]? :=
    List.getElem?_append_left hk
  refine ⟨hwindow.spans.extend ?_ ?_, ?_, ?_, ?_, ?_, ?_, ?_, ?_⟩
  · rw [hchild, if_neg (Ne.symm hframePdpt), if_neg (fun h => hpdpt h.1)]
  · intro i
    rw [hchild, if_neg (Ne.symm hframePdt)]
    simp
  · rw [List.length_append, List.length_singleton]
    omega
  · rw [List.length_append, List.length_singleton, hwindow.count]
  · simp only [hwindow.vaddr, List.length_append, List.length_singleton]
    unfold u64 slotAddress tallocVaddr pageSize
    omega
  · intro i pt hpt
    rcases List.mem_append.mp (mem_of_getElem? hpt) with hmem | hmem
    · obtain ⟨k, hk⟩ := List.mem_iff_getElem?.mp hmem
      rw [hold pt hmem]
      exact hwindow.self k pt hk
    · obtain rfl := List.mem_singleton.mp hmem
      rw [hchild, if_pos rfl, if_pos rfl]
  · have hfull := hwindow.full
    simp only [List.length_append, List.length_singleton]
    omega
  · intro k alloc halloc
    obtain ⟨hvaddr, pt, hpt, hslot⟩ := hwindow.slot k alloc halloc
    refine ⟨hvaddr, pt, ?_, ?_⟩
    · rwa [hlast _ (List.getElem?_eq_some_iff.mp hpt).1]
    · rwa [hold pt (mem_of_getElem? hpt)]
  · intro k pt hk hpt
    rcases Nat.lt_or_ge (k / 511) pts.length with hlt | hge
    · rw [hlast _ hlt] at hpt
      rw [hold pt (mem_of_getElem? hpt)]
      exact hwindow.free k pt hk hpt
    · have hnew : k / 511 = pts.length := by
        have hlt := (List.getElem?_eq_some_iff.mp hpt).1
        rw [List.length_append, List.length_singleton] at hlt
        omega
      rw [hnew, List.getElem?_concat_length, Option.some.injEq] at hpt
      rw [hchild, if_pos hpt.symm, if_neg (Nat.succ_ne_zero _)]

/-- The next slot is taken by a page, which is cleared. -/
theorem fill (hwindow : TallocWindow frames pdpt talloc pts) {pt : Nat}
    (hpt : pts[talloc.tables.length / 511]? = some pt) (hpage : pageSize ∣ frame ∧ frame < 2 ^ 52)
    (hdistinct : (inner pdpt talloc.pdtPaddr pts).Nodup)
    (hfresh : frame ∉ inner pdpt talloc.pdtPaddr pts) :
    TallocWindow ((frames.link pt (talloc.tables.length % 511 + 1) frame).clear frame) pdpt
      { talloc with
        tables := talloc.tables ++ [⟨frame, slotAddress (talloc.tables.length / 511)
          (talloc.tables.length % 511 + 1)⟩] } pts := by
  simp only [inner, List.nodup_cons, List.mem_cons, not_or] at hdistinct hfresh
  obtain ⟨⟨hpdpt, hpdptPts⟩, hpdtPts, hpts⟩ := hdistinct
  obtain ⟨hframePdpt, hframePdt, hframePts⟩ := hfresh
  have hmem := mem_of_getElem? hpt
  have hchild (other index : Nat) (hother : other ≠ frame) :
      ((frames.link pt (talloc.tables.length % 511 + 1) frame).clear frame).child other index =
        if other = pt ∧ index = talloc.tables.length % 511 + 1 then some frame
        else frames.child other index := by
    rw [Frames.child_clear, if_neg hother, Frames.child_link _ _ _ _ _ hpage.1 hpage.2]
  have hpart (other : Nat) (hother : other ∈ pts) : other ≠ frame := by
    rintro rfl
    exact hframePts hother
  have hindex {i : Nat} (hi : pts[i]? = some pt) : i = talloc.tables.length / 511 :=
    (List.getElem?_inj (List.getElem?_eq_some_iff.mp hi).1 hpts).mp (hi.trans hpt.symm)
  refine ⟨⟨?_, ?_⟩, hwindow.few, hwindow.count, hwindow.vaddr, ?_, ?_, ?_, ?_⟩
  · rw [hchild _ _ (Ne.symm hframePdpt), if_neg (by rintro ⟨rfl, -⟩; exact hpdptPts hmem)]
    exact hwindow.spans.directory
  · intro i other hother
    rw [hchild _ _ (Ne.symm hframePdt), if_neg (by rintro ⟨rfl, -⟩; exact hpdtPts hmem)]
    exact hwindow.spans.table i other hother
  · intro i other hother
    rw [hchild _ _ (hpart other (mem_of_getElem? hother)),
      if_neg (fun h => Nat.succ_ne_zero _ h.2.symm)]
    exact hwindow.self i other hother
  · have hlt := (List.getElem?_eq_some_iff.mp hpt).1
    simp only [List.length_append, List.length_singleton]
    omega
  · intro k alloc halloc
    rcases Nat.lt_or_ge k talloc.tables.length with hold | hnew
    · rw [List.getElem?_append_left hold] at halloc
      obtain ⟨hvaddr, other, hother, hslot⟩ := hwindow.slot k alloc halloc
      refine ⟨hvaddr, other, hother, ?_⟩
      rw [hchild _ _ (hpart other (mem_of_getElem? hother)), if_neg]
      · exact hslot
      · rintro ⟨rfl, hmod⟩
        have hsame := hindex hother
        omega
    · have hk : k = talloc.tables.length := by
        have hlt := (List.getElem?_eq_some_iff.mp halloc).1
        rw [List.length_append, List.length_singleton] at hlt
        omega
      subst hk
      rw [List.getElem?_concat_length] at halloc
      cases halloc
      exact ⟨rfl, pt, hpt, by rw [hchild _ _ (hpart pt hmem), if_pos ⟨rfl, rfl⟩]⟩
  · intro k other hk hother
    rw [List.length_append, List.length_singleton] at hk
    rw [hchild _ _ (hpart other (mem_of_getElem? hother)), if_neg]
    · exact hwindow.free k other (by omega) hother
    · rintro ⟨rfl, hmod⟩
      have hsame := hindex hother
      omega

end TallocWindow

end PKernel.Windows
