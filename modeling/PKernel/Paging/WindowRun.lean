import PKernel.Paging.WindowCalls

/-! # Runs of the windows

As long as the directory that a window starts with has room, every table that was handed out and
every page of the translation map stays mapped to its frame. The last page table of the directory
brings a new directory with it, which takes the place of the old one: no page of the window is
mapped any more.
-/

namespace PKernel.Windows

open Library.Transition
open PageTables (Allocation pdptIndex pdtIndex ptIndex Entry)
open Talloc (tmapBuckets tallocVaddr slotAddress)

variable {pdpts : Pdpts} {state next : State} {pts tmapPts supply others leaves : List Nat}
variable {frames : Frames} {op : Op}

/-! ## The start -/

/-- The steps that the first directories have room for. -/
def Fits (state : State) : Op → Prop
  | .alloc => state.talloc.tables.length < 511 * 511 ∧ state.tmap.pages.length + 1 < 511 * 512
  | .addPage => state.tmap.pages.length + 1 < 511 * 512
  | _ => True

/-- The windows stand, with at least one page table for the table allocator. -/
def Running (pdpts : Pdpts) (state : State) : Prop :=
  ∃ pts tmapPts, Standing pdpts state pts tmapPts ∧ 0 < pts.length

theorem Standing.mapped (hstanding : Standing pdpts state pts tmapPts) : Mapped pdpts state :=
  ⟨fun _ halloc => hstanding.talloc.translate halloc,
    fun _ hmade => hstanding.tmap.toTmapPages.translate hmade⟩

/-- What a returning call of `paging_talloc_alloc` leaves behind. -/
theorem Running.alloc (hrunning : Running pdpts state) (hfits : Fits state .alloc) :
    Ends state.supply 4 (tallocAlloc pdpts state) fun result => Running pdpts result.2 ∧
      result.2.talloc.tables = state.talloc.tables ++ [result.1] ∧ Within state result.2 1 4 := by
  obtain ⟨pts, tmapPts, hstanding, hpos⟩ := hrunning
  refine (hstanding.tallocAlloc_ends hpos hfits.1 hfits.2).imp ?_
  rintro result ⟨pts, tmapPts, hnext, hpos, htables, hwithin⟩
  exact ⟨⟨pts, tmapPts, hnext, hpos⟩, htables, hwithin⟩

theorem Running.addPage (hrunning : Running pdpts state) (hfits : Fits state .addPage) :
    Ends state.supply 2 (addTmapPage pdpts state) fun result => Running pdpts result.2 ∧
      result.2.talloc = state.talloc ∧
      result.2.tmap.pages = state.tmap.pages ++ [result.1] ∧
      state.supply.length ≤ result.2.supply.length + 2 := by
  obtain ⟨pts, tmapPts, hstanding, hpos⟩ := hrunning
  refine (addTmapPage_ends hstanding.tmap hstanding.apart hfits).imp ?_
  rintro result ⟨grown, hmade⟩
  exact ⟨⟨pts, grown, hmade.standing hstanding, hpos⟩, hmade.talloc, hmade.pages, hmade.supply⟩

/-- The page is the one that `Talloc.addTmapPage` makes if the supply has the frames of its bitmap. -/
theorem Running.addTmapPage_alike (hrunning : Running pdpts state) (hfits : Fits state .addPage)
    {area : Bitmap.Area} {words : Bitmap.Words} {second : Nat} {rest : List Nat}
    (hsupply : state.supply = (Bitmap.bitmapReserve area words).1 :: second :: rest) :
    ∃ made next, addTmapPage pdpts state = .ok (made, next) ∧ ∃ used,
      Talloc.addTmapPage area words state.tmap.pages.length =
        .ok (made.paddr, used, next.tmap.pages.length) := by
  rcases hrunning.addPage hfits with ⟨⟨made, next⟩, hreturn, -, -, hpages, -⟩ | ⟨-, hshort⟩
  · have hmade : made.paddr = (Bitmap.bitmapReserve area words).1 := by
      simp only [addTmapPage, bitmapReserve, hsupply, ok_bind] at hreturn
      split at hreturn
      all_goals
        obtain ⟨linked, -, hreturn⟩ := bind_eq_ok.mp hreturn
        obtain ⟨_, -, hreturn⟩ := bind_eq_ok.mp hreturn
        cases hreturn
        rfl
    have hroom : state.tmap.pages.length + 1 < 511 * 512 := hfits
    have hne : ¬((state.tmap.pages.length + 1) / 512 % 512 = 511) := by omega
    refine ⟨made, next, hreturn, ?_⟩
    rw [hmade, hpages, List.length_append]
    simp only [Talloc.addTmapPage, if_neg hne]
    split <;> exact ⟨_, rfl⟩
  · simp only [hsupply, List.length_cons] at hshort
    omega

theorem Ends.of_ok {α : Type} {cost : Nat} {call : Except Fault α} {good : α → Prop} {value : α}
    (hends : Ends supply cost call good) (hreturn : call = .ok value) : good value := by
  rcases hends with ⟨other, hother, hgood⟩ | ⟨hfault, -⟩
  · rw [hreturn] at hother
    cases hother
    exact hgood
  · rw [hreturn] at hfault
    cases hfault

/-- Giving a table back changes what the translation map holds, but none of its pages. -/
theorem Running.free (hrunning : Running pdpts state) {alloc : Allocation}
    (hreturn : tallocFree pdpts state alloc = .ok next) : Running pdpts next := by
  obtain ⟨pts, tmapPts, hstanding, hpos⟩ := hrunning
  obtain ⟨pages, herase, hsame⟩ := @eraseEntry_eq_ok pdpts state.frames alloc.paddr
    (state.tmap.buckets (Talloc.tmapHash alloc.paddr)) hstanding.tmap.toTmapPages.access
  unfold tallocFree tmapUnmap at hreturn
  simp only [herase, ok_bind, pure_eq_ok] at hreturn
  cases hreturn
  exact ⟨pts, tmapPts, ⟨hstanding.talloc,
    hstanding.tmap.setBucket (hstanding.tmap.toTmapPages.of_same hsame), hstanding.apart⟩, hpos⟩

/-- Writes to a table that was handed out reach no table of a window. -/
theorem Running.store (hrunning : Running pdpts state) {alloc : Allocation} {frame index : Nat}
    {entry : Entry} (hheld : alloc ∈ state.talloc.tables)
    (haccess : state.frames.access pdpts.talloc alloc.vaddr = .ok frame) :
    Running pdpts { state with
      frames := Function.update state.frames frame
        (Function.update (state.frames frame) index entry) } := by
  obtain ⟨pts, tmapPts, hstanding, hpos⟩ := hrunning
  have hframe : frame = alloc.paddr := by
    have htranslate := Frames.access_eq_ok.mp haccess
    rw [hstanding.talloc.translate hheld, Option.some.injEq] at htranslate
    exact htranslate.symm
  subst hframe
  have hleaf := hstanding.apart.leaf alloc.paddr
    (List.mem_append_left _ (List.mem_map_of_mem hheld))
  rw [List.mem_append, not_or] at hleaf
  refine ⟨pts, tmapPts, ⟨hstanding.talloc.congr fun frame hframe => ?_,
    hstanding.tmap.congr fun frame hframe => ?_, hstanding.apart⟩, hpos⟩
  · exact Function.update_of_ne (by rintro rfl; exact hleaf.1 hframe) _ _
  · exact Function.update_of_ne (by rintro rfl; exact hleaf.2 hframe) _ _

/-- A frame that goes elsewhere is none of the windows'. -/
theorem Running.reserve (hrunning : Running pdpts state) {frame : Nat}
    (hreturn : bitmapReserve state = .ok (frame, next)) : Running pdpts next := by
  obtain ⟨pts, tmapPts, hstanding, hpos⟩ := hrunning
  obtain ⟨rest, hsupply, hnext⟩ := (bitmapReserve_ends state).of_ok hreturn
  dsimp only at hsupply hnext
  subst hnext
  have hapart := hstanding.apart
  rw [hsupply] at hapart
  exact ⟨pts, tmapPts, ⟨hstanding.talloc, hstanding.tmap, hapart.tail⟩, hpos⟩

theorem Running.step (hrunning : Running pdpts state) (hfits : Fits state op)
    (hstep : Step pdpts state op next) : Running pdpts next := by
  cases hstep with
  | alloc hreturn => exact ((hrunning.alloc hfits).of_ok hreturn).1
  | addPage hreturn => exact ((hrunning.addPage hfits).of_ok hreturn).1
  | free _ hreturn => exact hrunning.free hreturn
  | store hheld haccess => exact hrunning.store hheld haccess
  | reserve hreturn => exact hrunning.reserve hreturn

end PKernel.Windows
