import PKernel.Paging.WindowTables

/-! # The calls that grow the windows

One lemma for each function: as long as the directory of the window has room, it returns with the
tables of the windows as they were and one more of its own, or it finds no frame.
-/

namespace PKernel.Windows

open PageTables (Allocation pdptIndex pdtIndex ptIndex)
open Talloc (tmapPageEntries tmapBuckets tmapHash tallocVaddr slotAddress)

/-- A call returns something good, or it finds no frame, for which fewer than `cost` were left. -/
def Ends {α : Type} (supply : List Nat) (cost : Nat) (call : Except Fault α) (good : α → Prop) :
    Prop :=
  (∃ value, call = .ok value ∧ good value) ∨ call = .error .exhausted ∧ supply.length < cost

variable {pdpts : Pdpts} {state next : State} {pts tmapPts supply others leaves : List Nat}
variable {cost rest taken : Nat} {α β : Type} {call : Except Fault α} {good middle : α → Prop}

namespace Ends

theorem ok {value : α} (hgood : good value) : Ends supply cost (.ok value) good :=
  .inl ⟨value, rfl, hgood⟩

theorem bind {next : α → Except Fault β} {goodNext : β → Prop}
    (hcall : Ends supply rest call middle) (hle : rest ≤ cost)
    (hnext : ∀ value, middle value → Ends supply cost (next value) goodNext) :
    Ends supply cost (call >>= next) goodNext := by
  rcases hcall with ⟨value, rfl, hvalue⟩ | ⟨rfl, hshort⟩
  · rw [ok_bind]
    exact hnext value hvalue
  · exact .inr ⟨error_bind _ _, by omega⟩

/-- A later part of a call, when some frames are gone. -/
theorem later {left : List Nat} (hends : Ends left rest call good)
    (htaken : supply.length ≤ left.length + taken) (hcost : rest + taken ≤ cost) :
    Ends supply cost call good := by
  rcases hends with hreturn | ⟨hcall, hshort⟩
  · exact .inl hreturn
  · exact .inr ⟨hcall, by omega⟩

theorem imp {better : α → Prop} (hends : Ends supply cost call good)
    (himp : ∀ value, good value → better value) : Ends supply cost call better := by
  rcases hends with ⟨value, hreturn, hgood⟩ | hshort
  · exact .inl ⟨value, hreturn, himp value hgood⟩
  · exact .inr hshort

end Ends

theorem bitmapReserve_ends (state : State) :
    Ends state.supply 1 (bitmapReserve state) fun reserved => ∃ rest,
      state.supply = reserved.1 :: rest ∧ reserved.2 = { state with supply := rest } := by
  unfold bitmapReserve
  cases hsupply : state.supply with
  | nil => exact .inr ⟨rfl, Nat.zero_lt_one⟩
  | cons frame rest => exact .ok ⟨rest, rfl, rfl⟩

/-! ## The translation map -/

/-- A page table that is not the last one of the directory. -/
theorem newTmapPt_ends (hne : pdtIndex state.tmap.nextPagePtr ≠ 511) :
    Ends state.supply 1 (newTmapPt pdpts state) fun next => ∃ pt rest,
      state.supply = pt :: rest ∧ next = { state with
        supply := rest
        frames := (state.frames.clear pt).link state.tmap.pdtPaddr
          (pdtIndex state.tmap.nextPagePtr) pt
        tmap := { state.tmap with ptPaddr := pt } } := by
  unfold newTmapPt
  refine (bitmapReserve_ends state).bind (Nat.le_refl 1) ?_
  rintro ⟨pt, reserved⟩ ⟨rest, hsupply, rfl⟩
  simp only [if_neg hne, pure_eq_ok]
  exact .ok ⟨pt, rest, hsupply, rfl⟩

/-- What `add_tmap_page` leaves behind: one page more, and the tables of others as they were. -/
structure MadePage (pdpts : Pdpts) (state : State) (others leaves : List Nat) (made : Allocation)
    (next : State) (tmapPts : List Nat) : Prop where
  window : TmapWindow next.frames pdpts.tmap next.tmap tmapPts
  apart : Apart next.supply (others ++ inner pdpts.tmap next.tmap.pdtPaddr tmapPts)
    (leaves ++ next.tmap.pages.map (·.paddr))
  kept : ∀ frame ∈ others, next.frames frame = state.frames frame
  talloc : next.talloc = state.talloc
  pages : next.tmap.pages = state.tmap.pages ++ [made]
  buckets : next.tmap.buckets = state.tmap.buckets
  supply : state.supply.length ≤ next.supply.length + 2

theorem addTmapPage_ends (hwindow : TmapWindow state.frames pdpts.tmap state.tmap tmapPts)
    (hapart : Apart state.supply (others ++ inner pdpts.tmap state.tmap.pdtPaddr tmapPts)
      (leaves ++ state.tmap.pages.map (·.paddr)))
    (hroom : state.tmap.pages.length + 1 < 511 * 512) :
    Ends state.supply 2 (addTmapPage pdpts state) fun result =>
      ∃ tmapPts, MadePage pdpts state others leaves result.1 result.2 tmapPts := by
  have hptr := hwindow.ptr
  have hbase : 2 ^ 39 ∣ tmapVaddr := by decide
  have hindex : ptIndex state.tmap.nextPagePtr = state.tmap.pages.length % 512 := by
    rw [hptr, Frames.ptIndex_page hbase]
  have hmem := mem_of_getElem? hwindow.last
  have hdistinct := List.nodup_append.mp hapart.distinct
  have hother : ∀ frame ∈ others, frame ≠ state.tmap.ptPaddr ∧ frame ≠ state.tmap.pdtPaddr :=
    fun frame hframe => ⟨hdistinct.2.2 frame hframe _ (by simp [inner, hmem]),
      hdistinct.2.2 frame hframe _ (by simp [inner])⟩
  unfold addTmapPage
  refine (bitmapReserve_ends state).bind (by decide) ?_
  rintro ⟨page, reserved⟩ ⟨rest, hsupply, rfl⟩
  simp only [hindex] at hsupply ⊢
  rw [hsupply] at hapart ⊢
  have hpage := hapart.page page List.mem_cons_self
  have hfresh := (hapart.fresh page List.mem_cons_self).1
  rw [List.mem_append, not_or] at hfresh
  have hpages := hwindow.toTmapPages.fill hwindow.last hpage hdistinct.2.1 hfresh.2
  have hmapped : Apart rest (others ++ inner pdpts.tmap state.tmap.pdtPaddr tmapPts)
      (leaves ++ (state.tmap.pages ++ [(⟨page, state.tmap.nextPagePtr⟩ : Allocation)]).map
        (·.paddr)) := by
    refine hapart.map fun leaf => ?_
    simp only [List.map_append, List.map_cons, List.map_nil, List.mem_append, List.mem_singleton]
    tauto
  have hkept : ∀ frame ∈ others, ((state.frames.clear page).link state.tmap.ptPaddr
      (state.tmap.pages.length % 512) page) frame = state.frames frame := by
    intro frame hframe
    rw [Frames.link_of_ne (hother frame hframe).1,
      Frames.clear_of_ne (by rintro rfl; exact hfresh.1 hframe)]
  have hcount := hwindow.count
  have hnext : u64 (state.tmap.nextPagePtr + pageSize) =
      tmapVaddr + (state.tmap.pages.length + 1) * pageSize := by
    simpa only [List.length_append, List.length_singleton] using hpages.ptr
  by_cases hend : state.tmap.pages.length % 512 = 511
  · -- the page is the last one of its page table
    rw [if_pos hend]
    have hpdtIndex : pdtIndex (u64 (state.tmap.nextPagePtr + pageSize)) = tmapPts.length := by
      rw [hnext, Frames.pdtIndex_page hbase]
      omega
    refine Ends.bind ((newTmapPt_ends ?_).later (Nat.le_of_eq rfl) (Nat.le_refl 2))
      (Nat.le_refl 2) ?_
    · simp only [hpdtIndex]
      omega
    rintro _ ⟨pt, left, hleft, rfl⟩
    simp only [hpdtIndex] at hleft ⊢
    subst hleft
    have hpt := hmapped.page pt List.mem_cons_self
    have hptFresh := (hmapped.fresh pt List.mem_cons_self).1
    rw [List.mem_append, not_or] at hptFresh
    have hgrown := hpages.extend (by omega) hpt hdistinct.2.1 hptFresh.2
    have haccess := Frames.access_eq_ok.mpr
      (hgrown.translate (List.mem_append_right _ (List.mem_singleton_self _)))
    simp only [haccess, ok_bind, pure_eq_ok]
    refine .ok ⟨tmapPts ++ [pt], ⟨hgrown, ?_, ?_⟩, ?_, ?_, rfl, rfl, rfl, ?_⟩
    · simp only [List.length_append, List.length_singleton]
      omega
    · simp only [List.length_append, List.length_singleton]
      rw [show (state.tmap.pages.length + 1) / 512 = tmapPts.length by omega,
        List.getElem?_concat_length]
    · refine hmapped.grow ?_
      change (others ++ (inner pdpts.tmap state.tmap.pdtPaddr tmapPts ++ [pt])).Perm _
      rw [← List.append_assoc]
      exact List.perm_append_singleton _ _
    · intro frame hframe
      dsimp only
      rw [Frames.link_of_ne (hother frame hframe).2,
        Frames.clear_of_ne (by rintro rfl; exact hptFresh.1 hframe)]
      exact hkept frame hframe
    · simp only [hsupply, List.length_cons]
      omega
  · rw [if_neg hend]
    simp only [pure_eq_ok, ok_bind]
    have haccess := Frames.access_eq_ok.mpr
      (hpages.translate (List.mem_append_right _ (List.mem_singleton_self _)))
    simp only [haccess, ok_bind]
    refine .ok ⟨tmapPts, ⟨hpages, ?_, ?_⟩, hmapped, hkept, rfl, rfl, rfl, ?_⟩
    · simp only [List.length_append, List.length_singleton]
      omega
    · simp only [List.length_append, List.length_singleton]
      rw [show (state.tmap.pages.length + 1) / 512 = state.tmap.pages.length / 512 by omega]
      exact hwindow.last
    · simp only [hsupply, List.length_cons]
      omega

/-- Every page of a chain is reached through the window. -/
theorem TmapPages.access {frames : Frames} {pdpt : Nat} {tmap : TmapState} {pts : List Nat}
    (hpages : TmapPages frames pdpt tmap pts) {hash : Nat} :
    ∀ page ∈ tmap.buckets hash, ∃ frame, frames.access pdpt page.vaddr = .ok frame := by
  intro page hpage
  obtain ⟨made, hmade, hvaddr⟩ := hpages.chain hash page hpage
  refine ⟨made.paddr, ?_⟩
  rw [hvaddr]
  exact Frames.access_eq_ok.mpr (hpages.translate hmade)

/-- The pages are the same, whatever entries they hold. -/
def SamePages (chain inserted : List TmapPage) : Prop :=
  inserted.map (·.vaddr) = chain.map (·.vaddr)

theorem insertEntry_eq_ok {frames : Frames} {entry : Allocation} {chain : List TmapPage}
    (haccess : ∀ page ∈ chain, ∃ frame, frames.access pdpts.tmap page.vaddr = .ok frame) :
    ∃ inserted, insertEntry pdpts frames entry chain = .ok inserted ∧
      ∀ pages ∈ inserted, SamePages chain pages := by
  induction chain with
  | nil => exact ⟨none, rfl, by simp⟩
  | cons page rest ih =>
      obtain ⟨frame, hframe⟩ := haccess page List.mem_cons_self
      obtain ⟨inserted, hinserted, hsame⟩ := ih fun other hother =>
        haccess other (List.mem_cons_of_mem _ hother)
      simp only [insertEntry, hframe, ok_bind, hinserted, pure_eq_ok]
      by_cases hlength : page.entries.length ≠ tmapPageEntries
      · rw [if_pos hlength]
        exact ⟨_, rfl, by simp [SamePages]⟩
      · rw [if_neg hlength]
        refine ⟨_, rfl, fun pages hpages => ?_⟩
        obtain ⟨old, hold, rfl⟩ := Option.mem_map.mp hpages
        simpa [SamePages] using hsame old hold

theorem eraseEntry_eq_ok {frames : Frames} {paddr : Nat} {chain : List TmapPage}
    (haccess : ∀ page ∈ chain, ∃ frame, frames.access pdpts.tmap page.vaddr = .ok frame) :
    ∃ pages, eraseEntry pdpts frames paddr chain = .ok pages ∧ SamePages chain pages := by
  induction chain with
  | nil => exact ⟨[], rfl, rfl⟩
  | cons page rest ih =>
      obtain ⟨frame, hframe⟩ := haccess page List.mem_cons_self
      obtain ⟨erased, herased, hsame⟩ := ih fun other hother =>
        haccess other (List.mem_cons_of_mem _ hother)
      simp only [eraseEntry, hframe, ok_bind, herased, pure_eq_ok]
      cases page.entries.findIdx? (·.paddr == paddr) with
      | some i => exact ⟨_, rfl, by simp [SamePages]⟩
      | none => exact ⟨_, rfl, by simpa [SamePages] using hsame⟩

/-- A chain gets another one whose pages have been made. -/
theorem TmapWindow.setBucket {frames : Frames} {pdpt : Nat} {tmap : TmapState} {pts : List Nat}
    (hwindow : TmapWindow frames pdpt tmap pts) {hash : Nat} {chain : List TmapPage}
    (hchain : ∀ page ∈ chain, ∃ made ∈ tmap.pages, page.vaddr = made.vaddr) :
    TmapWindow frames pdpt (tmap.setBucket hash chain) pts := by
  refine ⟨⟨hwindow.spans, hwindow.few, hwindow.ptr, hwindow.page, ?_⟩, hwindow.count, hwindow.last⟩
  intro other page hpage
  simp only [TmapState.setBucket, Function.update_apply] at hpage
  split at hpage
  · exact hchain page hpage
  · exact hwindow.chain other page hpage

theorem TmapPages.of_same {frames : Frames} {pdpt : Nat} {tmap : TmapState} {pts : List Nat}
    (hpages : TmapPages frames pdpt tmap pts) {hash : Nat} {chain : List TmapPage}
    (hsame : SamePages (tmap.buckets hash) chain) :
    ∀ page ∈ chain, ∃ made ∈ tmap.pages, page.vaddr = made.vaddr := by
  intro page hpage
  have hvaddr : page.vaddr ∈ (tmap.buckets hash).map (·.vaddr) := by
    rw [← show chain.map (·.vaddr) = _ from hsame]
    exact List.mem_map_of_mem hpage
  obtain ⟨old, hold, heq⟩ := List.mem_map.mp hvaddr
  obtain ⟨made, hmade, hvaddr⟩ := hpages.chain hash old hold
  exact ⟨made, hmade, heq ▸ hvaddr⟩

/-- The two windows stand side by side. -/
structure Standing (pdpts : Pdpts) (state : State) (pts tmapPts : List Nat) : Prop where
  talloc : TallocWindow state.frames pdpts.talloc state.talloc pts
  tmap : TmapWindow state.frames pdpts.tmap state.tmap tmapPts
  apart : Apart state.supply (inner pdpts.talloc state.talloc.pdtPaddr pts ++
      inner pdpts.tmap state.tmap.pdtPaddr tmapPts)
    (state.talloc.tables.map (·.paddr) ++ state.tmap.pages.map (·.paddr))

/-- At most so many pages of the translation map are new, and so many frames gone. -/
structure Within (state next : State) (pages frames : Nat) : Prop where
  pages : next.tmap.pages.length ≤ state.tmap.pages.length + pages
  supply : state.supply.length ≤ next.supply.length + frames

theorem MadePage.standing {made : Allocation} (hstanding : Standing pdpts state pts tmapPts)
    {grown : List Nat} (hmade : MadePage pdpts state
      (inner pdpts.talloc state.talloc.pdtPaddr pts) (state.talloc.tables.map (·.paddr)) made next
      grown) : Standing pdpts next pts grown := by
  refine ⟨?_, hmade.window, ?_⟩
  · rw [hmade.talloc]
    exact hstanding.talloc.congr hmade.kept
  · rw [hmade.talloc]
    exact hmade.apart

namespace Standing

theorem tmapMap_ends (hstanding : Standing pdpts state pts tmapPts) (entry : Allocation)
    (hroom : state.tmap.pages.length + 1 < 511 * 512) :
    Ends state.supply 2 (tmapMap pdpts state entry) fun next => ∃ tmapPts,
      Standing pdpts next pts tmapPts ∧ next.talloc = state.talloc ∧ Within state next 1 2 := by
  unfold tmapMap
  obtain ⟨inserted, hinserted, hsame⟩ := @insertEntry_eq_ok pdpts state.frames entry
    (state.tmap.buckets (tmapHash entry.paddr)) hstanding.tmap.toTmapPages.access
  simp only [hinserted, ok_bind]
  cases hpages : inserted with
  | some pages =>
      simp only [pure_eq_ok]
      have hchain := hstanding.tmap.toTmapPages.of_same (hsame pages (by simp [hpages]))
      exact .ok ⟨tmapPts, ⟨hstanding.talloc, hstanding.tmap.setBucket hchain, hstanding.apart⟩, rfl,
        ⟨Nat.le_succ _, Nat.le_add_right _ _⟩⟩
  | none =>
      dsimp only
      refine (addTmapPage_ends hstanding.tmap hstanding.apart hroom).bind (Nat.le_refl 2) ?_
      rintro ⟨made, next⟩ ⟨grown, hmade⟩
      have hnext := hmade.standing hstanding
      have hmem : made ∈ next.tmap.pages := by
        rw [hmade.pages]
        exact List.mem_append_right _ (List.mem_singleton_self _)
      have haccess := Frames.access_eq_ok.mpr (hnext.tmap.toTmapPages.translate hmem)
      simp only [haccess, ok_bind, pure_eq_ok]
      refine .ok ⟨grown, ⟨hnext.talloc, hnext.tmap.setBucket ?_, hnext.apart⟩, hmade.talloc, ?_,
        hmade.supply⟩
      · intro page hpage
        rcases List.mem_cons.mp hpage with rfl | hold
        · exact ⟨made, hmem, rfl⟩
        · rw [← hmade.buckets] at hold
          exact hnext.tmap.chain _ page hold
      · have hlength := congrArg List.length hmade.pages
        rw [List.length_append, List.length_singleton] at hlength
        exact Nat.le_of_eq hlength

end Standing

/-! ## The table allocator -/

theorem present_eq (frames : Frames) (frame index : Nat) :
    (frames frame index).present = (frames.child frame index).isSome := by
  unfold Frames.child
  split
  next hpresent => simp [hpresent]
  next hclear => simpa using hclear

/-- A page table in front of the next slot is full. -/
theorem TallocWindow.freeEntry_eq_none {frames : Frames} {pdpt : Nat} {talloc : TallocState}
    (hwindow : TallocWindow frames pdpt talloc pts) {i pt : Nat} (hpt : pts[i]? = some pt)
    (hi : i < talloc.tables.length / 511) : freeEntry (frames pt) = none := by
  refine List.find?_eq_none.mpr fun j hj => ?_
  obtain ⟨hlower, hupper⟩ := List.mem_range'_1.mp hj
  have hlt : i * 511 + (j - 1) < talloc.tables.length := by omega
  obtain ⟨-, other, hother, hslot⟩ := hwindow.slot _ _ (List.getElem?_eq_getElem hlt)
  rw [show (i * 511 + (j - 1)) / 511 = i by omega, hpt, Option.some.injEq] at hother
  rw [show (i * 511 + (j - 1)) % 511 + 1 = j by omega, ← hother] at hslot
  simp [present_eq, hslot]

/-- The first entry that is not present is the next slot. -/
theorem TallocWindow.freeEntry_eq_some {frames : Frames} {pdpt : Nat} {talloc : TallocState}
    (hwindow : TallocWindow frames pdpt talloc pts) {pt : Nat}
    (hpt : pts[talloc.tables.length / 511]? = some pt) :
    freeEntry (frames pt) = some (talloc.tables.length % 511 + 1) := by
  refine List.find?_range'_eq_some.mpr ⟨?_, ?_, ?_⟩
  · simp [present_eq, hwindow.free _ pt (Nat.le_refl _) hpt]
  · rw [List.mem_range'_1]
    omega
  · intro j hlower hupper
    have hlt : talloc.tables.length / 511 * 511 + (j - 1) < talloc.tables.length := by omega
    obtain ⟨-, other, hother, hslot⟩ := hwindow.slot _ _ (List.getElem?_eq_getElem hlt)
    rw [show (talloc.tables.length / 511 * 511 + (j - 1)) / 511 = talloc.tables.length / 511 by
      omega, hpt, Option.some.injEq] at hother
    rw [show (talloc.tables.length / 511 * 511 + (j - 1)) % 511 + 1 = j by omega, ← hother] at hslot
    simp [present_eq, hslot]

theorem TallocWindow.access {frames : Frames} {pdpt : Nat} {talloc : TallocState}
    (hwindow : TallocWindow frames pdpt talloc pts) {i pt : Nat} (hpt : pts[i]? = some pt) :
    frames.access pdpt (slotAddress i 0) = .ok pt :=
  Frames.access_eq_ok.mpr
    ((hwindow.translate_slot hpt (by decide)).trans (hwindow.self i pt hpt))

/-- The search ends at the next slot when the page tables have one. -/
theorem findSlot_eq (hwindow : TallocWindow state.frames pdpts.talloc state.talloc pts)
    (hfree : state.talloc.tables.length < 511 * pts.length) {fuel currentPt : Nat}
    (hle : currentPt ≤ state.talloc.tables.length / 511)
    (hfuel : state.talloc.tables.length / 511 < currentPt + fuel) :
    findSlot pdpts fuel state currentPt = .ok (state, state.talloc.tables.length / 511,
      state.talloc.tables.length % 511 + 1) := by
  induction fuel generalizing currentPt with
  | zero => omega
  | succ fuel ih =>
      have hpt : pts[currentPt]? = some pts[currentPt] := List.getElem?_eq_getElem (by omega)
      simp only [findSlot, hwindow.access hpt, ok_bind]
      rcases Nat.eq_or_lt_of_le hle with heq | hlt
      · rw [hwindow.freeEntry_eq_some (heq ▸ hpt), ← heq]
        rfl
      · have hcount := hwindow.count
        rw [hwindow.freeEntry_eq_none hpt hlt]
        dsimp only
        rw [if_neg (by omega)]
        exact ih (by omega) (by omega)

/-- When all slots are taken it comes to `add_pt` at the last page table. -/
theorem findSlot_full (hwindow : TallocWindow state.frames pdpts.talloc state.talloc pts)
    (hfull : state.talloc.tables.length = 511 * pts.length) {fuel currentPt : Nat}
    (hlt : currentPt < pts.length) :
    findSlot pdpts (fuel + (pts.length - currentPt)) state currentPt =
      addPt pdpts state >>= fun grown => findSlot pdpts fuel grown pts.length := by
  obtain ⟨left, hleft⟩ : ∃ left, pts.length - currentPt = left + 1 :=
    Nat.exists_eq_succ_of_ne_zero (by omega)
  induction left generalizing currentPt with
  | zero =>
      have hpt : pts[currentPt]? = some pts[currentPt] := List.getElem?_eq_getElem hlt
      have hcount := hwindow.count
      rw [hleft, findSlot, hwindow.access hpt, ok_bind, hwindow.freeEntry_eq_none hpt (by omega)]
      dsimp only
      rw [if_pos (by omega), show currentPt + 1 = pts.length by omega]
  | succ left ih =>
      have hpt : pts[currentPt]? = some pts[currentPt] := List.getElem?_eq_getElem hlt
      have hcount := hwindow.count
      rw [hleft, ← Nat.add_assoc, findSlot, hwindow.access hpt, ok_bind,
        hwindow.freeEntry_eq_none hpt (by omega)]
      dsimp only
      rw [if_neg (by omega), pure_eq_ok, ok_bind,
        show fuel + (left + 1) = fuel + (pts.length - (currentPt + 1)) by omega]
      exact ih (by omega) (by omega)

/-- A page table that is not the last one of the directory. The address is a variable of its own, so
that no comparison of records computes it. -/
theorem addPt_ends (hne : pdtIndex state.talloc.currentVaddr ≠ 511) :
    Ends state.supply 1 (addPt pdpts state) fun next => ∃ pt rest vaddr,
      state.supply = pt :: rest ∧ u64 (state.talloc.currentVaddr + 512 * pageSize) = vaddr ∧
        next = { state with
          supply := rest
          frames := (((state.frames.clear pt).link state.talloc.pdtPaddr
            (pdtIndex state.talloc.currentVaddr) pt).clear pt).link pt 0 pt
          talloc := { state.talloc with
            ptPaddr := pt
            currentVaddr := vaddr
            ptCount := state.talloc.ptCount + 1 } } := by
  unfold addPt
  refine (bitmapReserve_ends state).bind (Nat.le_refl 1) ?_
  rintro ⟨pt, reserved⟩ ⟨rest, hsupply, rfl⟩
  simp only [if_neg hne, pure_eq_ok, ok_bind]
  exact .ok ⟨pt, rest, _, hsupply, rfl, rfl⟩

theorem TallocWindow.pdtIndex_current {frames : Frames} {pdpt : Nat} {talloc : TallocState}
    (hwindow : TallocWindow frames pdpt talloc pts) :
    pdtIndex talloc.currentVaddr = pts.length := by
  have hbase : 2 ^ 39 ∣ tallocVaddr := by decide
  have hfew := hwindow.few
  rw [hwindow.vaddr, slotAddress, Frames.pdtIndex_page hbase]
  omega

namespace Standing

/-- A page table joins the window. -/
theorem addPt_ends (hstanding : Standing pdpts state pts tmapPts) (hroom : pts.length < 511) :
    Ends state.supply 1 (addPt pdpts state) fun next => ∃ pt,
      Standing pdpts next (pts ++ [pt]) tmapPts ∧
        next.talloc.tables = state.talloc.tables ∧ Within state next 0 1 := by
  have hindex := hstanding.talloc.pdtIndex_current
  have hne : pdtIndex state.talloc.currentVaddr ≠ 511 := by omega
  refine (Windows.addPt_ends hne).imp ?_
  rintro next ⟨pt, rest, vaddr, hsupply, hvaddr, rfl⟩
  have hapart := hstanding.apart
  rw [hsupply] at hapart
  have hpage := hapart.page pt List.mem_cons_self
  have hfresh := (hapart.fresh pt List.mem_cons_self).1
  rw [List.mem_append, not_or] at hfresh
  have hdistinct := List.nodup_append.mp hapart.distinct
  have hextended := hstanding.talloc.extend hroom hpage hdistinct.1 hfresh.1
  rw [hvaddr] at hextended
  rw [hindex]
  refine ⟨pt, ⟨hextended, ?_, ?_⟩, rfl, ?_, ?_⟩
  · refine hstanding.tmap.congr fun frame hframe => ?_
    have hne : frame ≠ pt := by
      rintro rfl
      exact hfresh.2 hframe
    have hpdt : frame ≠ state.talloc.pdtPaddr :=
      Ne.symm (hdistinct.2.2 _ (by simp [inner]) frame hframe)
    dsimp only
    rw [Frames.link_of_ne hne, Frames.clear_of_ne hne, Frames.link_of_ne hpdt,
      Frames.clear_of_ne hne]
  · refine hapart.grow ?_
    change ((inner pdpts.talloc state.talloc.pdtPaddr pts ++ [pt]) ++ _).Perm _
    rw [List.append_assoc]
    exact List.perm_middle
  · exact Nat.le_refl _
  · rw [hsupply]
    exact Nat.le_refl _

/-- The search finds the next slot, in a new page table when the others are full. -/
theorem findSlot_ends (hstanding : Standing pdpts state pts tmapPts) (hpos : 0 < pts.length)
    (hroom : state.talloc.tables.length < 511 * 511) :
    Ends state.supply 1 (findSlot pdpts (state.talloc.ptCount + 2) state 0) fun found => ∃ pts,
      Standing pdpts found.1 pts tmapPts ∧ 0 < pts.length ∧
        found.1.talloc.tables = state.talloc.tables ∧ Within state found.1 0 1 ∧
        state.talloc.tables.length < 511 * pts.length ∧
        found.2 = (state.talloc.tables.length / 511, state.talloc.tables.length % 511 + 1) := by
  have hcount := hstanding.talloc.count
  have hfull := hstanding.talloc.full
  rcases Nat.lt_or_eq_of_le hfull with hfree | hfull
  · rw [findSlot_eq hstanding.talloc hfree (Nat.zero_le _) (by omega)]
    exact .ok ⟨pts, hstanding, hpos, rfl, ⟨Nat.le_refl _, Nat.le_succ _⟩, hfree, rfl⟩
  · rw [show state.talloc.ptCount + 2 = 2 + (pts.length - 0) by omega,
      findSlot_full hstanding.talloc hfull hpos]
    refine (hstanding.addPt_ends (by omega)).bind (Nat.le_refl 1) ?_
    rintro grown ⟨pt, hgrown, htables, hwithin⟩
    have hlength : (pts ++ [pt]).length = pts.length + 1 := by simp
    rw [findSlot_eq hgrown.talloc (by rw [htables]; omega) (by rw [htables]; omega)
      (by rw [htables]; omega)]
    exact .ok ⟨pts ++ [pt], hgrown, by omega, htables, hwithin, by omega, by rw [htables]⟩

/-- The slot gets a page of its own, which is registered in the translation map. -/
theorem takeSlot_ends (hstanding : Standing pdpts state pts tmapPts)
    (hfree : state.talloc.tables.length < 511 * pts.length)
    (hroom : state.tmap.pages.length + 1 < 511 * 512) :
    Ends state.supply 3 (takeSlot pdpts state (state.talloc.tables.length / 511)
      (state.talloc.tables.length % 511 + 1)) fun result => ∃ tmapPts,
        Standing pdpts result.2 pts tmapPts ∧
          result.2.talloc.tables = state.talloc.tables ++ [result.1] ∧
          Within state result.2 1 3 := by
  have hpt : pts[state.talloc.tables.length / 511]? = some pts[state.talloc.tables.length / 511] :=
    List.getElem?_eq_getElem (by omega)
  unfold takeSlot
  refine (bitmapReserve_ends state).bind (by decide) ?_
  rintro ⟨paddr, reserved⟩ ⟨rest, hsupply, rfl⟩
  dsimp only at hsupply ⊢
  have hapart := hstanding.apart
  rw [hsupply] at hapart ⊢
  have hpage := hapart.page paddr List.mem_cons_self
  have hfresh := (hapart.fresh paddr List.mem_cons_self).1
  rw [List.mem_append, not_or] at hfresh
  have hdistinct := List.nodup_append.mp hapart.distinct
  have hfilled := hstanding.talloc.fill hpt hpage hdistinct.1 hfresh.1
  have hne {frame : Nat} (hframe : frame ∈ inner pdpts.talloc state.talloc.pdtPaddr pts) :
      frame ≠ paddr := by
    rintro rfl
    exact hfresh.1 hframe
  have hlinked := hfilled.congr fun frame hframe => (Frames.clear_of_ne (hne hframe)).symm
  have haccess := Frames.access_eq_ok.mpr
    (hlinked.translate (List.mem_append_right _ (List.mem_singleton_self _)))
  simp only [hstanding.talloc.access hpt, haccess, ok_bind]
  have hnext : Standing pdpts { state with
      supply := rest
      frames := (state.frames.link pts[state.talloc.tables.length / 511]
        (state.talloc.tables.length % 511 + 1) paddr).clear paddr
      talloc := { state.talloc with
        tables := state.talloc.tables ++ [⟨paddr, slotAddress (state.talloc.tables.length / 511)
          (state.talloc.tables.length % 511 + 1)⟩] } } pts tmapPts := by
    refine ⟨hfilled, hstanding.tmap.congr fun frame hframe => ?_, hapart.map fun leaf => ?_⟩
    · have hpart : frame ≠ pts[state.talloc.tables.length / 511] :=
        Ne.symm (hdistinct.2.2 _ (by simp [inner]) frame hframe)
      dsimp only
      rw [Frames.clear_of_ne (by rintro rfl; exact hfresh.2 hframe), Frames.link_of_ne hpart]
    · simp only [List.map_append, List.map_cons, List.map_nil, List.mem_append,
        List.mem_singleton]
      tauto
  refine Ends.bind ((hnext.tmapMap_ends _ hroom).later (Nat.le_refl _) (Nat.le_refl 3))
    (Nat.le_refl 3) ?_
  rintro next ⟨grown, hgrown, htalloc, hpages, hleft⟩
  refine .ok ⟨grown, hgrown, congrArg TallocState.tables htalloc, hpages, ?_⟩
  rw [hsupply, List.length_cons]
  exact Nat.succ_le_succ hleft

/-- `paging_talloc_alloc` as long as the directory has a slot for another page table. -/
theorem tallocAlloc_ends (hstanding : Standing pdpts state pts tmapPts) (hpos : 0 < pts.length)
    (hslots : state.talloc.tables.length < 511 * 511)
    (hroom : state.tmap.pages.length + 1 < 511 * 512) :
    Ends state.supply 4 (tallocAlloc pdpts state) fun result => ∃ pts tmapPts,
      Standing pdpts result.2 pts tmapPts ∧ 0 < pts.length ∧
        result.2.talloc.tables = state.talloc.tables ++ [result.1] ∧
        Within state result.2 1 4 := by
  unfold tallocAlloc
  refine (hstanding.findSlot_ends hpos hslots).bind (by decide) ?_
  rintro ⟨found, slot⟩ ⟨pts, hfound, hpos, htables, hwithin, hfree, hslot⟩
  dsimp only at hfound htables hslot ⊢
  subst hslot
  have hpages : found.tmap.pages.length ≤ state.tmap.pages.length + 0 := hwithin.pages
  have hleft : state.supply.length ≤ found.supply.length + 1 := hwithin.supply
  rw [← htables] at hfree ⊢
  refine ((hfound.takeSlot_ends hfree (by omega)).later hleft (Nat.le_refl 4)).imp ?_
  rintro result ⟨tmapPts, hnext, htables, hlater⟩
  have hmore := hlater.pages
  have htaken := hlater.supply
  exact ⟨pts, tmapPts, hnext, hpos, htables, ⟨by omega, by omega⟩⟩

end Standing

end PKernel.Windows
