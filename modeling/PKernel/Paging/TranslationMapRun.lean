import PKernel.Paging.PhysicalAllocator
import PKernel.Paging.TranslationMap

/-! # Runs of the translation map

After `paging_tmap_init`, addresses are mapped and unmapped in any order. The map
translates each address as the finite map that the calls describe, as long as
`bitmap_reserve` finds a frame for each new page: the map does not look whether it
did. A call of `paging_tmap_map` returns as long as a page of the bucket has room or
the window takes another page.
-/

namespace PKernel.TranslationMap

open Library.Associations Library.Transition
open Bitmap
open Talloc (tmapBuckets tmapHash tmapPageEntries addTmapPage)
open Function (update update_apply update_of_ne update_self)

/-- The bitmap of physical pages, the map, and the current mapping of every address. -/
structure World where
  words : Words
  tmap : Tmap
  mapped : Nat → Option Nat

inductive Op where
  | map (paddr vaddr : Nat)
  | unmap (paddr : Nat)

/-- One call that returns. -/
inductive Step (area : Area) (world : World) : Op → World → Prop
  | map {paddr vaddr : Nat} {words : Words} {tmap : Tmap} (hnew : world.mapped paddr = none)
      (hreturn : tmapMap area world.words world.tmap paddr vaddr = .ok (words, tmap)) :
      Step area world (.map paddr vaddr)
        ⟨words, tmap, update world.mapped paddr (some vaddr)⟩
  | unmap {paddr : Nat} : Step area world (.unmap paddr)
      ⟨world.words, (tmapUnmap world.tmap paddr).2, update world.mapped paddr none⟩

/-- Runs behind a `paging_tmap_init` that found a frame for each page. -/
def system (area : Area) : System World Op where
  init world := (∃ words, Uniform words ∧ tmapInit area words = .ok (world.words, world.tmap)) ∧
    0 ∉ world.tmap.frames ∧ world.mapped = fun _ => none
  step := Step area

/-- The number of pages whose page tables fit beside each other in the first page
directory of the window, one more than can be made. -/
def windowPages : Nat := 511 * 512

/-- A page of the bucket has room. -/
def Spare (tmap : Tmap) (paddr : Nat) : Prop :=
  ∃ page ∈ tmap.rootEntries (tmapHash paddr), page.length ≠ tmapPageEntries

/-- There is room in a page of the bucket or for another page. -/
def Room (tmap : Tmap) (paddr : Nat) : Prop :=
  Spare tmap paddr ∨ tmap.frames.length + 1 < windowPages

/-- `bitmap_reserve` finds a frame for the next page, and one for the next page table
where the page is the last of its own. -/
def FindsFrames (area : Area) (words : Words) (pages : Nat) : Prop :=
  (bitmapReserve area words).1 ≠ 0 ∧
    (pages % 512 = 511 → (bitmapReserve area (bitmapReserve area words).2).1 ≠ 0)

/-- The call finds room in a page of the bucket, or room and frames for another page. -/
def FindsRoom (area : Area) (world : World) : Op → Prop
  | .map paddr _ => Spare world.tmap paddr ∨ world.tmap.frames.length + 1 < windowPages ∧
      FindsFrames area world.words world.tmap.frames.length
  | .unmap _ => True

/-- The frames of the pages are different pages of the area, and taken. -/
structure Framed (area : Area) (words : Words) (frames : List Nat) : Prop where
  uniform : Uniform words
  taken : ∀ frame ∈ frames, ∃ i < area.availablePages, frame = area.page i ∧
    getIndex words i = true
  nodup : frames.Nodup

structure Invariant (area : Area) (world : World) : Prop where
  refines : Refines world.tmap world.mapped
  pages : world.tmap.frames.length + 1 ≤ windowPages
  framed : Framed area world.words world.tmap.frames

/-! ## Pages -/

variable {world next : World} {op : Op} {area : Area} {words rest : Words}
  {pages made paddr vaddr frame count : Nat} {frames : List Nat} {tmap : Tmap}

theorem addTmapPage_ok (hroom : pages + 1 < windowPages) :
    ∃ frame rest, addTmapPage area words pages = .ok (frame, rest, pages + 1) := by
  unfold windowPages at hroom
  unfold addTmapPage
  simp only
  split
  · rw [if_neg (by omega)]
    exact ⟨_, _, rfl⟩
  · exact ⟨_, _, rfl⟩

/-- The new page is in the first free frame, and at most one more is taken. -/
theorem addTmapPage_eq_ok (hcall : addTmapPage area words pages = .ok (frame, rest, made)) :
    frame = (bitmapReserve area words).1 ∧
      (rest = (bitmapReserve area words).2 ∨
        rest = (bitmapReserve area (bitmapReserve area words).2).2) := by
  unfold addTmapPage at hcall
  simp only at hcall
  split at hcall
  · split at hcall
    · cases hcall
    · cases hcall
      exact ⟨rfl, .inr rfl⟩
  · cases hcall
    exact ⟨rfl, .inl rfl⟩

/-- What `bitmap_reserve` finds was clear and is set. -/
theorem reserve_found (huniform : Uniform words) (hframe : (bitmapReserve area words).1 ≠ 0) :
    ∃ i < area.availablePages, (bitmapReserve area words).1 = area.page i ∧
      getIndex words i = false ∧ getIndex (bitmapReserve area words).2 i = true := by
  rcases bitmapReserve_cases area words with ⟨i, hi, hclear, hbefore, hcall⟩ | ⟨-, hcall⟩
  · have hlow := first_low huniform hclear hbefore
    have hself : Reaches i i := ⟨rfl, .inl (by omega)⟩
    refine ⟨i, hi, by rw [hcall], hclear, ?_⟩
    rw [hcall, getIndex_setIndex]
    simp [hself]
  · rw [hcall] at hframe
    exact absurd rfl hframe

/-- A frame that was found is none of those before. -/
theorem Framed.add (hframed : Framed area words frames)
    (hcall : addTmapPage area words pages = .ok (frame, rest, made)) (hframe : frame ≠ 0) :
    Framed area rest (frame :: frames) := by
  obtain ⟨rfl, hrest⟩ := addTmapPage_eq_ok hcall
  obtain ⟨huniform, hkeeps⟩ := Palloc.bitmapReserve_keeps hframed.uniform area
  obtain ⟨huniform', hkeeps'⟩ := Palloc.bitmapReserve_keeps huniform area
  have hafter : Uniform rest ∧ ∀ k, getIndex (bitmapReserve area words).2 k = true →
      getIndex rest k = true := by
    rcases hrest with rfl | rfl
    · exact ⟨huniform, fun _ hk => hk⟩
    · exact ⟨huniform', hkeeps'⟩
  obtain ⟨i, hi, hpage, hclear, hset⟩ := reserve_found hframed.uniform hframe
  refine ⟨hafter.1, ?_, List.nodup_cons.mpr ⟨?_, hframed.nodup⟩⟩
  · intro other hother
    rcases List.mem_cons.mp hother with rfl | hother
    · exact ⟨i, hi, hpage, hafter.2 i hset⟩
    · obtain ⟨k, hk, hkPage, hkSet⟩ := hframed.taken other hother
      exact ⟨k, hk, hkPage, hafter.2 k (hkeeps k hkSet)⟩
  · intro hmem
    obtain ⟨k, hk, hkPage, hkSet⟩ := hframed.taken _ hmem
    have hsame : k = i := by
      rw [← index_page hk, ← index_page hi, ← hpage, ← hkPage]
    rw [hsame, hclear] at hkSet
    cases hkSet

/-- As many free frames are left as were not taken. -/
theorem reserve_usable (huniform : Uniform words) :
    (usable area words).card ≤ (usable area (bitmapReserve area words).2).card + 1 := by
  rcases bitmapReserve_cases area words with ⟨i, -, hclear, hbefore, hcall⟩ | ⟨-, hcall⟩
  · rw [hcall, usable_setIndex (first_low huniform hclear hbefore)]
    exact Nat.le_add_of_sub_le Finset.pred_card_le_card_erase
  · rw [hcall]
    exact Nat.le_succ _

theorem addTmapPage_usable (huniform : Uniform words)
    (hcall : addTmapPage area words pages = .ok (frame, rest, made)) :
    Uniform rest ∧ (usable area words).card ≤ (usable area rest).card + 2 := by
  have hreserved := (Palloc.bitmapReserve_keeps huniform area).1
  have hfirst : (usable area words).card ≤ _ := reserve_usable huniform
  have hsecond : (usable area (bitmapReserve area words).2).card ≤ _ := reserve_usable hreserved
  rcases (addTmapPage_eq_ok hcall).2 with rfl | rfl
  · exact ⟨hreserved, by omega⟩
  · exact ⟨(Palloc.bitmapReserve_keeps hreserved area).1, by omega⟩

theorem reserve_ne_zero (huniform : Uniform words) (hroom : 0 < (usable area words).card) :
    (bitmapReserve area words).1 ≠ 0 := by
  obtain ⟨i, hi, hcall⟩ := bitmapReserve_spec huniform hroom
  rw [hcall]
  exact page_ne_zero (mem_usable.mp hi).1

/-- With two frames left there is one for a page and one for a page table. -/
theorem findsFrames (huniform : Uniform words) (hroom : 2 ≤ (usable area words).card) :
    FindsFrames area words pages := by
  have hleft : (usable area words).card ≤ _ := reserve_usable huniform
  exact ⟨reserve_ne_zero huniform (by omega), fun _ =>
    reserve_ne_zero (Palloc.bitmapReserve_keeps huniform area).1 (by omega)⟩

theorem initBuckets_ok (area : Area) (words : Words) (hcount : count ≤ tmapBuckets) :
    ∃ rest frames, initBuckets area words count =
        .ok (rest, ⟨fun i => if i < count then [[]] else [], frames⟩) ∧ frames.length = count ∧
      (Uniform words → (0 ∉ frames → Framed area rest frames) ∧
        (2 * count ≤ (usable area words).card → 0 ∉ frames ∧
          (usable area words).card ≤ (usable area rest).card + 2 * count)) := by
  induction count with
  | zero =>
      refine ⟨words, [], rfl, rfl, fun huniform => ⟨fun _ => ⟨huniform, nofun, .nil⟩, fun _ => ?_⟩⟩
      exact ⟨List.not_mem_nil, Nat.le_refl _⟩
  | succ count ih =>
      obtain ⟨rest, frames, hrest, hlength, hframes⟩ := ih (Nat.le_of_succ_le hcount)
      obtain ⟨frame, last, hlast⟩ := @addTmapPage_ok area rest frames.length
        (by unfold tmapBuckets at hcount; unfold windowPages; omega)
      refine ⟨last, frame :: frames, ?_, by rw [List.length_cons, hlength], fun huniform => ?_⟩
      · rw [initBuckets, hrest, ok_bind]
        simp only [hlast, ok_bind, pure_eq_ok]
        congr 3
        funext i
        by_cases hi : i = count
        · simp [hi]
        · have : i < count + 1 ↔ i < count := by omega
          simp [hi, this]
      · obtain ⟨hframed, husable⟩ := hframes huniform
        refine ⟨fun hzero => ?_, fun hroom => ?_⟩
        · rw [List.mem_cons, not_or] at hzero
          exact (hframed hzero.2).add hlast (Ne.symm hzero.1)
        · obtain ⟨hzero, hleft⟩ := husable (by omega)
          have huniform' := (hframed hzero).uniform
          have hnext := addTmapPage_usable huniform' hlast
          refine ⟨?_, by omega⟩
          rw [List.mem_cons, not_or, (addTmapPage_eq_ok hlast).1]
          exact ⟨(reserve_ne_zero huniform' (by omega)).symm, hzero⟩

namespace Invariant

theorem init (hinit : (system area).init world) : Invariant area world := by
  obtain ⟨⟨words, huniform, hcall⟩, hzero, hmapped⟩ := hinit
  have hreserved := (Palloc.bitmapReserve_keeps
    (Palloc.bitmapReserve_keeps huniform area).1 area).1
  obtain ⟨rest, frames, hlast, hlength, hframes⟩ := initBuckets_ok area
    (bitmapReserve area (bitmapReserve area words).2).2 (Nat.le_refl _)
  obtain ⟨hwords, htmap⟩ := Prod.mk.inj (Except.ok.inj (hlast.symm.trans hcall))
  rw [← htmap] at hzero
  refine ⟨?_, ?_, ?_⟩
  · intro hashIdx
    have hempty : (world.tmap.rootEntries hashIdx).flatten = [] := by
      rw [← htmap]
      simp only
      split <;> rfl
    rw [hempty, hmapped]
    simpa using spells_nil
  · rw [← htmap, hlength]
    decide
  · rw [← htmap, ← hwords]
    exact (hframes hreserved).1 hzero

/-- Another entry leaves the frames different, if a new page finds one. -/
theorem framed_map (hworld : Invariant area world) (hfinds : FindsRoom area world (.map paddr vaddr))
    {after : Tmap} (hcall : tmapMap area world.words world.tmap paddr vaddr = .ok (rest, after)) :
    after.frames.length + 1 ≤ windowPages ∧ Framed area rest after.frames := by
  have hpages := hworld.pages
  unfold tmapMap at hcall
  simp only at hcall
  split at hcall
  next =>
    cases hcall
    exact ⟨hpages, hworld.framed⟩
  next hinsert =>
    obtain ⟨⟨frame, words', made⟩, hadd, hcall⟩ := bind_eq_ok.mp hcall
    cases hcall
    rcases hfinds with ⟨page, hpage, hroom⟩ | ⟨hroom, hframe, -⟩
    · exact absurd (insertEntry_eq_none.mp hinsert page hpage) hroom
    · rw [← (addTmapPage_eq_ok hadd).1] at hframe
      exact ⟨hroom, hworld.framed.add hadd hframe⟩

theorem step (hworld : Invariant area world) (hfinds : FindsRoom area world op)
    (hstep : Step area world op next) : Invariant area next := by
  cases hstep with
  | map hnew hreturn =>
      obtain ⟨hpages, hframed⟩ := hworld.framed_map hfinds hreturn
      exact ⟨hworld.refines.map hnew hreturn, hpages, hframed⟩
  | @unmap paddr =>
      have hframes : (tmapUnmap world.tmap paddr).2.frames = world.tmap.frames := by
        unfold tmapUnmap
        simp only
        split <;> rfl
      refine ⟨(hworld.refines.unmap paddr).2, ?_, ?_⟩
      · rw [hframes]
        exact hworld.pages
      · rw [hframes]
        exact hworld.framed

end Invariant

theorem invariant_inductive : ((system area).restrict (FindsRoom area)).Inductive
    (Invariant area) where
  init _ := Invariant.init
  step _ _ _ hworld hstep := hworld.step hstep.1 hstep.2

/-- The addresses `0, 2 ^ 20, 2 * 2 ^ 20, ...`, which share the first bucket. -/
def strided (count paddr : Nat) : Option Nat :=
  if paddr % 2 ^ 20 = 0 ∧ paddr / 2 ^ 20 < count then some 4096 else none

/-- Memory of 4 GiB behind the first page. -/
def memory : Area := ⟨pageSize, 2 ^ 20, by decide, by decide, by decide⟩

/-- The first `count` of them are mapped. All pages but the first are full, and half of the
frames were free at the start. -/
structure Burst (world : World) (count : Nat) : Prop where
  reach : ((system memory).restrict (FindsRoom memory)).Reachable world
  mapped : world.mapped = strided count
  chain : ∃ first full, world.tmap.rootEntries 0 = first :: full ∧
    (∀ page ∈ full, page.length = tmapPageEntries) ∧
    first.length ≤ tmapPageEntries ∧ first.length + tmapPageEntries * full.length = count ∧
    world.tmap.frames.length = tmapBuckets + full.length ∧
    world.tmap.frames.length < windowPages
  uniform : Uniform world.words
  free : 2 ^ 19 ≤ (usable memory world.words).card + 2 * world.tmap.frames.length + 2

theorem tmapHash_strided (count : Nat) : tmapHash (2 ^ 20 * count) = 0 := by
  unfold tmapHash tmapBuckets
  rw [Nat.shiftRight_eq_div_pow]
  omega

theorem strided_new (count : Nat) : strided count (2 ^ 20 * count) = none := by
  rw [strided, if_neg]
  omega

theorem strided_succ (count : Nat) :
    update (strided count) (2 ^ 20 * count) (some 4096) = strided (count + 1) := by
  funext paddr
  by_cases hpaddr : paddr = 2 ^ 20 * count
  · subst hpaddr
    rw [update_self, strided, if_pos (by omega)]
  · have : (paddr % 2 ^ 20 = 0 ∧ paddr / 2 ^ 20 < count + 1) ↔
        (paddr % 2 ^ 20 = 0 ∧ paddr / 2 ^ 20 < count) := by omega
    rw [update_of_ne hpaddr, strided, strided]
    simp only [this]

/-- The lower halves of the words of a cleared bitmap. -/
theorem usable_memory : 2 ^ 19 ≤ (usable memory fun _ => 0).card := by
  have hcard : (Finset.range (2 ^ 19)).card ≤ (usable memory fun _ => 0).card := by
    refine Finset.card_le_card_of_injOn (fun i => 64 * (i / 32) + i % 32) (fun i hi => ?_) ?_
    · have hi := Finset.mem_range.mp hi
      have hlt : 64 * (i / 32) + i % 32 < 2 ^ 20 := by omega
      have hlow : (64 * (i / 32) + i % 32) % 64 < 32 := by omega
      exact mem_usable.mpr ⟨hlt, hlow, by simp [getIndex]⟩
    · intro i _ j _ hsame
      simp only at hsame
      omega
  rwa [Finset.card_range] at hcard

namespace Burst

theorem zero : ∃ world, Burst world 0 := by
  have huniform := Palloc.bitmapReserve_keeps Palloc.uniform_zero memory
  have hreserved := (Palloc.bitmapReserve_keeps huniform.1 memory).1
  have hfirst : (usable memory fun _ => 0).card ≤ _ := reserve_usable Palloc.uniform_zero
  have hsecond : (usable memory (bitmapReserve memory fun _ => 0).2).card ≤ _ :=
    reserve_usable huniform.1
  have hfree := usable_memory
  obtain ⟨rest, frames, hinit, hlength, hframes⟩ := initBuckets_ok memory
    (bitmapReserve memory (bitmapReserve memory fun _ => 0).2).2 (Nat.le_refl tmapBuckets)
  have hbuckets : tmapBuckets = 256 := rfl
  obtain ⟨hframed, hroom⟩ := hframes hreserved
  obtain ⟨hzero, hleft⟩ := hroom (by omega)
  refine ⟨⟨rest, _, fun _ => none⟩, .init ⟨⟨_, Palloc.uniform_zero, hinit⟩, hzero, rfl⟩, ?_,
    ⟨[], [], rfl, nofun, Nat.zero_le _, rfl, hlength, ?_⟩, (hframed hzero).uniform, ?_⟩
  · funext paddr
    rw [strided, if_neg (by omega)]
  · rw [hlength]
    decide
  · simp only [hlength]
    omega

theorem succ {count : Nat} (hburst : Burst world count)
    (hcount : count < tmapPageEntries * (windowPages - tmapBuckets)) :
    ∃ next, Burst next (count + 1) := by
  obtain ⟨hreach, hmapped, ⟨first, full, hchain, hfull, hfirst, htotal, hpages, hwindow⟩,
    huniform, hfree⟩ := hburst
  have hnew : world.mapped (2 ^ 20 * count) = none := by
    rw [hmapped]
    exact strided_new count
  have hhash := tmapHash_strided count
  -- whatever the call returns, the run goes on with it
  have hgoes : ∀ {rest : Words} {tmap : Tmap},
      FindsRoom memory world (.map (2 ^ 20 * count) 4096) →
      tmapMap memory world.words world.tmap (2 ^ 20 * count) 4096 = .ok (rest, tmap) →
      ((system memory).restrict (FindsRoom memory)).Reachable
        ⟨rest, tmap, strided (count + 1)⟩ := by
    intro rest tmap hroom hreturn
    have hstep := @Step.map memory world _ 4096 rest _ hnew hreturn
    rw [hmapped, strided_succ] at hstep
    have hmap : ((system memory).restrict (FindsRoom memory)).step world
        (.map (2 ^ 20 * count) 4096) ⟨rest, tmap, strided (count + 1)⟩ := ⟨hroom, hstep⟩
    exact .step hreach hmap
  by_cases hroom : first.length = tmapPageEntries
  · have hwindow' : world.tmap.frames.length + 1 < windowPages := by
      have hlt : full.length + 1 < windowPages - tmapBuckets := by
        refine @Nat.lt_of_mul_lt_mul_left tmapPageEntries _ _ ?_
        rw [Nat.mul_add, Nat.mul_one]
        omega
      omega
    obtain ⟨frame, rest, hadd⟩ := @addTmapPage_ok memory world.words _ hwindow'
    have hnone : insertEntry ⟨2 ^ 20 * count, 4096⟩ (first :: full) = none :=
      insertEntry_eq_none.mpr (List.forall_mem_cons.mpr ⟨hroom, hfull⟩)
    have hreturn : tmapMap memory world.words world.tmap (2 ^ 20 * count) 4096 =
        .ok (rest, ⟨update world.tmap.rootEntries 0
          ([⟨2 ^ 20 * count, 4096⟩] :: first :: full), frame :: world.tmap.frames⟩) := by
      simp only [tmapMap, hhash, hchain, hnone, hadd, ok_bind, pure_eq_ok]
    have hfinds : FindsFrames memory world.words world.tmap.frames.length :=
      findsFrames huniform (by unfold windowPages at hwindow; omega)
    obtain ⟨huniform', hleft⟩ := addTmapPage_usable huniform hadd
    refine ⟨_, hgoes (.inr ⟨hwindow', hfinds⟩) hreturn, rfl, ⟨[⟨2 ^ 20 * count, 4096⟩],
      first :: full, ?_, List.forall_mem_cons.mpr ⟨hroom, hfull⟩, ?_, ?_, ?_, hwindow'⟩,
      huniform', ?_⟩
    · simp only [update_self]
    · simp [tmapPageEntries, pageSize]
    · rw [List.length_singleton, List.length_cons, Nat.mul_add, Nat.mul_one]
      omega
    · rw [List.length_cons, hpages]
      rfl
    · simp only [List.length_cons]
      omega
  · have hinsert : insertEntry ⟨2 ^ 20 * count, 4096⟩ (first :: full) =
        some ((first ++ [⟨2 ^ 20 * count, 4096⟩]) :: full) := by
      rw [insertEntry, if_pos hroom]
    have hreturn : tmapMap memory world.words world.tmap (2 ^ 20 * count) 4096 =
        .ok (world.words, ⟨update world.tmap.rootEntries 0
          ((first ++ [⟨2 ^ 20 * count, 4096⟩]) :: full), world.tmap.frames⟩) := by
      simp only [tmapMap, hhash, hchain, hinsert, pure_eq_ok]
    refine ⟨_, hgoes (.inl ⟨first, ?_, hroom⟩) hreturn, rfl,
      ⟨first ++ [⟨2 ^ 20 * count, 4096⟩], full, ?_, hfull, ?_, ?_, hpages, hwindow⟩, huniform,
      hfree⟩
    · rw [hhash, hchain]
      exact List.mem_cons_self
    · simp only [update_self]
    · rw [List.length_append, List.length_singleton]
      omega
    · rw [List.length_append, List.length_singleton]
      omega

theorem run {count : Nat} (hcount : count ≤ tmapPageEntries * (windowPages - tmapBuckets)) :
    ∃ world, Burst world count := by
  induction count with
  | zero => exact zero
  | succ count ih =>
      obtain ⟨world, hburst⟩ := ih (Nat.le_of_succ_le hcount)
      exact hburst.succ hcount

end Burst

end PKernel.TranslationMap
