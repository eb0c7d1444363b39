import PKernel.Paging.BitEffects
import PKernel.Paging.PhysicalAllocator

/-! # Freeing what was just allocated

`bitmap_reserve` counts its index from the start of the area and `bitmap_free` from address 0, so
the bits that freeing clears are at a distance from those that allocating set: the number of pages
in front of the area. Freeing takes an allocation back only when this distance leads from the bits
of its pages to the same bits again, which it does in no area behind the first 32 pages.
-/

namespace PKernel

open Bitmap

namespace Palloc

/-- The loop of `palloc_free` over pages: whether each call of `bitmap_free` returned 0. -/
def freePages : Words → List Nat → List Bool × Words
  | words, [] => ([], words)
  | words, paddr :: rest =>
      let freed := bitmapFree words paddr 1
      let later := freePages freed.2 rest
      (freed.1 :: later.1, later.2)

/-- Whether the calls of `bitmap_free` in `palloc_free` return 0. -/
def freeResults (words : Words) (palloc : Palloc) : List Bool :=
  match palloc.type with
  | .alloc => (freePages words (palloc.paddrs.take palloc.paddrCount)).1
  | .contiguousAlloc => [(bitmapFree words (palloc.paddrs.headD 0) palloc.sizePages).1]
  | .contiguousMap => []

/-- What `palloc_alloc`, or `palloc_alloc_contiguous` with address 0, gives when it obtains all
pages. -/
structure Obtained (area : Area) (words : Words) (size : Nat) (palloc : Palloc) (new : Words) :
    Prop where
  call : pallocAlloc area words size = .ok (palloc, new) ∨
    pallocAllocContiguous area words size 0 = (palloc, new)
  full : ∀ paddr ∈ palloc.paddrs, paddr ≠ 0

/-- The indexes of the pages of a palloc. -/
def indexes (area : Area) (palloc : Palloc) : List Nat :=
  match palloc.type with
  | .alloc => palloc.paddrs.map fun paddr => (paddr - area.start) / pageSize
  | .contiguousAlloc =>
      List.range' ((palloc.paddrs.headD 0 - area.start) / pageSize) palloc.sizePages
  | .contiguousMap => []

/-- `palloc_free` makes every bit what it was before, and all its calls of `bitmap_free`
return 0. -/
def Undone (words new : Words) (palloc : Palloc) : Prop :=
  (∀ result ∈ freeResults new palloc, result = true) ∧
    ∀ i, getIndex (pallocFree new palloc) i = getIndex words i

variable {area : Area} {words new : Words} {size count : Nat} {palloc : Palloc}

/-! ## The calls as lists of indexes -/

theorem setRun_eq (words : Words) (i sizePages : Nat) :
    setRun words i sizePages = setEach words (List.range' i sizePages) := by
  induction sizePages with
  | zero => rfl
  | succ sizePages ih =>
      rw [setRun, ih, List.range'_concat, setEach_concat, Nat.one_mul]

theorem bitmapFree_eq (words : Words) (address sizePages : Nat) :
    bitmapFree words address sizePages =
      clearEach words (List.range' (address / pageSize) sizePages) := by
  induction sizePages with
  | zero => rfl
  | succ sizePages ih =>
      rw [bitmapFree, ih, List.range'_concat, clearEach_concat, Nat.one_mul]

theorem freePages_eq (words : Words) (paddrs : List Nat) :
    ((∀ result ∈ (freePages words paddrs).1, result = true) ↔
      (clearEach words (paddrs.map (· / pageSize))).1 = true) ∧
    paddrs.foldl (fun words paddr => (bitmapFree words paddr 1).2) words =
      (clearEach words (paddrs.map (· / pageSize))).2 := by
  induction paddrs generalizing words with
  | nil => simp [freePages, clearEach]
  | cons paddr rest ih =>
      have hone : bitmapFree words paddr 1 =
          (getIndex words (paddr / pageSize), clearIndex words (paddr / pageSize)) := by
        rw [bitmapFree_eq]
        simp [clearEach]
      obtain ⟨hresults, hwords⟩ := ih (clearIndex words (paddr / pageSize))
      constructor
      · simp only [freePages, hone, List.forall_mem_cons, List.map_cons, clearEach,
          Bool.and_eq_true, hresults]
      · rw [List.foldl_cons, hone, hwords, List.map_cons, clearEach]

/-- `bitmap_free` computes the index of a page of the area with the pages in front of the area. -/
theorem page_div {i : Nat} (hi : i < area.availablePages) :
    area.page i / pageSize = area.start / pageSize + i := by
  rw [page_eq hi, Nat.add_mul_div_right _ _ (by decide)]

/-! ## Single pages -/

/-- `palloc_alloc` takes clear indexes in ascending order, from the lower halves of the words. -/
structure Ascending (area : Area) (words : Words) (indexes : List Nat) : Prop where
  sorted : indexes.Pairwise (· < ·)
  available : ∀ i ∈ indexes, i < area.availablePages
  low : ∀ i ∈ indexes, i % 64 < 32
  clear : ∀ i ∈ indexes, getIndex words i = false

theorem reserveMany_ascending (huniform : Uniform words)
    (hfull : ∀ paddr ∈ (reserveMany area words count).1, paddr ≠ 0) :
    ∃ indexes, reserveMany area words count = (indexes.map area.page, setEach words indexes) ∧
      Ascending area words indexes ∧
      ∀ i ∈ indexes, ∀ k ≤ i, getIndex (setEach words indexes) k = true := by
  induction count with
  | zero => exact ⟨[], rfl, ⟨.nil, by simp, by simp, by simp⟩, by simp⟩
  | succ count ih =>
      simp only [reserveMany, List.mem_append, List.mem_singleton, or_imp, forall_and] at hfull
      obtain ⟨indexes, hearlier, hascending, hbelow⟩ := ih hfull.1
      simp only [reserveMany, hearlier] at hfull ⊢
      rcases bitmapReserve_cases area (setEach words indexes) with
        ⟨i, hlt, hclear, hbefore, hcall⟩ | ⟨-, hcall⟩
      · have hkept : ∀ k, getIndex (setEach words indexes) k = true →
            getIndex (setEach words (indexes ++ [i])) k = true := by
          intro k hset
          rw [setEach_concat, getIndex_setIndex, hset, Bool.true_or]
        have hlow := first_low (huniform.setEach indexes) hclear hbefore
        have hclearBefore : getIndex words i = false := by
          by_contra hset
          rw [Bool.not_eq_false] at hset
          rw [getIndex_setEach.mpr (.inl hset)] at hclear
          cases hclear
        refine ⟨indexes ++ [i], ?_, ⟨?_, ?_, ?_, ?_⟩, ?_⟩
        · rw [hcall, setEach_concat, List.map_append]
          rfl
        · refine List.pairwise_append.mpr ⟨hascending.sorted, List.pairwise_singleton _ _, ?_⟩
          intro other hother last hlast
          rw [List.mem_singleton.mp hlast]
          by_contra hle
          have hset := hbelow other hother i (Nat.le_of_not_lt hle)
          rw [hclear] at hset
          cases hset
        · simpa [or_imp, forall_and, hlt] using hascending.available
        · simpa [or_imp, forall_and, hlow] using hascending.low
        · simpa [or_imp, forall_and, hclearBefore] using hascending.clear
        · intro other hother k hk
          rcases List.mem_append.mp hother with hmem | hmem
          · exact hkept k (hbelow other hmem k hk)
          · obtain rfl := List.mem_singleton.mp hmem
            rcases Nat.eq_or_lt_of_le hk with rfl | hlt
            · rw [getIndex_setEach]
              exact .inr ⟨k, by simp, ⟨rfl, .inl (by omega)⟩⟩
            · exact hkept k (hbefore k hlt)
      · rw [hcall] at hfull
        exact absurd rfl (hfull.2 0 rfl)

theorem Ascending.undone_iff_takenBack {indexes : List Nat} (hascending : Ascending area words indexes) :
    Undone words (setEach words indexes)
        ⟨.alloc, indexes.length, indexes.length, indexes.map area.page⟩ ↔
      TakenBack words (area.start / pageSize) indexes := by
  have hindexes : (indexes.map area.page).map (· / pageSize) =
      indexes.map (area.start / pageSize + ·) := by
    rw [List.map_map]
    exact List.map_congr_left fun i hi => page_div (hascending.available i hi)
  have htake : (indexes.map area.page).take indexes.length = indexes.map area.page :=
    List.take_of_length_le (by rw [List.length_map])
  obtain ⟨hresults, hwords⟩ := freePages_eq (setEach words indexes) (indexes.map area.page)
  rw [hindexes] at hresults hwords
  rw [Undone, freeResults, pallocFree, TakenBack]
  simp only [htake, hresults, hwords]

/-! ## Runs -/

theorem run_undone_iff_takenBack {i : Nat} (hi : i < area.availablePages) (count : Nat) :
    Undone words (setRun words i count) ⟨.contiguousAlloc, count, 1, [area.page i]⟩ ↔
      TakenBack words (area.start / pageSize) (List.range' i count) := by
  have hfree : bitmapFree (setRun words i count) (area.page i) count =
      clearEach (setEach words (List.range' i count))
        ((List.range' i count).map (area.start / pageSize + ·)) := by
    rw [bitmapFree_eq, setRun_eq, page_div hi, List.map_add_range']
  rw [Undone, freeResults, pallocFree, TakenBack]
  simp only [List.headD_cons, hfree, List.mem_singleton, forall_eq]

/-- A run that is taken back keeps to the lower half of a word. One that goes on in the upper half
would be cleared up to the end of the word, so the search would have taken an earlier one. -/
theorem run_low_of_takenBack {base i : Nat} (huniform : Uniform words) (hbase : 0 < base)
    (hclear : ClearRun words count i) (hfirst : ∀ k < i, ¬ClearRun words count k)
    (hback : TakenBack words base (List.range' i count)) :
    ∀ k ∈ List.range' i count, k % 64 < 32 := by
  obtain ⟨hapart, hset, hkept, hcovered⟩ := takenBack_iff.mp hback
  have hmem (k : Nat) : k ∈ List.range' i count ↔ i ≤ k ∧ k < i + count := List.mem_range'_1
  have hsorted : (List.range' i count).Pairwise (· < ·) := List.pairwise_lt_range'
  intro k hk
  by_contra hhigh
  obtain ⟨hlower, hupper⟩ := (hmem k).mp hk
  have hi := run_low huniform (by omega) hclear hfirst
  -- the run covers the end of the lower half of its first word and goes on
  have hlast : lastLow i ∈ List.range' i count := (hmem _).mpr (by unfold lastLow; omega)
  have hlastClear : getIndex words (lastLow i) = false := by
    have hbit := hclear (lastLow i - i) (by have := (hmem _).mp hlast; omega)
    rwa [Nat.add_sub_cancel' ((hmem _).mp hlast).1] at hbit
  obtain ⟨last, hlastEq⟩ : ∃ last, last = i + count - 1 := ⟨_, rfl⟩
  have hend : last ∈ List.range' i count := (hmem _).mpr (by omega)
  -- the last bit that is cleared is in an upper half
  have hendHigh : 32 ≤ (base + last) % 64 := by
    by_contra hendLow
    have hself : Reaches (base + last) (base + last) := ⟨rfl, .inl (by omega)⟩
    rcases hset last hend with hbit | ⟨other, hother, hreached⟩
    · rw [hkept last hend _ hself] at hbit
      cases hbit
    · have hotherUpper := ((hmem _).mp hother).2
      unfold Reaches at hreached
      omega
  -- so are all others, as clearing the end of its lower half would clear it too
  have hstart : 64 * ((base + last) / 64) + 32 ≤ base + i := by
    by_contra hbefore
    have hmiddle : 64 * ((base + last) / 64) + 31 - base ∈ List.range' i count :=
      (hmem _).mpr (by omega)
    refine rel_of_lt hsorted hapart hmiddle hend (by omega) ?_
    unfold Reaches
    omega
  -- the end of the lower half is cleared from the end of its word
  have hword : (base + last) / 64 = i / 64 ∧ (base + last) % 64 = 63 := by
    have hself : Reaches (lastLow i) (lastLow i) := ⟨rfl, .inl (by unfold lastLow; omega)⟩
    obtain ⟨other, hother, hreached⟩ := hcovered _ hlast _ hself hlastClear
    have hotherBounds := (hmem _).mp hother
    unfold Reaches lastLow at hreached
    omega
  refine hfirst (base + i - 32) (by omega) fun j hj => ?_
  refine hkept (i + j) ((hmem _).mpr (by omega)) _ ?_
  unfold Reaches
  omega

/-! ## The two ways to allocate -/

/-- What is allocated is a stretch of clear bits that are taken back or not, and either way to
allocate keeps to lower halves if they are. -/
theorem obtained_takenBack (huniform : Uniform words)
    (hobtained : Obtained area words size palloc new) :
    (Undone words new palloc ↔ TakenBack words (area.start / pageSize) (palloc.indexes area)) ∧
      (palloc.indexes area).Pairwise (· < ·) ∧
      (∀ k ∈ palloc.indexes area, getIndex words k = false) ∧
      (TakenBack words (area.start / pageSize) (palloc.indexes area) →
        ∀ k ∈ palloc.indexes area, k % 64 < 32) := by
  obtain ⟨hcall | hcall, hfull⟩ := hobtained
  · obtain ⟨count, -, rfl, rfl⟩ := pallocAlloc_eq_ok hcall
    obtain ⟨taken, hreserved, hascending, -⟩ := reserveMany_ascending huniform hfull
    have hcount : count = taken.length := by
      rw [← reserveMany_length area words count, hreserved, List.length_map]
    have hindexes : indexes area ⟨.alloc, taken.length, taken.length, taken.map area.page⟩ =
        taken := by
      simp only [indexes, List.map_map]
      exact (List.map_congr_left fun i hi => index_page (hascending.available i hi)).trans
        (List.map_id taken)
    rw [hreserved, hcount, hindexes]
    exact ⟨hascending.undone_iff_takenBack, hascending.sorted, hascending.clear,
      fun _ => hascending.low⟩
  · cases hcall
    generalize divUp size pageSize = count at hfull ⊢
    rcases bitmapReserveContiguous_cases area words count with
      ⟨i, hlt, hclear, hfirst, hreserved⟩ | ⟨-, hreserved⟩
    · have hindexes : indexes area ⟨.contiguousAlloc, count, 1, [area.page i]⟩ =
          List.range' i count := by
        simp only [indexes, List.headD_cons, index_page hlt]
      have hrunClear : ∀ k ∈ List.range' i count, getIndex words k = false := by
        intro k hk
        obtain ⟨hlower, hupper⟩ := List.mem_range'_1.mp hk
        have hbit := hclear (k - i) (by omega)
        rwa [Nat.add_sub_cancel' hlower] at hbit
      have hbase : 0 < area.start / pageSize :=
        Nat.div_pos (Nat.le_of_dvd area.start_pos area.start_aligned) (by decide)
      rw [hreserved, hindexes]
      exact ⟨run_undone_iff_takenBack hlt count, List.pairwise_lt_range', hrunClear,
        run_low_of_takenBack huniform hbase hclear hfirst⟩
    · rw [hreserved] at hfull
      exact absurd rfl (hfull 0 (List.mem_singleton_self 0))

theorem Undone.returnable (huniform : Uniform words)
    (hobtained : Obtained area words size palloc new) (hundone : Undone words new palloc) :
    Returnable words (area.start / pageSize) (palloc.indexes area) := by
  obtain ⟨htaken, hsorted, hclear, hlow⟩ := obtained_takenBack huniform hobtained
  have hbase : 0 < area.start / pageSize :=
    Nat.div_pos (Nat.le_of_dvd area.start_pos area.start_aligned) (by decide)
  have hback := htaken.mp hundone
  exact hback.returnable huniform hbase hsorted (hlow hback) hclear

/-- Freeing takes back what was allocated exactly if the distance leads from the pages to the same
pages again. -/
theorem undone_iff (huniform : Uniform words) (hobtained : Obtained area words size palloc new) :
    Undone words new palloc ↔
      Returnable words (area.start / pageSize) (palloc.indexes area) := by
  obtain ⟨htaken, hsorted, hclear, -⟩ := obtained_takenBack huniform hobtained
  constructor
  · exact Undone.returnable huniform hobtained
  · intro hreturnable
    exact htaken.mpr (hreturnable.takenBack huniform hsorted hclear)

/-- 64 pages from `0x20000` on. -/
def distantArea : Area := ⟨0x20000, 64, by decide, by decide, by decide⟩

/-- With the upper half of the word taken, page 0 of `distantArea` gets its own bit cleared. -/
theorem undone_first :
    Undone (setIndex (fun _ => 0#64) 31) (setIndex (setIndex (fun _ => 0#64) 31) 0)
      ⟨.alloc, 1, 1, [0x20000]⟩ := by
  have hcall : pallocAlloc distantArea (setIndex (fun _ => 0#64) 31) 4096 =
      .ok (⟨.alloc, 1, 1, [0x20000]⟩, setIndex (setIndex (fun _ => 0#64) 31) 0) := rfl
  refine (undone_iff (uniform_zero.setIndex 31) ⟨.inl hcall, by decide⟩).mpr ⟨?_, ?_, ?_⟩
  · decide
  · decide
  · intro i hi
    obtain rfl : i = 0 := List.mem_singleton.mp hi
    exact .inl (by decide)

/-- Page 0 of `smallArea` stays taken, and `bitmap_free` reports that bit 3 is not set. -/
theorem not_undone_small : ∃ palloc new,
    Obtained smallArea (fun _ => 0#64) 4096 palloc new ∧
      freeResults new palloc = [false] ∧ getIndex (pallocFree new palloc) 0 = true ∧
      ¬Undone (fun _ => 0#64) new palloc := by
  refine ⟨⟨.alloc, 1, 1, [0x3000]⟩, setIndex (fun _ => 0#64) 0, ⟨.inl rfl, by decide⟩,
    by decide, by decide, ?_⟩
  rintro ⟨hresults, -⟩
  exact absurd (hresults false (by decide)) (by decide)

end Palloc

end PKernel
