import Mathlib.Data.Nat.Find
import PKernel.Paging.Bitmap

/-! # The search for a run

Which run `bitmap_reserve_contiguous` takes. The search passes over no start of a clear
run, as a jump ends right behind a set bit. It only compares the start of a run with the
number of pages: the bits of a run can lie behind the last page.
-/

namespace PKernel.Bitmap

/-- The bits of a run that starts here are clear. -/
def ClearRun (words : Words) (sizePages i : Nat) : Prop :=
  ∀ j < sizePages, getIndex words (i + j) = false

/-- A clear run inside the area. -/
def Fits (area : Area) (words : Words) (sizePages i : Nat) : Prop :=
  ∀ j < sizePages, i + j < area.availablePages ∧ getIndex words (i + j) = false

/-- `bitmap_reserve_contiguous` returns the first page of the first run inside the area, and 0
exactly if there is none. -/
def ReservesFirst (area : Area) (words : Words) (sizePages : Nat) : Prop :=
  (∀ i, Fits area words sizePages i → (∀ k < i, ¬Fits area words sizePages k) →
    (bitmapReserveContiguous area words sizePages).1 = area.start + i * pageSize) ∧
  ((bitmapReserveContiguous area words sizePages).1 = 0 ↔ ∀ i, ¬Fits area words sizePages i)

variable {area : Area} {words : Words} {sizePages availablePages fuel i found : Nat}

/-- No clear run starts at or in front of a set bit that it would cover. -/
theorem not_clearRun {j k : Nat} (hset : getIndex words (i + j) = true) (hj : j < sizePages)
    (hlower : i ≤ k) (hupper : k ≤ i + j) : ¬ClearRun words sizePages k := by
  intro hclear
  have hbit := hclear (i + j - k) (by omega)
  rw [Nat.add_sub_cancel' hupper, hset] at hbit
  cases hbit

/-- With enough steps the search ends at the first start of a clear run. -/
theorem findRun_eq_some (hfuel : availablePages < i + fuel) :
    findRun words availablePages sizePages fuel i = some found ↔
      i ≤ found ∧ found < availablePages ∧ ClearRun words sizePages found ∧
        ∀ k, i ≤ k → k < found → ¬ClearRun words sizePages k := by
  induction fuel generalizing i with
  | zero =>
      constructor
      · rintro ⟨⟩
      · omega
  | succ fuel ih =>
      unfold findRun
      by_cases hi : i < availablePages
      · rw [if_pos hi]
        cases hfind : (List.range sizePages).find? fun j => getIndex words (i + j) with
        | none =>
            have hclear : ClearRun words sizePages i := by
              intro j hj
              simpa using List.find?_eq_none.mp hfind j (List.mem_range.mpr hj)
            constructor
            · rintro ⟨⟩
              exact ⟨Nat.le_refl _, hi, hclear, fun k hlower hupper => by omega⟩
            · rintro ⟨hle, -, -, hfirst⟩
              rcases Nat.eq_or_lt_of_le hle with rfl | hlt
              · rfl
              · exact absurd hclear (hfirst i (Nat.le_refl i) hlt)
        | some j =>
            have hset : getIndex words (i + j) = true := by simpa using List.find?_some hfind
            have hj : j < sizePages := List.mem_range.mp (List.mem_of_find?_eq_some hfind)
            have hpassed : ∀ k, i ≤ k → k < i + j + 1 → ¬ClearRun words sizePages k :=
              fun k hlower hupper => not_clearRun hset hj hlower (Nat.le_of_lt_succ hupper)
            simp only
            rw [ih (by omega)]
            constructor
            · rintro ⟨hle, hlt, hclear, hfirst⟩
              refine ⟨by omega, hlt, hclear, fun k hlower hupper => ?_⟩
              by_cases hjump : k < i + j + 1
              · exact hpassed k hlower hjump
              · exact hfirst k (Nat.le_of_not_lt hjump) hupper
            · rintro ⟨hle, hlt, hclear, hfirst⟩
              refine ⟨?_, hlt, hclear, fun k hlower hupper => hfirst k (by omega) hupper⟩
              by_contra hjump
              exact hpassed found hle (Nat.lt_of_not_le hjump) hclear
      · rw [if_neg hi]
        constructor
        · rintro ⟨⟩
        · omega

theorem findRun_eq_none (hfuel : availablePages < i + fuel) :
    findRun words availablePages sizePages fuel i = none ↔
      ∀ k, i ≤ k → k < availablePages → ¬ClearRun words sizePages k := by
  constructor
  · intro hnone k hlower hupper hclear
    classical
    have hexists : ∃ k, i ≤ k ∧ ClearRun words sizePages k := ⟨k, hlower, hclear⟩
    obtain ⟨hfirst, hfirstClear⟩ := Nat.find_spec hexists
    have hfound : findRun words availablePages sizePages fuel i = some (Nat.find hexists) := by
      refine (findRun_eq_some hfuel).mpr ⟨hfirst, ?_, hfirstClear, ?_⟩
      · exact Nat.lt_of_le_of_lt (Nat.find_min' hexists ⟨hlower, hclear⟩) hupper
      · exact fun k hlower hupper hclear => Nat.find_min hexists hupper ⟨hlower, hclear⟩
    rw [hnone] at hfound
    cases hfound
  · intro hnone
    cases hfind : findRun words availablePages sizePages fuel i with
    | none => rfl
    | some found =>
        obtain ⟨hlower, hupper, hclear, -⟩ := (findRun_eq_some hfuel).mp hfind
        exact absurd hclear (hnone found hlower hupper)

/-- What `bitmap_reserve_contiguous` returns, by where the clear runs start. -/
theorem bitmapReserveContiguous_cases (area : Area) (words : Words) (sizePages : Nat) :
    (∃ i < area.availablePages, ClearRun words sizePages i ∧
      (∀ k < i, ¬ClearRun words sizePages k) ∧
      bitmapReserveContiguous area words sizePages = (area.page i, setRun words i sizePages)) ∨
    (∀ i < area.availablePages, ¬ClearRun words sizePages i) ∧
      bitmapReserveContiguous area words sizePages = (0, words) := by
  have hfuel : area.availablePages < 0 + (area.availablePages + 1) := by omega
  cases hfind : findRun words area.availablePages sizePages (area.availablePages + 1) 0 with
  | some i =>
      obtain ⟨-, hlt, hclear, hfirst⟩ := (findRun_eq_some hfuel).mp hfind
      refine .inl ⟨i, hlt, hclear, fun k hk => hfirst k (Nat.zero_le k) hk, ?_⟩
      simp only [bitmapReserveContiguous, hfind]
  | none =>
      have hnone := (findRun_eq_none hfuel).mp hfind
      refine .inr ⟨fun i hi => hnone i (Nat.zero_le i) hi, ?_⟩
      simp only [bitmapReserveContiguous, hfind]

/-- The first clear run starts in the lower half of a word: in the upper half the bit before it
would be clear too. -/
theorem run_low (huniform : Uniform words) (hpos : 0 < sizePages)
    (hclear : ClearRun words sizePages i) (hfirst : ∀ k < i, ¬ClearRun words sizePages k) :
    i % 64 < 32 := by
  by_contra hhigh
  refine hfirst (i - 1) (by omega) fun j hj => ?_
  cases j with
  | zero =>
      rw [Nat.add_zero, huniform (i - 1) i (by omega) (by omega) (by omega)]
      exact hclear 0 hpos
  | succ j =>
      rw [show i - 1 + (j + 1) = i + j by omega]
      exact hclear j (by omega)

/-- With a clear run inside the area, `bitmap_reserve_contiguous` takes one, and
sets all its bits. -/
theorem bitmapReserveContiguous_spec (huniform : Uniform words) {goal : Nat}
    (hpos : 0 < sizePages) (hinside : goal + sizePages ≤ area.availablePages)
    (hrun : ∀ j < sizePages, getIndex words (goal + j) = false) :
    ∃ i, i + sizePages ≤ area.availablePages ∧ i % 64 < 32 ∧
      (∀ j < sizePages, getIndex words (i + j) = false) ∧
      bitmapReserveContiguous area words sizePages = (area.page i, setRun words i sizePages) := by
  rcases bitmapReserveContiguous_cases area words sizePages with
    ⟨i, -, hclear, hfirst, hcall⟩ | ⟨hnone, -⟩
  · have hle : i ≤ goal := Nat.le_of_not_lt fun hlt => hfirst goal hlt hrun
    exact ⟨i, by omega, run_low huniform hpos hclear hfirst, hclear, hcall⟩
  · exact absurd hrun (hnone goal (by omega))

theorem Fits.clearRun (hfits : Fits area words sizePages i) : ClearRun words sizePages i :=
  fun j hj => (hfits j hj).2

theorem Fits.lt_availablePages (hfits : Fits area words sizePages i) (hpos : 0 < sizePages) :
    i < area.availablePages :=
  (hfits 0 hpos).1

/-- In front of a run that fits, every clear run fits. -/
theorem Fits.of_clearRun (hfits : Fits area words sizePages i) {k : Nat} (hk : k ≤ i)
    (hclear : ClearRun words sizePages k) : Fits area words sizePages k := by
  intro j hj
  exact ⟨Nat.lt_of_le_of_lt (Nat.add_le_add_right hk j) (hfits j hj).1, hclear j hj⟩

/-- The search is exact unless the only clear runs that start in the area go past its end. -/
theorem reservesFirst_iff (area : Area) (words : Words) (hpos : 0 < sizePages) :
    ReservesFirst area words sizePages ↔
      ((∃ i < area.availablePages, ClearRun words sizePages i) →
        ∃ i, Fits area words sizePages i) := by
  rcases bitmapReserveContiguous_cases area words sizePages with
    ⟨found, hlt, hclear, hfirst, hcall⟩ | ⟨hnone, hcall⟩
  · have hne : area.page found ≠ 0 := page_ne_zero hlt
    rw [ReservesFirst, hcall]
    constructor
    · rintro ⟨-, hzero⟩ -
      by_contra hnofit
      exact hne (hzero.mpr (not_exists.mp hnofit))
    · intro hfits
      obtain ⟨i, hfit⟩ := hfits ⟨found, hlt, hclear⟩
      refine ⟨fun k hk hleast => ?_, iff_of_false hne fun hnofit => hnofit i hfit⟩
      -- the first start of a clear run is the first start of one that fits
      have hfound : found ≤ k := Nat.le_of_not_lt fun hlt => hfirst k hlt hk.clearRun
      obtain rfl : found = k := by
        by_contra hne
        exact hleast found (Nat.lt_of_le_of_ne hfound hne) (hk.of_clearRun hfound hclear)
      exact page_eq hlt
  · have hnofit : ∀ i, ¬Fits area words sizePages i := fun i hfits =>
      hnone i (hfits.lt_availablePages hpos) hfits.clearRun
    rw [ReservesFirst, hcall]
    refine iff_of_true ⟨fun i hfits => absurd hfits (hnofit i), iff_of_true rfl hnofit⟩ ?_
    rintro ⟨i, hlt, hclear⟩
    exact absurd hclear (hnone i hlt)

/-- All pages of 8 are free, and 5 in a row are asked for. -/
theorem reservesFirst_five :
    ReservesFirst ⟨0x3000, 8, by decide, by decide, by decide⟩ (fun _ => 0#64) 5 :=
  (reservesFirst_iff _ _ (by decide)).mpr fun _ => ⟨0, by unfold Fits; decide⟩

/-- All pages of 8 are free, and 9 are asked for: there is a ninth bit, and it is clear. -/
theorem reservesFirst_past_end :
    ¬ReservesFirst ⟨0x3000, 8, by decide, by decide, by decide⟩ (fun _ => 0#64) 9 := by
  rintro ⟨-, hzero⟩
  have hreturn : (bitmapReserveContiguous ⟨0x3000, 8, by decide, by decide, by decide⟩
      (fun _ => 0#64) 9).1 = 0 := by
    refine hzero.mpr fun i hfits => ?_
    have hlast := (hfits 8 (by decide)).1
    change i + 8 < 8 at hlast
    omega
  exact absurd hreturn (by decide +kernel)

end PKernel.Bitmap
