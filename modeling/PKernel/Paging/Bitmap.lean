import PKernel.Machine
import Mathlib.Data.Finset.Card
import Mathlib.Data.Finset.Range

/-! # The bitmap of physical pages

`bitmap.h` and `bitmap.c`: one bit for each page of the allocation region, in
64-bit words. The bit operations shift the literal `0b1`, an `int`: the machine
takes the shift count modulo 32 and the result is sign-extended to the word.
So the upper bits of a word always agree, and a search never ends there.
-/

namespace PKernel.Bitmap

/-- The words at `PAGING_BITMAP_VADDR`. -/
abbrev Words := Nat → BitVec 64

/-- `0b1 << (index % 64)`, a 32-bit value. -/
def shifted (index : Nat) : BitVec 32 := 1#32 <<< (index % 64 % 32)

/-- `paging_bitmap_get_index`. -/
def getIndex (words : Words) (index : Nat) : Bool :=
  (words (index / 64) >>> (index % 64)) &&& 1#64 != 0#64

/-- `paging_bitmap_set_index`. -/
def setIndex (words : Words) (index : Nat) : Words :=
  Function.update words (index / 64) (words (index / 64) ||| (shifted index).signExtend 64)

/-- `paging_bitmap_clear_index`. -/
def clearIndex (words : Words) (index : Nat) : Words :=
  Function.update words (index / 64) (words (index / 64) &&& (~~~shifted index).signExtend 64)

/-- The page region that the bitmap describes, as `paging_bitmap_init` leaves it. -/
structure Area where
  /-- `allocation_region_start`. -/
  start : Nat
  /-- `bitmap_available_pages`. -/
  availablePages : Nat
  start_pos : 0 < start
  start_aligned : pageSize ∣ start
  end_le : start + availablePages * pageSize ≤ 2 ^ 64

/-- The address of the page with this index. -/
def Area.page (area : Area) (index : Nat) : Nat := u64 (area.start + index * pageSize)

/-- `bitmap_reserve`: the address of the page, or 0, and the words. -/
def bitmapReserve (area : Area) (words : Words) : Nat × Words :=
  match (List.range area.availablePages).find? fun i => !getIndex words i with
  | some i => (area.page i, setIndex words i)
  | none => (0, words)

/-- The outer loop of `bitmap_reserve_contiguous` from `i` on: the index of the
first run it accepts. It jumps behind a set bit. -/
def findRun (words : Words) (availablePages sizePages : Nat) : Nat → Nat → Option Nat
  | 0, _ => none
  | fuel + 1, i =>
      if i < availablePages then
        match (List.range sizePages).find? fun j => getIndex words (i + j) with
        | some j => findRun words availablePages sizePages fuel (i + j + 1)
        | none => some i
      else none

/-- The loop that sets the bits of a run. -/
def setRun (words : Words) (i : Nat) : Nat → Words
  | 0 => words
  | sizePages + 1 => setIndex (setRun words i sizePages) (i + sizePages)

/-- `bitmap_reserve_contiguous`. -/
def bitmapReserveContiguous (area : Area) (words : Words) (sizePages : Nat) : Nat × Words :=
  match findRun words area.availablePages sizePages (area.availablePages + 1) 0 with
  | some i => (area.page i, setRun words i sizePages)
  | none => (0, words)

/-- `bitmap_free`: whether every bit it cleared was set, and the words. The
error it returns otherwise has no value in the repository. -/
def bitmapFree (words : Words) (address : Nat) : Nat → Bool × Words
  | 0 => (true, words)
  | sizePages + 1 =>
      let earlier := bitmapFree words address sizePages
      (earlier.1 && getIndex earlier.2 (address / pageSize + sizePages),
        clearIndex earlier.2 (address / pageSize + sizePages))

/-! ## Single bits -/

/-- Setting or clearing `index` reaches the bit of `other`. -/
def Reaches (index other : Nat) : Prop :=
  other / 64 = index / 64 ∧
    (other % 64 = index % 32 ∨ (index % 32 = 31 ∧ 31 ≤ other % 64))

instance (index other : Nat) : Decidable (Reaches index other) :=
  inferInstanceAs (Decidable (_ ∧ _))

variable {words : Words} {index other : Nat}

theorem getIndex_eq : getIndex words index = (words (index / 64)).getLsbD (index % 64) := by
  rw [getIndex, BitVec.and_one_eq_setWidth_ofBool_getLsbD, BitVec.getLsbD_ushiftRight, Nat.add_zero]
  cases (words (index / 64)).getLsbD (index % 64) <;> decide

theorem getLsbD_shifted {bit : Nat} (hbit : bit < 64) :
    ((shifted index).signExtend 64).getLsbD bit =
      decide (bit = index % 32 ∨ (index % 32 = 31 ∧ 31 ≤ bit)) := by
  have hmod : index % 64 % 32 = index % 32 := by omega
  have hcount : index % 32 < 32 := Nat.mod_lt _ (by decide)
  rw [shifted, hmod, ← BitVec.twoPow_eq, BitVec.getLsbD_signExtend, BitVec.getLsbD_twoPow,
    BitVec.msb_twoPow]
  by_cases hlow : bit < 32
  · simp only [hbit, hcount, hlow, decide_true, Bool.true_and, ↓reduceIte, decide_eq_decide]
    omega
  · simp only [hbit, hcount, hlow, decide_true, Bool.true_and, ↓reduceIte, decide_eq_decide]
    omega

theorem getIndex_setIndex :
    getIndex (setIndex words index) other =
      (getIndex words other || decide (Reaches index other)) := by
  by_cases hword : other / 64 = index / 64
  · have hbit : other % 64 < 64 := Nat.mod_lt _ (by decide)
    rw [getIndex_eq, getIndex_eq, setIndex, hword, Function.update_self, BitVec.getLsbD_or,
      getLsbD_shifted hbit]
    simp [Reaches, hword]
  · rw [getIndex_eq, getIndex_eq, setIndex, Function.update_of_ne hword]
    simp [Reaches, hword]

theorem getIndex_clearIndex :
    getIndex (clearIndex words index) other =
      (getIndex words other && !decide (Reaches index other)) := by
  by_cases hword : other / 64 = index / 64
  · have hbit : other % 64 < 64 := Nat.mod_lt _ (by decide)
    rw [getIndex_eq, getIndex_eq, clearIndex, hword, Function.update_self, BitVec.getLsbD_and,
      BitVec.signExtend_not (by decide), BitVec.getLsbD_not, getLsbD_shifted hbit]
    simp [Reaches, hword, hbit]
  · rw [getIndex_eq, getIndex_eq, clearIndex, Function.update_of_ne hword]
    simp [Reaches, hword]

/-- Setting and clearing an index acts on its own bit only. -/
structure OnlyBit (words : Words) (index : Nat) : Prop where
  set : getIndex (setIndex words index) index = true
  clear : getIndex (clearIndex words index) index = false
  frame : ∀ other, other ≠ index →
    getIndex (setIndex words index) other = getIndex words other ∧
      getIndex (clearIndex words index) other = getIndex words other

/-- The shifted literal is the mask of its index in the low 31 bits of a word only. -/
theorem onlyBit_iff : OnlyBit words index ↔ index % 64 < 31 := by
  constructor
  · intro honly
    by_contra hhigh
    -- some other bit of the word is reached, and that bit is set and clear at once
    obtain ⟨other, hne, hreaches⟩ : ∃ other, other ≠ index ∧ Reaches index other := by
      by_cases hlast : index % 32 = 31
      · exact ⟨64 * (index / 64) + 32, by omega, by unfold Reaches; omega⟩
      · exact ⟨64 * (index / 64) + index % 32, by omega, by unfold Reaches; omega⟩
    obtain ⟨hset, hclear⟩ := honly.frame other hne
    rw [getIndex_setIndex, decide_eq_true hreaches, Bool.or_true] at hset
    rw [getIndex_clearIndex, decide_eq_true hreaches, Bool.not_true, Bool.and_false, ← hset] at hclear
    cases hclear
  · intro hlow
    have hself : Reaches index index := by unfold Reaches; omega
    refine ⟨?_, ?_, fun other hne => ?_⟩
    · rw [getIndex_setIndex, decide_eq_true hself, Bool.or_true]
    · rw [getIndex_clearIndex, decide_eq_true hself, Bool.not_true, Bool.and_false]
    · have hother : ¬Reaches index other := by unfold Reaches; omega
      rw [getIndex_setIndex, getIndex_clearIndex, decide_eq_false hother, Bool.or_false, Bool.not_false,
        Bool.and_true]
      exact ⟨rfl, rfl⟩

/-- Setting index 32 of clear words sets bit 0 and leaves bit 32 clear. -/
theorem not_onlyBit : ¬∀ words index, OnlyBit words index := by
  intro honly
  have hset := (honly (fun _ => 0#64) 32).set
  exact absurd hset (by decide)

/-- The bits from 31 on of every word agree. -/
def Uniform (words : Words) : Prop :=
  ∀ index other, index / 64 = other / 64 → 31 ≤ index % 64 → 31 ≤ other % 64 →
    getIndex words index = getIndex words other

theorem reaches_congr {target : Nat} (hword : index / 64 = other / 64) (hindex : 31 ≤ index % 64)
    (hother : 31 ≤ other % 64) : Reaches target index ↔ Reaches target other := by
  unfold Reaches
  omega

theorem Uniform.setIndex (huniform : Uniform words) (target : Nat) :
    Uniform (setIndex words target) := by
  intro index other hword hindex hother
  rw [getIndex_setIndex, getIndex_setIndex, huniform index other hword hindex hother,
    decide_eq_decide.mpr (reaches_congr hword hindex hother)]

theorem Uniform.clearIndex (huniform : Uniform words) (target : Nat) :
    Uniform (clearIndex words target) := by
  intro index other hword hindex hother
  rw [getIndex_clearIndex, getIndex_clearIndex, huniform index other hword hindex hother,
    decide_eq_decide.mpr (reaches_congr hword hindex hother)]

variable {area : Area}

/-! ## Pages and indexes -/

theorem page_eq {i : Nat} (hi : i < area.availablePages) :
    area.page i = area.start + i * pageSize := by
  apply u64_eq_self
  have := area.end_le
  unfold pageSize at *
  omega

theorem index_page {i : Nat} (hi : i < area.availablePages) :
    (area.page i - area.start) / pageSize = i := by
  rw [page_eq hi, Nat.add_sub_cancel_left]
  exact Nat.mul_div_cancel i (by decide)

theorem page_ne_zero {i : Nat} (hi : i < area.availablePages) : area.page i ≠ 0 := by
  rw [page_eq hi]
  have := area.start_pos
  omega

theorem pageSize_dvd_page {i : Nat} (hi : i < area.availablePages) : pageSize ∣ area.page i := by
  rw [page_eq hi]
  exact Nat.dvd_add area.start_aligned (Nat.dvd_mul_left _ _)

/-! ## Reserving one page -/

/-- The clear indexes that a search can end in. -/
def usable (area : Area) (words : Words) : Finset Nat :=
  (Finset.range area.availablePages).filter fun i => i % 64 < 32 ∧ getIndex words i = false

theorem mem_usable : index ∈ usable area words ↔
    index < area.availablePages ∧ index % 64 < 32 ∧ getIndex words index = false := by
  simp [usable]

/-- Setting a bit of the lower half sets no other bit there. -/
theorem usable_setIndex (hhalf : index % 64 < 32) :
    usable area (setIndex words index) = (usable area words).erase index := by
  ext other
  rw [mem_usable, Finset.mem_erase, mem_usable, getIndex_setIndex]
  rw [Bool.or_eq_false_iff, decide_eq_false_iff_not, Reaches]
  constructor
  · rintro ⟨havailable, hlow, hclear, hreaches⟩
    refine ⟨?_, havailable, hlow, hclear⟩
    rintro rfl
    omega
  · rintro ⟨hne, havailable, hlow, hclear⟩
    exact ⟨havailable, hlow, hclear, by omega⟩

/-- `bitmap_reserve` takes the first clear index. -/
theorem bitmapReserve_cases (area : Area) (words : Words) :
    (∃ i < area.availablePages, getIndex words i = false ∧ (∀ k < i, getIndex words k = true) ∧
      bitmapReserve area words = (area.page i, setIndex words i)) ∨
    (∀ i < area.availablePages, getIndex words i = true) ∧
      bitmapReserve area words = (0, words) := by
  cases hfind : (List.range area.availablePages).find? fun i => !getIndex words i with
  | some i =>
      obtain ⟨hclear, hmem, hbefore⟩ := List.find?_range_eq_some.mp hfind
      refine .inl ⟨i, List.mem_range.mp hmem, by simpa using hclear, fun k hk => ?_, ?_⟩
      · simpa using hbefore k hk
      · simp only [bitmapReserve, hfind]
  | none =>
      refine .inr ⟨fun i hi => ?_, by simp only [bitmapReserve, hfind]⟩
      simpa using List.find?_eq_none.mp hfind i (List.mem_range.mpr hi)

/-- The first clear index is in the lower half of its word: in the upper half the bit before it
would be clear too. -/
theorem first_low (huniform : Uniform words) (hclear : getIndex words index = false)
    (hbefore : ∀ k < index, getIndex words k = true) : index % 64 < 32 := by
  by_contra hhigh
  have hprev := huniform (index - 1) index (by omega) (by omega) (by omega)
  rw [hclear, hbefore (index - 1) (by omega)] at hprev
  cases hprev

/-- With a usable index left, `bitmap_reserve` takes the first clear one, which
is usable. -/
theorem bitmapReserve_spec (huniform : Uniform words) (hroom : 0 < (usable area words).card) :
    ∃ i ∈ usable area words, bitmapReserve area words = (area.page i, setIndex words i) := by
  rcases bitmapReserve_cases area words with ⟨i, hlt, hclear, hbefore, hcall⟩ | ⟨hset, -⟩
  · exact ⟨i, mem_usable.mpr ⟨hlt, first_low huniform hclear hbefore, hclear⟩, hcall⟩
  · obtain ⟨free, hfree⟩ := Finset.card_pos.mp hroom
    obtain ⟨havailable, -, hclear⟩ := mem_usable.mp hfree
    rw [hset free havailable] at hclear
    cases hclear

/-! ## Reserving a run -/

theorem Uniform.setRun (huniform : Uniform words) (i sizePages : Nat) :
    Uniform (setRun words i sizePages) := by
  induction sizePages with
  | zero => exact huniform
  | succ sizePages ih => exact ih.setIndex _

theorem getIndex_setRun {i sizePages : Nat} :
    getIndex (setRun words i sizePages) other = true ↔
      getIndex words other = true ∨ ∃ j < sizePages, Reaches (i + j) other := by
  induction sizePages with
  | zero => simp [setRun]
  | succ sizePages ih =>
      rw [setRun, getIndex_setIndex, Bool.or_eq_true, decide_eq_true_eq, ih]
      constructor
      · rintro ((h | ⟨j, hj, h⟩) | h)
        · exact .inl h
        · exact .inr ⟨j, by omega, h⟩
        · exact .inr ⟨sizePages, by omega, h⟩
      · rintro (h | ⟨j, hj, h⟩)
        · exact .inl (.inl h)
        · by_cases hlast : j = sizePages
          · exact .inr (hlast ▸ h)
          · exact .inl (.inr ⟨j, by omega, h⟩)

/-- A run that starts in the lower half of a word has all its bits set. -/
theorem getIndex_setRun_self {i sizePages j : Nat} (hhalf : i % 64 < 32) (hj : j < sizePages) :
    getIndex (setRun words i sizePages) (i + j) = true := by
  rw [getIndex_setRun]
  right
  by_cases hlow : (i + j) % 64 < 32
  · exact ⟨j, hj, by unfold Reaches; omega⟩
  · -- The run passes index 31 of the word, which reaches the whole upper half.
    exact ⟨64 * ((i + j) / 64) + 31 - i, by omega, by unfold Reaches; omega⟩

/-! ## Freeing -/

theorem Uniform.bitmapFree (huniform : Uniform words) (address sizePages : Nat) :
    Uniform (bitmapFree words address sizePages).2 := by
  induction sizePages with
  | zero => exact huniform
  | succ sizePages ih => exact ih.clearIndex _

/-- Bits that no cleared index reaches stay set. -/
theorem getIndex_bitmapFree {address sizePages : Nat} (hset : getIndex words other = true)
    (hreaches : ∀ j < sizePages, ¬Reaches (address / pageSize + j) other) :
    getIndex (bitmapFree words address sizePages).2 other = true := by
  induction sizePages with
  | zero => exact hset
  | succ sizePages ih =>
      have hkept := ih fun j hj => hreaches j (by omega)
      simp only [bitmapFree]
      rw [getIndex_clearIndex, hkept]
      simpa using hreaches sizePages (by omega)

end PKernel.Bitmap
