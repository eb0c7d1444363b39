import Mathlib.Algebra.Order.BigOperators.Group.Finset
import Mathlib.Data.Finset.Max
import PKernel.Paging.ContiguousSearch

/-! # Setting and clearing many bits

Which bits are set after setting some indexes one after the other and clearing others, and when
clearing the indexes at a distance takes back what setting did.
-/

namespace PKernel.Bitmap

variable {words : Words} {index other base : Nat} {indexes : List Nat}

/-- Set the bits of some indexes. -/
def setEach (words : Words) (indexes : List Nat) : Words := indexes.foldl setIndex words

/-- Clear the bits of some indexes: whether each was set when it came to it, and the words. -/
def clearEach : Words → List Nat → Bool × Words
  | words, [] => (true, words)
  | words, index :: rest =>
      let later := clearEach (clearIndex words index) rest
      (getIndex words index && later.1, later.2)

theorem getIndex_setEach : getIndex (setEach words indexes) other = true ↔
    getIndex words other = true ∨ ∃ i ∈ indexes, Reaches i other := by
  induction indexes generalizing words with
  | nil => simp [setEach]
  | cons i rest ih =>
      have hset := @ih (setIndex words i)
      rw [getIndex_setIndex, Bool.or_eq_true, decide_eq_true_eq] at hset
      rw [setEach, List.foldl_cons, ← setEach, hset, List.exists_mem_cons_iff, or_assoc]

theorem getIndex_clearEach : getIndex (clearEach words indexes).2 other = true ↔
    getIndex words other = true ∧ ∀ i ∈ indexes, ¬Reaches i other := by
  induction indexes generalizing words with
  | nil => simp [clearEach]
  | cons i rest ih =>
      rw [clearEach, ih, getIndex_clearIndex, Bool.and_eq_true, Bool.not_eq_true',
        decide_eq_false_iff_not, List.forall_mem_cons, and_assoc]

/-- Each index was set, and none before it reached it. -/
theorem clearEach_fst : (clearEach words indexes).1 = true ↔
    indexes.Pairwise (fun first second => ¬Reaches first second) ∧
      ∀ i ∈ indexes, getIndex words i = true := by
  induction indexes generalizing words with
  | nil => simp [clearEach]
  | cons i rest ih =>
      simp only [clearEach, Bool.and_eq_true, ih, getIndex_clearIndex, Bool.not_eq_true',
        decide_eq_false_iff_not, List.pairwise_cons, List.forall_mem_cons]
      constructor
      · rintro ⟨hset, hpairwise, hrest⟩
        exact ⟨⟨fun k hk => (hrest k hk).2, hpairwise⟩, hset, fun k hk => (hrest k hk).1⟩
      · rintro ⟨⟨hreaches, hpairwise⟩, hset, hrest⟩
        exact ⟨hset, hpairwise, fun k hk => ⟨hrest k hk, hreaches k hk⟩⟩

theorem clearEach_concat (indexes : List Nat) (index : Nat) :
    clearEach words (indexes ++ [index]) =
      ((clearEach words indexes).1 && getIndex (clearEach words indexes).2 index,
        clearIndex (clearEach words indexes).2 index) := by
  induction indexes generalizing words with
  | nil => simp [clearEach]
  | cons i rest ih => simp only [List.cons_append, clearEach, ih, Bool.and_assoc]

theorem Uniform.setEach (huniform : Uniform words) (indexes : List Nat) :
    Uniform (setEach words indexes) := by
  induction indexes generalizing words with
  | nil => exact huniform
  | cons i rest ih => exact ih (huniform.setIndex i)

theorem setEach_concat (words : Words) (indexes : List Nat) (index : Nat) :
    setEach words (indexes ++ [index]) = setIndex (setEach words indexes) index := by
  rw [setEach, List.foldl_append, ← setEach]
  rfl

/-! ## Taking back -/

/-- Setting the indexes and then clearing those at a distance leads back, and each of these was
set when it was cleared. -/
def TakenBack (words : Words) (base : Nat) (indexes : List Nat) : Prop :=
  (clearEach (setEach words indexes) (indexes.map (base + ·))).1 = true ∧
    ∀ other, getIndex (clearEach (setEach words indexes) (indexes.map (base + ·))).2 other =
      getIndex words other

/-- The bits that this takes: the cleared indexes do not reach each other and are set, they do not
reach what was set before, and they reach all that was not. -/
theorem takenBack_iff : TakenBack words base indexes ↔
    indexes.Pairwise (fun first second => ¬Reaches (base + first) (base + second)) ∧
    (∀ i ∈ indexes, getIndex words (base + i) = true ∨ ∃ k ∈ indexes, Reaches k (base + i)) ∧
    (∀ i ∈ indexes, ∀ other, Reaches (base + i) other → getIndex words other = false) ∧
    ∀ i ∈ indexes, ∀ other, Reaches i other → getIndex words other = false →
      ∃ k ∈ indexes, Reaches (base + k) other := by
  have hbits : ∀ other,
      getIndex (clearEach (setEach words indexes) (indexes.map (base + ·))).2 other =
          getIndex words other ↔
        (((getIndex words other = true ∨ ∃ i ∈ indexes, Reaches i other) ∧
          ∀ i ∈ indexes, ¬Reaches (base + i) other) ↔ getIndex words other = true) := by
    intro other
    rw [Bool.eq_iff_iff, getIndex_clearEach, getIndex_setEach, List.forall_mem_map]
  rw [TakenBack, clearEach_fst, List.pairwise_map, List.forall_mem_map, forall_congr' hbits,
    and_assoc]
  simp only [getIndex_setEach]
  refine and_congr_right fun _ => and_congr_right fun _ => ?_
  constructor
  · intro hbits
    constructor
    · intro i hi other hreaches
      by_contra hset
      exact ((hbits other).mpr (by simpa using hset)).2 i hi hreaches
    · intro i hi other hreaches hclear
      by_contra hnone
      push Not at hnone
      have := (hbits other).mp ⟨.inr ⟨i, hi, hreaches⟩, hnone⟩
      simp [hclear] at this
  · rintro ⟨hkept, hcovered⟩ other
    constructor
    · rintro ⟨hset | ⟨i, hi, hreaches⟩, hnone⟩
      · exact hset
      · by_contra hclear
        obtain ⟨k, hk, hreached⟩ := hcovered i hi other hreaches (by simpa using hclear)
        exact hnone k hk hreached
    · intro hset
      refine ⟨.inl hset, fun i hi hreaches => ?_⟩
      rw [hkept i hi other hreaches] at hset
      cases hset

/-! ## Indexes at a distance -/

/-- The bit of the lower half that an index reaches. -/
def lowBit (index : Nat) : Nat := 64 * (index / 64) + index % 32

/-- The last bit of the lower half of the word of an index. It reaches the upper half. -/
def lastLow (index : Nat) : Nat := 64 * (index / 64) + 31

theorem reaches_low (hother : other % 64 < 32) : Reaches index other ↔ lowBit index = other := by
  unfold Reaches lowBit
  omega

theorem reaches_congr_left {first second : Nat} (hsame : lowBit first = lowBit second) :
    Reaches first other ↔ Reaches second other := by
  unfold lowBit at hsame
  unfold Reaches
  omega

/-- The indexes are in the lower halves of their words, those at a distance reach them again, and
the upper half of each word is set: it was before, or the distance leads exactly there. -/
structure Returnable (words : Words) (base : Nat) (indexes : List Nat) : Prop where
  low : ∀ i ∈ indexes, i % 64 < 32
  returned : ∀ i ∈ indexes, lowBit (base + i) ∈ indexes
  upper : ∀ i ∈ indexes, getIndex words (lastLow i) = true ∨ base = 32 ∧ lastLow i ∈ indexes

/-- The distance keeps indexes of the lower halves apart. -/
theorem lowBit_injOn {indexes : Finset Nat} (hlow : ∀ i ∈ indexes, i % 64 < 32) (base : Nat) :
    Set.InjOn (fun i => lowBit (base + i)) indexes := by
  intro first hfirst second hsecond hsame
  have hfirstLow := hlow first hfirst
  have hsecondLow := hlow second hsecond
  simp only [lowBit] at hsame
  omega

/-- When the distance leads from the indexes to all of them, it leads to no others. -/
theorem image_lowBit {indexes : Finset Nat} (hlow : ∀ i ∈ indexes, i % 64 < 32) :
    (∀ i ∈ indexes, lowBit (base + i) ∈ indexes) ↔
      indexes.image (fun i => lowBit (base + i)) = indexes := by
  have hcard := Finset.card_image_of_injOn (lowBit_injOn hlow base)
  constructor
  · intro hinside
    exact Finset.eq_of_subset_of_card_le (Finset.image_subset_iff.mpr hinside)
      (Nat.le_of_eq hcard.symm)
  · intro hsame i hi
    rw [← hsame]
    exact Finset.mem_image_of_mem _ hi

/-- It then leaves no word: the numbers of the words have the same sum before and after. -/
theorem same_word {indexes : Finset Nat} (hlow : ∀ i ∈ indexes, i % 64 < 32)
    (hinside : ∀ i ∈ indexes, lowBit (base + i) ∈ indexes) :
    ∀ i ∈ indexes, (base + i) / 64 = i / 64 := by
  have himage := (image_lowBit hlow).mp hinside
  have hword (i : Nat) : lowBit i / 64 = i / 64 := by unfold lowBit; omega
  have hsum : ∑ i ∈ indexes, i / 64 = ∑ i ∈ indexes, (base + i) / 64 := by
    calc ∑ i ∈ indexes, i / 64
      _ = ∑ k ∈ indexes.image (fun i => lowBit (base + i)), k / 64 := by rw [himage]
      _ = ∑ i ∈ indexes, lowBit (base + i) / 64 := Finset.sum_image (lowBit_injOn hlow base)
      _ = ∑ i ∈ indexes, (base + i) / 64 := Finset.sum_congr rfl fun i _ => hword _
  intro i hi
  refine ((Finset.sum_eq_sum_iff_of_le fun k _ => ?_).mp hsum i hi).symm
  exact Nat.div_le_div_right (Nat.le_add_left k base)

/-- In an ascending list the relation of a pair is that of its members in their order. -/
theorem rel_of_lt {relation : Nat → Nat → Prop} (hsorted : indexes.Pairwise (· < ·))
    (hrelated : indexes.Pairwise relation) {first second : Nat} (hfirst : first ∈ indexes)
    (hsecond : second ∈ indexes) (hlt : first < second) : relation first second := by
  induction indexes with
  | nil => cases hfirst
  | cons i rest ih =>
      obtain ⟨hfront, hrest⟩ := List.pairwise_cons.mp hrelated
      obtain ⟨hleast, hsorted⟩ := List.pairwise_cons.mp hsorted
      rcases List.mem_cons.mp hfirst with rfl | hfirstRest <;>
        rcases List.mem_cons.mp hsecond with rfl | hsecondRest
      · exact absurd hlt (Nat.lt_irrefl _)
      · exact hfront second hsecondRest
      · exact absurd (hleast first hfirstRest) (Nat.lt_asymm hlt)
      · exact ih hsorted hrest hfirstRest hsecondRest

namespace Returnable

theorem sameWord (hreturnable : Returnable words base indexes) {i : Nat} (hi : i ∈ indexes) :
    (base + i) / 64 = i / 64 := by
  refine @same_word base indexes.toFinset ?_ ?_ i (List.mem_toFinset.mpr hi)
  · exact fun k hk => hreturnable.low k (List.mem_toFinset.mp hk)
  · exact fun k hk => List.mem_toFinset.mpr (hreturnable.returned k (List.mem_toFinset.mp hk))

theorem surjective (hreturnable : Returnable words base indexes) {k : Nat} (hk : k ∈ indexes) :
    ∃ i ∈ indexes, lowBit (base + i) = k := by
  have himage := (@image_lowBit base indexes.toFinset fun i hi =>
    hreturnable.low i (List.mem_toFinset.mp hi)).mp fun i hi =>
      List.mem_toFinset.mpr (hreturnable.returned i (List.mem_toFinset.mp hi))
  have hmem := List.mem_toFinset.mpr hk
  rw [← himage] at hmem
  obtain ⟨i, hi, hsame⟩ := Finset.mem_image.mp hmem
  exact ⟨i, List.mem_toFinset.mp hi, hsame⟩

/-- Clear indexes are taken back. -/
theorem takenBack (hreturnable : Returnable words base indexes) (huniform : Uniform words)
    (hsorted : indexes.Pairwise (· < ·)) (hclear : ∀ i ∈ indexes, getIndex words i = false) :
    TakenBack words base indexes := by
  -- an index at a distance only reaches clear bits
  have hreached : ∀ i ∈ indexes, ∀ other, Reaches (base + i) other →
      getIndex words other = false := by
    intro i hi other hreaches
    have hbit := hclear _ (hreturnable.returned i hi)
    by_cases hother : other % 64 < 32
    · rwa [(reaches_low hother).mp hreaches] at hbit
    · unfold Reaches at hreaches
      rw [huniform other (lowBit (base + i)) (by unfold lowBit; omega) (by omega)
        (by unfold lowBit; omega)]
      exact hbit
  refine takenBack_iff.mpr ⟨?_, ?_, hreached, ?_⟩
  · refine List.Pairwise.imp_of_mem ?_ hsorted
    intro first second hfirst hsecond hlt hreaches
    have hfirstWord := hreturnable.sameWord hfirst
    have hsecondWord := hreturnable.sameWord hsecond
    have hfirstLow := hreturnable.low first hfirst
    have hsecondLow := hreturnable.low second hsecond
    unfold Reaches at hreaches
    -- the first is at the end of the lower half, so that bit is one of the indexes
    have hend : (base + first) % 32 = 31 := by omega
    rcases hreturnable.upper first hfirst with hset | ⟨rfl, -⟩
    · have hlast : lowBit (base + first) = lastLow first := by unfold lowBit lastLow; omega
      have hbit := hclear _ (hreturnable.returned first hfirst)
      rw [hlast, hset] at hbit
      cases hbit
    · omega
  · intro i hi
    have hword := hreturnable.sameWord hi
    have hiLow := hreturnable.low i hi
    by_cases hhalf : (base + i) % 64 < 32
    · right
      have hsame : lowBit (base + i) = base + i := by unfold lowBit; omega
      refine ⟨base + i, hsame ▸ hreturnable.returned i hi, ?_⟩
      exact (reaches_low hhalf).mpr hsame
    · rcases hreturnable.upper i hi with hset | ⟨-, hmem⟩
      · left
        rwa [huniform (base + i) (lastLow i) (by unfold lastLow; omega) (by omega)
          (by unfold lastLow; omega)]
      · right
        refine ⟨lastLow i, hmem, ?_⟩
        unfold Reaches lastLow
        omega
  · intro i hi other hreaches _
    obtain ⟨k, hk, hsame⟩ := hreturnable.surjective hi
    have hiLow := hreturnable.low i hi
    refine ⟨k, hk, (reaches_congr_left ?_).mp hreaches⟩
    rw [hsame]
    unfold lowBit
    omega

end Returnable

/-- Clear indexes in the lower halves that are taken back are returnable. -/
theorem TakenBack.returnable (huniform : Uniform words) (hbase : 0 < base)
    (hsorted : indexes.Pairwise (· < ·)) (hlow : ∀ i ∈ indexes, i % 64 < 32)
    (hclear : ∀ i ∈ indexes, getIndex words i = false) (hback : TakenBack words base indexes) :
    Returnable words base indexes := by
  obtain ⟨hapart, hset, hkept, hcovered⟩ := takenBack_iff.mp hback
  have hreaches : ∀ i ∈ indexes, ∃ k ∈ indexes, lowBit (base + k) = i := by
    intro i hi
    have hself : Reaches i i := ⟨rfl, .inl (by have := hlow i hi; omega)⟩
    obtain ⟨k, hk, hreached⟩ := hcovered i hi i hself (hclear i hi)
    exact ⟨k, hk, (reaches_low (hlow i hi)).mp hreached⟩
  -- that many indexes at a distance have no room for others
  have hreturned : ∀ i ∈ indexes, lowBit (base + i) ∈ indexes := by
    have hsubset : indexes.toFinset ⊆ indexes.toFinset.image fun i => lowBit (base + i) := by
      intro i hi
      obtain ⟨k, hk, hsame⟩ := hreaches i (List.mem_toFinset.mp hi)
      exact Finset.mem_image.mpr ⟨k, List.mem_toFinset.mpr hk, hsame⟩
    have himage := Finset.eq_of_subset_of_card_le hsubset Finset.card_image_le
    intro i hi
    rw [← List.mem_toFinset, himage]
    exact Finset.mem_image_of_mem _ (List.mem_toFinset.mpr hi)
  have hword : ∀ i ∈ indexes, (base + i) / 64 = i / 64 := by
    intro i hi
    exact @same_word base indexes.toFinset (fun k hk => hlow k (List.mem_toFinset.mp hk))
      (fun k hk => List.mem_toFinset.mpr (hreturned k (List.mem_toFinset.mp hk))) i
      (List.mem_toFinset.mpr hi)
  refine ⟨hlow, hreturned, fun i hi => ?_⟩
  by_cases hlast : lastLow i ∈ indexes
  · -- what reaches the end of the lower half comes from the upper one, or from an earlier index
    right
    refine ⟨?_, hlast⟩
    have hlastWord := hword _ hlast
    obtain ⟨k, hk, hsame⟩ := hreaches _ hlast
    have hkLow := hlow k hk
    have hkWord := hword k hk
    by_contra hne
    unfold lastLow at hlastWord
    unfold lowBit lastLow at hsame
    have hbefore : base + k = lastLow i := by unfold lastLow; omega
    refine rel_of_lt hsorted hapart hk hlast (by omega) ?_
    unfold Reaches
    unfold lastLow at hbefore ⊢
    omega
  · left
    -- the last index of the word goes to the upper half, which is set then
    have hsome : (indexes.toFinset.filter fun k => k / 64 = i / 64).Nonempty :=
      ⟨i, Finset.mem_filter.mpr ⟨List.mem_toFinset.mpr hi, rfl⟩⟩
    obtain ⟨k, hk, hgreatest⟩ := Finset.exists_max_image _ id hsome
    rw [Finset.mem_filter, List.mem_toFinset] at hk
    have hkWord := hword k hk.1
    have hhalf : ¬(base + k) % 64 < 32 := by
      intro hhalf
      have hsame : lowBit (base + k) = base + k := by unfold lowBit; omega
      have hmem := hreturned k hk.1
      rw [hsame] at hmem
      have hle := hgreatest (base + k)
        (Finset.mem_filter.mpr ⟨List.mem_toFinset.mpr hmem, hkWord.trans hk.2⟩)
      simp only [id] at hle
      omega
    have hupper : getIndex words (base + k) = getIndex words (lastLow i) :=
      huniform _ _ (by unfold lastLow; omega) (by omega) (by unfold lastLow; omega)
    rcases hset k hk.1 with hbit | ⟨other, hother, hreached⟩
    · rwa [← hupper]
    · have hotherLow := hlow other hother
      unfold Reaches at hreached
      have hsame : other = lastLow i := by unfold lastLow; omega
      exact absurd (hsame ▸ hother) hlast

end PKernel.Bitmap
