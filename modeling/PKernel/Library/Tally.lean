import Mathlib.Algebra.BigOperators.Group.Finset.Piecewise
import Mathlib.Algebra.GroupWithZero.Nat

/-! # Tallies

How often a partial function on an initial segment of the numbers takes a
value, and how changing it in one place or extending the segment changes that.
The same for the weights of the elements of a list.
-/

namespace Library.Tally

variable {α : Type*} [DecidableEq α] {f g : Nat → Option α} {n i : Nat} {a : α}

/-- The number of indices below `n` at which `f` has the value `a`. -/
def tally (f : Nat → Option α) (n : Nat) (a : α) : Nat :=
  ((Finset.range n).filter fun i => f i = some a).card

theorem tally_eq_sum : tally f n a = ∑ i ∈ Finset.range n, if f i = some a then 1 else 0 :=
  Finset.card_filter _ _

theorem tally_succ : tally f (n + 1) a = tally f n a + if f n = some a then 1 else 0 := by
  rw [tally_eq_sum, Finset.sum_range_succ, ← tally_eq_sum]

theorem tally_congr (hagree : ∀ i < n, f i = g i) : tally f n a = tally g n a := by
  rw [tally_eq_sum, tally_eq_sum]
  apply Finset.sum_congr rfl
  intro i hi
  rw [hagree i (Finset.mem_range.mp hi)]

theorem tally_eq_zero_iff : tally f n a = 0 ↔ ∀ i < n, f i ≠ some a := by
  simp [tally, Finset.filter_eq_empty_iff]

theorem one_lt_tally {j : Nat} (hne : i ≠ j) (hi : i < n) (hj : j < n) (hfirst : f i = some a)
    (hsecond : f j = some a) : 1 < tally f n a := by
  apply Finset.one_lt_card.mpr
  exact ⟨i, by simp [hi, hfirst], j, by simp [hj, hsecond], hne⟩

/-- Where a longer segment has no values behind the shorter one, the tally is the same. -/
theorem tally_extend {m : Nat} (hle : n ≤ m) (hnone : ∀ i, n ≤ i → f i = none) :
    tally f m a = tally f n a := by
  induction m, hle using Nat.le_induction with
  | base => rfl
  | succ m hle ih => simp [tally_succ, ih, hnone m hle]

/-- A value that goes away at one place and comes up nowhere else. -/
theorem tally_lt (hkept : ∀ i < n, g i = some a → f i = some a) (hi : i < n)
    (hvalue : f i = some a) (hgone : g i ≠ some a) : tally g n a < tally f n a := by
  apply Finset.card_lt_card
  apply Finset.ssubset_iff_subset_ne.mpr
  constructor
  · intro j hj
    simp only [Finset.mem_filter, Finset.mem_range] at hj ⊢
    exact ⟨hj.1, hkept j hj.1 hj.2⟩
  · intro heq
    have hmem : i ∈ (Finset.range n).filter fun j => f j = some a := by simp [hi, hvalue]
    rw [← heq] at hmem
    simp [hgone] at hmem

/-- A change in one place, with both sides of the balance. -/
theorem tally_update (hi : i < n) (value : Option α) :
    tally (Function.update f i value) n a + (if f i = some a then 1 else 0) =
      tally f n a + if value = some a then 1 else 0 := by
  have hmem : i ∈ Finset.range n := Finset.mem_range.mpr hi
  have hrest : ∑ j ∈ (Finset.range n).erase i,
      (if Function.update f i value j = some a then 1 else 0) =
      ∑ j ∈ (Finset.range n).erase i, if f j = some a then 1 else 0 := by
    apply Finset.sum_congr rfl
    intro j hj
    rw [Function.update_of_ne (Finset.ne_of_mem_erase hj)]
  rw [tally_eq_sum, tally_eq_sum, ← Finset.sum_erase_add _ _ hmem, hrest,
    ← Finset.sum_erase_add _ (fun j => if f j = some a then 1 else 0) hmem,
    Function.update_self]
  exact Nat.add_right_comm _ _ _

/-- A list of different indices holds no more of them than there are. -/
theorem countP_le_tally {l : List Nat} (hnodup : l.Nodup) (hlt : ∀ i ∈ l, i < n) :
    (l.countP fun i => f i = some a) ≤ tally f n a := by
  rw [List.countP_eq_length_filter, ← List.toFinset_card_of_nodup (hnodup.filter _)]
  apply Finset.card_le_card
  intro i hi
  obtain ⟨hmem, hvalue⟩ := List.mem_filter.mp (List.mem_toFinset.mp hi)
  exact Finset.mem_filter.mpr ⟨Finset.mem_range.mpr (hlt i hmem), of_decide_eq_true hvalue⟩

/-- A change of one element of a list, with both sides of the balance of its sum. -/
theorem sum_map_set {β : Type*} (weight : β → Nat) {l : List β} {old new : β} (hold : l[i]? = some old) :
    ((l.set i new).map weight).sum + weight old = (l.map weight).sum + weight new := by
  induction l generalizing i with
  | nil => simp at hold
  | cons head rest ih =>
      cases i with
      | zero =>
          obtain rfl : head = old := by simpa using hold
          simp only [List.set_cons_zero, List.map_cons, List.sum_cons]
          omega
      | succ i =>
          have hrest := ih (by simpa using hold)
          simp only [List.set_cons_succ, List.map_cons, List.sum_cons]
          omega

end Library.Tally
