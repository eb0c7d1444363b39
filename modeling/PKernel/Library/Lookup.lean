import Mathlib.Logic.Function.Basic

/-! # Looking up in a store

Names with the values that are stored under some of them, as a partial function.
What a lookup finds after a value was stored or removed, and what a store keeps when
a value is replaced by one that is related to it.
-/

namespace Library.Lookup

open Function (update update_of_ne update_self)

variable {κ ν : Type*} [DecidableEq κ] {store : κ → Option ν} {name other : κ} {value found : ν}

/-- Under its name the new value is found, under others what was there. -/
theorem update_some_eq_some : update store name (some value) other = some found ↔
    (other = name ∧ found = value) ∨ (other ≠ name ∧ store other = some found) := by
  by_cases heq : other = name
  · subst heq
    rw [update_self, Option.some.injEq]
    simp [eq_comm]
  · rw [update_of_ne heq]
    simp [heq]

/-- Nothing is found under a name that was removed. -/
theorem update_none_eq_some : update store name none other = some found ↔
    other ≠ name ∧ store other = some found := by
  by_cases heq : other = name
  · subst heq
    simp
  · rw [update_of_ne heq]
    simp [heq]

/-- A value under a new name hides none. -/
theorem update_of_fresh (hfresh : store name = none) (hfound : store other = some found) :
    update store name (some value) other = some found := by
  refine update_some_eq_some.mpr (.inr ⟨?_, hfound⟩)
  rintro rfl
  simp [hfresh] at hfound

section Related

variable {related : ν → ν → Prop} {before : ν}

/-- Every value stays, or is replaced by one that is related to it. -/
theorem exists_of_update (hrefl : ∀ value, related value value) (hbefore : store name = some before)
    (hrelated : related before value) (hfound : store other = some found) :
    ∃ kept, update store name (some value) other = some kept ∧ related found kept := by
  by_cases heq : other = name
  · subst heq
    obtain rfl : before = found := Option.some.inj (hbefore.symm.trans hfound)
    exact ⟨value, update_self .., hrelated⟩
  · exact ⟨found, by rw [update_of_ne heq, hfound], hrefl found⟩

end Related

end Library.Lookup
