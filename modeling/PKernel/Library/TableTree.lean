import Mathlib.Data.List.Induction
import Mathlib.Data.Set.Insert
import Mathlib.Logic.Function.Basic

/-! # Trees of tables in one pool

A pool of tables, each an array of slots that are empty or name another table.
Descending from a root along a list of indexes ends in a table or at an empty
slot. The tables under a set of roots form a forest of bounded depth when no
table is met twice, by two paths or from two roots.
-/

namespace Library.TableTree

variable {Table Index : Type*}

section Descend

variable (child : Table → Index → Option Table)

/-- Follow the slots along `path`. -/
def descend : Table → List Index → Option Table
  | table, [] => some table
  | table, index :: path => (child table index).bind (descend · path)

variable {child}

theorem descend_append (table : Table) (path more : List Index) :
    descend child table (path ++ more) =
      (descend child table path).bind (descend child · more) := by
  induction path generalizing table with
  | nil => rfl
  | cons first path ih => simp only [List.cons_append, descend, ih, Option.bind_assoc]

theorem descend_concat (table : Table) (path : List Index) (index : Index) :
    descend child table (path ++ [index]) =
      (descend child table path).bind (child · index) := by
  induction path generalizing table with
  | nil =>
      change (child table index).bind some = child table index
      cases child table index <;> rfl
  | cons first path ih =>
      simp only [List.cons_append, descend, ih, Option.bind_assoc]

/-- The tables on the way are in the tree. -/
theorem descend_concat_eq_some {table found : Table} {path : List Index} {index : Index} :
    descend child table (path ++ [index]) = some found ↔
      ∃ parent, descend child table path = some parent ∧ child parent index = some found := by
  rw [descend_concat, Option.bind_eq_some_iff]

end Descend

variable {child other : Table → Index → Option Table} {roots : Set Table} {depth : Nat}

/-- No table is met twice within `depth` steps from the roots. -/
def Forest (child : Table → Index → Option Table) (roots : Set Table) (depth : Nat) : Prop :=
  ∀ root ∈ roots, ∀ root' ∈ roots, ∀ path path' table, path.length ≤ depth → path'.length ≤ depth →
    descend child root path = some table → descend child root' path' = some table →
      root = root' ∧ path = path'

/-- Descents agree when the slots of the inner tables do. -/
theorem descend_congr
    (hagree : ∀ root ∈ roots, ∀ path table, path.length < depth →
      descend child root path = some table → other table = child table)
    {root : Table} (hroot : root ∈ roots) {path : List Index} (hpath : path.length ≤ depth) :
    descend other root path = descend child root path := by
  induction path using List.reverseRecOn with
  | nil => rfl
  | append_singleton path index ih =>
      rw [List.length_append, List.length_singleton] at hpath
      rw [descend_concat, descend_concat, ih (by omega)]
      cases htable : descend child root path with
      | none => rfl
      | some table =>
          rw [Option.bind_some, Option.bind_some, hagree root hroot path table (by omega) htable]

/-- A table outside the tree becomes a new root. -/
theorem Forest.insert_root (hforest : Forest child roots depth) {fresh : Table}
    (hfresh : ∀ root ∈ roots, ∀ path, path.length ≤ depth →
      descend child root path ≠ some fresh)
    (hempty : ∀ index, child fresh index = none) : Forest child (insert fresh roots) depth := by
  have hfreshPath : ∀ path table, descend child fresh path = some table →
      path = [] ∧ table = fresh := by
    intro path table hpath
    cases path with
    | nil => exact ⟨rfl, (Option.some.inj hpath).symm⟩
    | cons index path => simp [descend, hempty] at hpath
  intro root hroot root' hroot' path path' table hlength hlength' hpath hpath'
  rcases hroot with rfl | hroot <;> rcases hroot' with rfl | hroot'
  · exact ⟨rfl, (hfreshPath _ _ hpath).1.trans (hfreshPath _ _ hpath').1.symm⟩
  · rw [(hfreshPath _ _ hpath).2] at hpath'
    exact absurd hpath' (hfresh root' hroot' path' hlength')
  · rw [(hfreshPath _ _ hpath').2] at hpath
    exact absurd hpath (hfresh root hroot path hlength)
  · exact hforest root hroot root' hroot' path path' table hlength hlength' hpath hpath'

section Attach

variable [DecidableEq Table] [DecidableEq Index] {root : Table} {path : List Index}
  {parent fresh : Table} {index : Index}

/-- Fill an empty slot with a fresh empty table: one new path, all others as before. -/
theorem descend_attach (hforest : Forest child roots depth) (hroot : root ∈ roots)
    (hparent : descend child root path = some parent) (hpath : path.length < depth)
    (hslot : child parent index = none)
    (hfresh : ∀ root ∈ roots, ∀ path, path.length ≤ depth →
      descend child root path ≠ some fresh)
    (hnew : other parent index = some fresh) (hempty : ∀ index, other fresh index = none)
    (hkeep : ∀ table slot, table ≠ fresh → (table ≠ parent ∨ slot ≠ index) →
      other table slot = child table slot)
    {root' : Table} (hroot' : root' ∈ roots) {path' : List Index} (hpath' : path'.length ≤ depth) :
    descend other root' path' =
      if root' = root ∧ path' = path ++ [index] then some fresh
      else descend child root' path' := by
  induction path' using List.reverseRecOn with
  | nil =>
      rw [if_neg]
      · rfl
      · rintro ⟨-, hnil⟩
        simp at hnil
  | append_singleton path' slot ih =>
      rw [List.length_append, List.length_singleton] at hpath'
      rw [descend_concat, ih (by omega), descend_concat]
      by_cases hhere : root' = root ∧ path' = path ++ [index]
      · -- Below the new table there is nothing, as there was below the empty slot.
        rw [if_pos hhere, Option.bind_some, hempty, if_neg]
        · rw [hhere.1, hhere.2, descend_concat, hparent, Option.bind_some, hslot]
          rfl
        · rintro ⟨-, hlonger⟩
          have hpaths := (List.append_inj' hlonger rfl).1
          have := congrArg List.length (hhere.2.symm.trans hpaths)
          simp at this
      · rw [if_neg hhere]
        cases htable : descend child root' path' with
        | none =>
            rw [if_neg]
            · rfl
            · rintro ⟨rfl, hsame⟩
              rw [(List.append_inj' hsame rfl).1, hparent] at htable
              cases htable
        | some table =>
            have hneFresh : table ≠ fresh := by
              rintro rfl
              exact hfresh root' hroot' path' (by omega) htable
            rw [Option.bind_some, Option.bind_some]
            by_cases htarget : table = parent ∧ slot = index
            · obtain ⟨rfl, rfl⟩ := htarget
              obtain ⟨rfl, rfl⟩ := hforest root' hroot' root hroot path' path table (by omega)
                (by omega) htable hparent
              rw [if_pos ⟨rfl, rfl⟩, hnew]
            · rw [hkeep table slot hneFresh (not_and_or.mp htarget), if_neg]
              rintro ⟨rfl, hsame⟩
              obtain ⟨rfl, hslots⟩ := List.append_inj' hsame rfl
              rw [hparent] at htable
              exact htarget ⟨(Option.some.inj htable).symm, List.singleton_inj.mp hslots⟩

theorem Forest.attach (hforest : Forest child roots depth)
    (hfresh : ∀ root ∈ roots, ∀ path, path.length ≤ depth →
      descend child root path ≠ some fresh)
    (hdescend : ∀ root' ∈ roots, ∀ path', path'.length ≤ depth → descend other root' path' =
      if root' = root ∧ path' = path ++ [index] then some fresh
      else descend child root' path') : Forest other roots depth := by
  intro root₁ hroot₁ root₂ hroot₂ path₁ path₂ table hlength₁ hlength₂ hpath₁ hpath₂
  rw [hdescend root₁ hroot₁ path₁ hlength₁] at hpath₁
  rw [hdescend root₂ hroot₂ path₂ hlength₂] at hpath₂
  split at hpath₁ <;> split at hpath₂
  · next h₁ h₂ => exact ⟨h₁.1.trans h₂.1.symm, h₁.2.trans h₂.2.symm⟩
  · rw [← Option.some.inj hpath₁] at hpath₂
    exact absurd hpath₂ (hfresh root₂ hroot₂ path₂ hlength₂)
  · rw [← Option.some.inj hpath₂] at hpath₁
    exact absurd hpath₁ (hfresh root₁ hroot₁ path₁ hlength₁)
  · exact hforest root₁ hroot₁ root₂ hroot₂ path₁ path₂ table hlength₁ hlength₂ hpath₁ hpath₂

end Attach

end Library.TableTree
