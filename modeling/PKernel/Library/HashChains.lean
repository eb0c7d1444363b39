import Mathlib.Data.Fintype.Basic
import Mathlib.Data.List.FinRange
import Mathlib.Data.List.Nodup
import Mathlib.Data.Set.Insert

/-! # Chained hash tables for sets

A set of keys is kept in chains, each key in the chain of its hash. A key is looked for in its own
chain only, but taken out of the first of all chains that has it. The two agree as long as no chain
has a key of another, or one key twice.
-/

namespace Library.HashChains

open Function (update update_of_ne update_self)

variable {Key : Type*} {count : Nat}

/-- The chains, from their heads on. -/
abbrev Chains (Key : Type*) (count : Nat) := Fin count → List Key

/-- The keys that are found in their own chains. -/
def elements (hash : Key → Fin count) (chains : Chains Key count) : Set Key :=
  {key | key ∈ chains (hash key)}

/-- Every key is in its own chain, and once. -/
structure Placed (hash : Key → Fin count) (chains : Chains Key count) : Prop where
  nodup : ∀ place, (chains place).Nodup
  own : ∀ place, ∀ key ∈ chains place, hash key = place

/-- A new head of the chain of a key. -/
def push (hash : Key → Fin count) (chains : Chains Key count) (key : Key) : Chains Key count :=
  update chains (hash key) (key :: chains (hash key))

section Push

variable {hash : Key → Fin count} {chains : Chains Key count} {key other : Key}

/-- A key that is not there is put among the others, wherever these are. -/
theorem mem_elements_push : other ∈ elements hash (push hash chains key) ↔
    other = key ∨ other ∈ elements hash chains := by
  unfold elements push
  by_cases hhash : hash other = hash key
  · simp [hhash]
  · have hne : other ≠ key := fun heq => hhash (heq ▸ rfl)
    simp [hhash, hne]

theorem Placed.push (hplaced : Placed hash chains) (hkey : key ∉ elements hash chains) :
    Placed hash (push hash chains key) := by
  unfold HashChains.push
  refine ⟨fun place => ?_, fun place other hother => ?_⟩
  · by_cases hplace : place = hash key
    · rw [hplace, update_self]
      exact List.nodup_cons.mpr ⟨hkey, hplaced.nodup _⟩
    · rw [update_of_ne hplace]
      exact hplaced.nodup place
  · by_cases hplace : place = hash key
    · rw [hplace, update_self] at hother
      rcases List.mem_cons.mp hother with rfl | hother
      · exact hplace.symm
      · exact (hplaced.own _ other hother).trans hplace.symm
    · rw [update_of_ne hplace] at hother
      exact hplaced.own place other hother

end Push

variable [DecidableEq Key]

def contains (hash : Key → Fin count) (chains : Chains Key count) (key : Key) : Bool :=
  (chains (hash key)).any fun other => other == key

/-- A walk along a chain that takes the first node with the key out. -/
def unlink (key : Key) : List Key → Option (List Key)
  | [] => none
  | other :: rest => if other = key then some rest else (unlink key rest).map (other :: ·)

/-- Walks along all chains, up to the first that has the key. -/
def unlinkAny (chains : Chains Key count) (key : Key) : Option (Chains Key count) :=
  (List.finRange count).findSome? fun place =>
    (unlink key (chains place)).map (update chains place)

section Unlink

variable {hash : Key → Fin count} {chains : Chains Key count} {key other : Key} {chain : List Key}

@[simp]
theorem contains_iff : contains hash chains key = true ↔ key ∈ elements hash chains := by
  simp [contains, elements]

theorem unlink_eq : unlink key chain = if key ∈ chain then some (chain.erase key) else none := by
  induction chain with
  | nil => rfl
  | cons head rest ih =>
      by_cases hhead : head = key
      · simp [unlink, hhead]
      · have hne : key ≠ head := fun heq => hhead heq.symm
        rw [unlink, if_neg hhead, ih]
        by_cases hmem : key ∈ rest
        · simp [hmem, hne, hhead]
        · simp [hmem, hne]

/-- A key is taken out of its own chain. -/
theorem unlinkAny_of_mem (hplaced : Placed hash chains) (hkey : key ∈ elements hash chains) :
    unlinkAny chains key =
      some (update chains (hash key) ((chains (hash key)).erase key)) := by
  have hmem : key ∈ chains (hash key) := hkey
  have hstep : ∀ place, ((unlink key (chains place)).map (update chains place)) =
      if place = hash key then
        some (update chains (hash key) ((chains (hash key)).erase key)) else none := by
    intro place
    by_cases hplace : place = hash key
    · subst hplace
      rw [unlink_eq, if_pos hmem, if_pos rfl, Option.map_some]
    · have habsent : key ∉ chains place := fun hin => hplace (hplaced.own place key hin).symm
      rw [unlink_eq, if_neg habsent, if_neg hplace, Option.map_none]
  unfold unlinkAny
  simp only [hstep]
  cases hfound : (List.finRange count).findSome? fun place => if place = hash key then
      some (update chains (hash key) ((chains (hash key)).erase key)) else none with
  | none => simpa using List.findSome?_eq_none_iff.mp hfound (hash key) (List.mem_finRange _)
  | some after =>
      obtain ⟨place, -, hplace⟩ := List.exists_of_findSome?_eq_some hfound
      split at hplace
      next => exact hplace.symm
      next => cases hplace

theorem unlinkAny_of_not_mem (hplaced : Placed hash chains) (hkey : key ∉ elements hash chains) :
    unlinkAny chains key = none := by
  refine List.findSome?_eq_none_iff.mpr fun place _ => ?_
  have hmem : key ∉ chains place := by
    intro hmem
    obtain rfl := hplaced.own place key hmem
    exact hkey hmem
  rw [unlink_eq, if_neg hmem, Option.map_none]

theorem Placed.erase (hplaced : Placed hash chains) (key : Key) :
    Placed hash (update chains (hash key) ((chains (hash key)).erase key)) := by
  refine ⟨fun place => ?_, fun place other hother => ?_⟩
  · by_cases hplace : place = hash key
    · rw [hplace, update_self]
      exact (hplaced.nodup _).erase key
    · rw [update_of_ne hplace]
      exact hplaced.nodup place
  · by_cases hplace : place = hash key
    · rw [hplace, update_self] at hother
      exact (hplaced.own _ other (List.mem_of_mem_erase hother)).trans hplace.symm
    · rw [update_of_ne hplace] at hother
      exact hplaced.own place other hother

theorem mem_elements_erase (hplaced : Placed hash chains) :
    other ∈ elements hash (update chains (hash key) ((chains (hash key)).erase key)) ↔
      other ≠ key ∧ other ∈ elements hash chains := by
  unfold elements
  by_cases hhash : hash other = hash key
  · simp [hhash, (hplaced.nodup (hash key)).mem_erase_iff]
  · have hne : other ≠ key := fun heq => hhash (heq ▸ rfl)
    simp [hhash, hne]

end Unlink

end Library.HashChains
