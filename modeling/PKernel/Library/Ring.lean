import Mathlib.Data.List.Basic
import Mathlib.Logic.Function.Basic

/-! # Rings

A stretch of a ring of `capacity` slots, read from `start` onwards, as a queue.
Only the residues of the positions count, so `start` may be any number.
-/

namespace Library.Ring

variable {α : Type*} {slots : Nat → α} {capacity start size : Nat}

/-- The values in the `size` slots from `start` on. -/
def contents (slots : Nat → α) (capacity start size : Nat) : List α :=
  (List.range size).map fun i => slots ((start + i) % capacity)

@[simp]
theorem contents_length : (contents slots capacity start size).length = size := by
  simp [contents]

@[simp]
theorem contents_zero : contents slots capacity start 0 = [] := rfl

/-- Fewer steps than the ring has slots do not lead back to the same slot. -/
theorem slot_ne {i j : Nat} (hij : i < j) (hj : j < capacity) :
    (start + i) % capacity ≠ (start + j) % capacity := by
  intro heq
  have hdvd : capacity ∣ (start + j) - (start + i) :=
    Nat.dvd_of_mod_eq_zero (Nat.sub_mod_eq_zero_of_mod_eq heq.symm)
  have hzero := Nat.eq_zero_of_dvd_of_lt hdvd (by omega)
  omega

/-- A value written behind the stretch becomes its last. -/
theorem contents_push (hroom : size < capacity) (value : α) :
    contents (Function.update slots ((start + size) % capacity) value) capacity start (size + 1) =
      contents slots capacity start size ++ [value] := by
  rw [contents, List.range_succ, List.map_append, List.map_singleton, Function.update_self]
  congr 1
  apply List.map_congr_left
  intro i hi
  rw [Function.update_of_ne (slot_ne (List.mem_range.mp hi) hroom)]

/-- The first value of the stretch, and the stretch after it. -/
theorem contents_pop :
    contents slots capacity start (size + 1) =
      slots (start % capacity) :: contents slots capacity (start + 1) size := by
  rw [contents, List.range_succ_eq_map, List.map_cons, List.map_map, Nat.add_zero]
  congr 1
  apply List.map_congr_left
  intro i _
  simp only [Function.comp_apply]
  congr 2
  omega

/-- Only the residue of the start counts. -/
theorem contents_mod :
    contents slots capacity (start % capacity) size = contents slots capacity start size := by
  simp only [contents, Nat.mod_add_mod]

end Library.Ring
