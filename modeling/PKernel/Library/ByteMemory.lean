import Mathlib.Data.Set.Function
import Mathlib.Order.Interval.Set.Basic
import Mathlib.Tactic.Ring

/-! # Byte-addressed memory

Memory is a total function from addresses to bytes. Words are stored little
endian, least significant byte first. A store changes only the addresses it
covers, and a load depends only on the addresses it covers; everything a
client needs about two accesses follows from whether their ranges overlap.
-/

namespace Library.ByteMemory

abbrev Memory := Nat → UInt8

/-- The number held by `count` bytes from `address` on, little endian. -/
def loadLE (memory : Memory) : Nat → Nat → Nat
  | _, 0 => 0
  | address, count + 1 =>
      (memory address).toNat + 256 * loadLE memory (address + 1) count

/-- Write the low `count` bytes of `value` from `address` on, little endian. -/
def storeLE (memory : Memory) (address count value : Nat) : Memory := fun place =>
  if address ≤ place ∧ place < address + count then
    UInt8.ofNat (value / 256 ^ (place - address))
  else memory place

/-- Set `count` bytes from `address` on to `byte`. -/
def fill (memory : Memory) (address count : Nat) (byte : UInt8) : Memory := fun place =>
  if address ≤ place ∧ place < address + count then byte else memory place

/-! ## Loads read only their own range -/

theorem loadLE_congr {memory other : Memory} {address count : Nat}
    (hagree : Set.EqOn memory other (Set.Ico address (address + count))) :
    loadLE memory address count = loadLE other address count := by
  induction count generalizing address with
  | zero => rfl
  | succ count ih =>
      have hhead : memory address = other address :=
        hagree ⟨le_rfl, by omega⟩
      have htail : Set.EqOn memory other (Set.Ico (address + 1) (address + 1 + count)) := by
        intro place hplace
        exact hagree ⟨by have := hplace.1; omega, by have := hplace.2; omega⟩
      simp only [loadLE, hhead, ih htail]

/-- The same bytes at another address make the same number. -/
theorem loadLE_shift {memory other : Memory} {address place count : Nat}
    (hagree : ∀ offset < count, memory (address + offset) = other (place + offset)) :
    loadLE memory address count = loadLE other place count := by
  induction count generalizing address place with
  | zero => rfl
  | succ count ih =>
      have hhead : memory address = other place := hagree 0 (by omega)
      have htail := @ih (address + 1) (place + 1) (by
        intro offset hoffset
        have := hagree (offset + 1) (by omega)
        rwa [Nat.add_right_comm address 1, Nat.add_right_comm place 1])
      simp only [loadLE, hhead, htail]

theorem loadLE_lt (memory : Memory) (address count : Nat) :
    loadLE memory address count < 256 ^ count := by
  induction count generalizing address with
  | zero => simp [loadLE]
  | succ count ih =>
      have hbyte := (memory address).toNat_lt
      have htail := ih (address + 1)
      simp only [loadLE, pow_succ]
      omega

/-! ## Stores and fills change only their own range -/

theorem storeLE_apply_of_outside {memory : Memory} {address count value place : Nat}
    (hout : place < address ∨ address + count ≤ place) :
    storeLE memory address count value place = memory place := by
  unfold storeLE
  rw [if_neg (by omega)]

theorem fill_apply_of_outside {memory : Memory} {address count place : Nat} {byte : UInt8}
    (hout : place < address ∨ address + count ≤ place) :
    fill memory address count byte place = memory place := by
  unfold fill
  rw [if_neg (by omega)]

theorem loadLE_storeLE_of_disjoint {memory : Memory} {address count value place width : Nat}
    (hdisjoint : place + width ≤ address ∨ address + count ≤ place) :
    loadLE (storeLE memory address count value) place width = loadLE memory place width := by
  apply loadLE_congr
  intro byte hbyte
  have hlower := hbyte.1
  have hupper := hbyte.2
  exact storeLE_apply_of_outside (by omega)

/-! ## A load of what was stored -/

/-- The tail of a store is the store of the remaining high bytes. -/
theorem storeLE_succ_eqOn (memory : Memory) (address count value : Nat) :
    Set.EqOn (storeLE memory address (count + 1) value)
      (storeLE memory (address + 1) count (value / 256))
      (Set.Ico (address + 1) (address + 1 + count)) := by
  intro place hplace
  have hlower := hplace.1
  have hupper := hplace.2
  unfold storeLE
  rw [if_pos (by omega), if_pos (by omega), Nat.div_div_eq_div_mul]
  obtain ⟨offset, rfl⟩ := Nat.exists_eq_add_of_le hlower
  rw [show address + 1 + offset - address = offset + 1 by omega,
    show address + 1 + offset - (address + 1) = offset by omega, pow_succ, Nat.mul_comm 256]

theorem loadLE_storeLE_same (memory : Memory) (address count value : Nat) :
    loadLE (storeLE memory address count value) address count = value % 256 ^ count := by
  induction count generalizing address value with
  | zero => simp [loadLE, Nat.mod_one]
  | succ count ih =>
      have hhead : (storeLE memory address (count + 1) value address).toNat = value % 256 := by
        simp [storeLE]
      have htail : loadLE (storeLE memory address (count + 1) value) (address + 1) count =
          value / 256 % 256 ^ count := by
        rw [loadLE_congr (storeLE_succ_eqOn memory address count value), ih]
      rw [loadLE, hhead, htail, pow_succ, Nat.mul_comm (256 ^ count), Nat.mod_mul]

end Library.ByteMemory
