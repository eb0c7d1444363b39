import Mathlib.Data.List.GetD
import Mathlib.Order.Lattice

/-! # Sparse byte arrays

The contents of a file: a length, and a byte at every place, which is 0 from the length on.
Writing behind the end therefore leaves zeros between the old end and the new bytes.
-/

namespace Library

/-- The bytes of a file. -/
structure SparseBytes where
  length : Nat
  byte : Nat → UInt8
  blank : ∀ place, length ≤ place → byte place = 0

namespace SparseBytes

/-- A file without bytes. -/
def empty : SparseBytes := ⟨0, fun _ => 0, fun _ _ => rfl⟩

/-- The bytes of some places of a file. -/
def read (bytes : SparseBytes) (offset size : Nat) : List UInt8 :=
  (List.range' offset (min (offset + size) bytes.length - offset)).map bytes.byte

/-- The file with some bytes put at an offset. -/
def write (bytes : SparseBytes) (offset : Nat) (data : List UInt8) : SparseBytes where
  length := max bytes.length (offset + data.length)
  byte place := if offset ≤ place then data.getD (place - offset) (bytes.byte place)
    else bytes.byte place
  blank place hplace := by
    rw [List.getD_eq_default _ _ (by omega), bytes.blank place (by omega), ite_self]

variable {bytes other : SparseBytes} {offset size place : Nat} {data : List UInt8}

/-- Two files are the same if they have the same bytes up to their common length. -/
theorem ext_of_lt (hlength : bytes.length = other.length)
    (hbyte : ∀ place < bytes.length, bytes.byte place = other.byte place) : bytes = other := by
  have hall : bytes.byte = other.byte := by
    funext place
    by_cases hplace : place < bytes.length
    · exact hbyte place hplace
    · rw [bytes.blank place (by omega), other.blank place (by omega)]
  cases bytes
  cases other
  cases hlength
  cases hall
  rfl

@[simp]
theorem length_write : (bytes.write offset data).length = max bytes.length (offset + data.length) :=
  rfl

theorem byte_write_inside {index : Nat} (hindex : index < data.length) :
    (bytes.write offset data).byte (offset + index) = data[index] := by
  simp only [write]
  rw [if_pos (Nat.le_add_right offset index), Nat.add_sub_cancel_left,
    List.getD_eq_getElem _ _ hindex]

theorem byte_write_outside (hplace : place < offset ∨ offset + data.length ≤ place) :
    (bytes.write offset data).byte place = bytes.byte place := by
  simp only [write]
  by_cases hbefore : offset ≤ place
  · rw [if_pos hbefore, List.getD_eq_default _ _ (by omega)]
  · rw [if_neg hbefore]

/-- What a write does to a file: the length, the bytes written, the gap in front of them when
they are behind the old end, and the other bytes. -/
structure Written (bytes other : SparseBytes) (offset : Nat) (data : List UInt8) : Prop where
  length : other.length = max bytes.length (offset + data.length)
  inside : ∀ index (hindex : index < data.length), other.byte (offset + index) = data[index]
  gap : ∀ place, bytes.length ≤ place → place < offset → other.byte place = 0
  kept : ∀ place < bytes.length, place < offset ∨ offset + data.length ≤ place →
    other.byte place = bytes.byte place

theorem written (bytes : SparseBytes) (offset : Nat) (data : List UInt8) :
    Written bytes (bytes.write offset data) offset data where
  length := length_write
  inside _ hindex := byte_write_inside hindex
  gap place hlower hupper := by
    rw [byte_write_outside (.inl hupper), bytes.blank place hlower]
  kept _ _ hplace := byte_write_outside hplace

end SparseBytes

end Library
