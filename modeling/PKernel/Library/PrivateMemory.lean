import PKernel.Library.Refinement
import Mathlib.Logic.Function.Basic

/-! # Memories without sharing

Owners come and go, and each has a memory of its own: a byte at some addresses, and whether it may
be written. Copying a memory copies every byte, a store is seen by one owner only, and where an
owner may not write it changes nothing. This is what a machine that shares memory behind the scenes
is to look like.
-/

namespace Library.PrivateMemory

/-- A byte, and whether its owner may write it. -/
structure Cell (Byte : Type*) where
  byte : Byte
  writable : Bool
deriving DecidableEq

/-- What each owner has at each address. -/
abbrev Memories (Owner Address Byte : Type*) := Owner → Option (Address → Option (Cell Byte))

inductive Action (Owner Address Byte : Type*)
  | create (owner : Owner)
  /-- The owner gets what it is given at these addresses, and keeps what it has at others. -/
  | extend (owner : Owner) (given : Address → Option (Cell Byte))
  | copy (source target : Owner)
  | store (owner : Owner) (address : Address) (byte : Byte)
  | discard (owner : Owner)
  /-- Something that is no owner's business. -/
  | silent

variable {Owner Address Byte : Type*} [DecidableEq Owner] [DecidableEq Address]

/-- A store into one memory. -/
def storeCell (memory : Address → Option (Cell Byte)) (address : Address) (byte : Byte) :
    Address → Option (Cell Byte) := fun other =>
  if other = address then
    (memory other).map fun cell => if cell.writable then { cell with byte } else cell
  else memory other

def apply (memories : Memories Owner Address Byte) :
    Action Owner Address Byte → Memories Owner Address Byte
  | .create owner => Function.update memories owner (some fun _ => none)
  | .extend owner given => Function.update memories owner
      ((memories owner).map fun memory address => (given address).or (memory address))
  | .copy source target => Function.update memories target (memories source)
  | .store owner address byte => Function.update memories owner
      ((memories owner).map fun memory => storeCell memory address byte)
  | .discard owner => Function.update memories owner none
  | .silent => memories

/-- A store where nothing may be written changes nothing. -/
theorem apply_store_of_readOnly {memories : Memories Owner Address Byte} {owner : Owner}
    {address : Address} {byte : Byte}
    (hreadOnly : ∀ memory cell, memories owner = some memory → memory address = some cell →
      cell.writable = false) : apply memories (.store owner address byte) = memories := by
  refine (Function.eq_update_iff.mpr ⟨?_, fun _ _ => rfl⟩).symm
  cases hmemory : memories owner with
  | none => rfl
  | some memory =>
      rw [Option.map_some]
      congr 1
      funext other
      by_cases heq : other = address
      · subst heq
        cases hcell : memory other with
        | none => simp [storeCell, hcell]
        | some cell => simp [storeCell, hcell, hreadOnly memory cell hmemory hcell]
      · simp [storeCell, heq]

end Library.PrivateMemory
