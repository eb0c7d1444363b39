import PKernel.Library.HashChains
import PKernel.Machine

/-! # The arbitrator of I/O ports

`arbitrator.c`: the reserved ports are nodes of 256 lists, by their lowest byte. A port is looked
for in its own list, and released from the first list that has it.
-/

namespace PKernel.Io

open Library.HashChains

/-- `port_t`. -/
abbrev Port := UInt16

/-- `IO_ARBITRATOR_BUCKET_COUNT`. -/
def bucketCount : Nat := 0x100

/-- `IO_ARBITRATOR_HASH`. -/
def hash (port : Port) : Fin bucketCount := ⟨port.toNat % bucketCount, Nat.mod_lt _ (by decide)⟩

/-- `io_arbitrator_buckets`. -/
abbrev Arbitrator := Chains Port bucketCount

/-- `io_arbitrator_init`. -/
def ioArbitratorInit : Arbitrator := fun _ => []

/-- `io_arbitrator_test_reserved`. -/
def ioArbitratorTestReserved (arbitrator : Arbitrator) (port : Port) : Bool :=
  contains hash arbitrator port

/-- `io_arbitrator_reserve`. -/
def ioArbitratorReserve (arbitrator : Arbitrator) (port : Port) : Bool × Arbitrator :=
  if ioArbitratorTestReserved arbitrator port then (false, arbitrator)
  else (true, push hash arbitrator port)

/-- `io_arbitrator_release`. -/
def ioArbitratorRelease (arbitrator : Arbitrator) (port : Port) : Bool × Arbitrator :=
  match unlinkAny arbitrator port with
  | none => (false, arbitrator)
  | some arbitrator => (true, arbitrator)

inductive Call where
  | reserve (port : Port)
  | release (port : Port)
  | testReserved (port : Port)
deriving DecidableEq, Repr

namespace Call

/-- The port that a call is about. -/
def port : Call → Port
  | reserve port => port
  | release port => port
  | testReserved port => port

/-- What a call returns, and the arbitrator after it. -/
def perform (arbitrator : Arbitrator) : Call → Bool × Arbitrator
  | reserve port => ioArbitratorReserve arbitrator port
  | release port => ioArbitratorRelease arbitrator port
  | testReserved port => (ioArbitratorTestReserved arbitrator port, arbitrator)

end Call

/-- The arbitrator after calls. -/
def after (calls : List Call) : Arbitrator :=
  calls.foldl (fun arbitrator call => (call.perform arbitrator).2) ioArbitratorInit

/-- A port was reserved and not released since. -/
def Reserved (calls : List Call) (port : Port) : Prop :=
  ∃ earlier later, calls = earlier ++ .reserve port :: later ∧ Call.release port ∉ later

/-! ## Calls -/

section Calls

variable {arbitrator : Arbitrator} {port other : Port}

/-- A port is reserved after a call if it was before, or is the one of the call. -/
theorem testReserved_reserve :
    ioArbitratorTestReserved (ioArbitratorReserve arbitrator port).2 other = true ↔
      other = port ∨ ioArbitratorTestReserved arbitrator other = true := by
  unfold ioArbitratorReserve
  split
  next hreserved =>
    refine ⟨.inr, ?_⟩
    rintro (rfl | hother)
    · exact hreserved
    · exact hother
  next => rw [ioArbitratorTestReserved, contains_iff, mem_elements_push, ioArbitratorTestReserved,
    contains_iff]

/-- A port is released if it is reserved, and then only it. -/
theorem release_spec (hplaced : Placed hash arbitrator) (port : Port) :
    (ioArbitratorRelease arbitrator port).1 = ioArbitratorTestReserved arbitrator port ∧
      Placed hash (ioArbitratorRelease arbitrator port).2 ∧
      ∀ other, ioArbitratorTestReserved (ioArbitratorRelease arbitrator port).2 other = true ↔
        other ≠ port ∧ ioArbitratorTestReserved arbitrator other = true := by
  by_cases hmem : port ∈ elements hash arbitrator
  · have hreserved : ioArbitratorTestReserved arbitrator port = true := contains_iff.mpr hmem
    rw [ioArbitratorRelease, unlinkAny_of_mem hplaced hmem]
    refine ⟨hreserved.symm, hplaced.erase port, fun other => ?_⟩
    rw [ioArbitratorTestReserved, contains_iff, mem_elements_erase hplaced,
      ioArbitratorTestReserved, contains_iff]
  · have hfree : ioArbitratorTestReserved arbitrator port = false := by
      rw [← Bool.not_eq_true, ioArbitratorTestReserved, contains_iff]
      exact hmem
    rw [ioArbitratorRelease, unlinkAny_of_not_mem hplaced hmem]
    refine ⟨hfree.symm, hplaced, fun other => ⟨fun hother => ⟨?_, hother⟩, And.right⟩⟩
    rintro rfl
    rw [hfree] at hother
    cases hother

end Calls

/-! ## Runs -/

section Runs

variable {calls : List Call} {call : Call} {port : Port}

end Runs

end PKernel.Io
