import Mathlib.Data.List.Basic
import Mathlib.Logic.Function.Basic
import PKernel.Machine

/-! # The disc driver

`disc_pio` moves sectors between a buffer and a drive, with commands that have 28 bits for the
address of the first sector and 8 bits for their number. The offsets and counts of a block device
have 64 bits, and lose most of them on the way to the command.
-/

namespace PKernel.Pio

open Function (update update_of_ne)

/-- `device_drive_t`. -/
inductive DeviceDrive where
  | master
  | slave
deriving DecidableEq, Repr

/-- `ide_device_t`. -/
structure IdeDevice where
  ioPort : Nat
  controlPort : Nat
  drive : DeviceDrive
deriving DecidableEq, Repr

/-- What has been written to the bytes behind an `io_port`. -/
structure Registers where
  sectorCount : Nat
  lbaLow : Nat
  lbaMid : Nat
  lbaHigh : Nat
  driveHead : Nat
deriving DecidableEq, Repr

/-- The sectors of a drive. A transfer of another one, or of a bad one, is an error. -/
structure Drive (σ : Type) where
  sectors : Nat → Option σ
  addressed : ∀ lba, 2 ^ 28 ≤ lba → sectors lba = none

/-- The global variables of the driver, and what is behind the ports. -/
structure Driver (σ : Type) where
  currentIoPort : Nat
  currentControlPort : Nat
  currentDeviceDrive : Option DeviceDrive
  registers : Nat → Registers
  drives : Nat → DeviceDrive → Drive σ

/-- What a call returns, the sectors it has moved with their addresses, and the driver. -/
structure Outcome (σ : Type) where
  value : Nat
  moved : List (Nat × σ)
  driver : Driver σ

variable {σ : Type}

/-! ## Drives -/

namespace Registers

/-- The 28 bits of an address. -/
def lba (registers : Registers) : Nat :=
  (registers.driveHead &&& 0xF) * 2 ^ 24 + registers.lbaHigh * 2 ^ 16 + registers.lbaMid * 2 ^ 8 +
    registers.lbaLow

/-- A count of zero stands for 256. -/
def count (registers : Registers) : Nat :=
  if registers.sectorCount = 0 then 256 else registers.sectorCount

/-- `drive_number`. -/
def drive (registers : Registers) : DeviceDrive :=
  if registers.driveHead.testBit 4 then .slave else .master

end Registers

/-- A sector that the drive takes. -/
def Drive.write (drive : Drive σ) (lba : Nat) (sector : σ) : Option (Drive σ) :=
  if hthere : (drive.sectors lba).isSome then
    some ⟨update drive.sectors lba (some sector), fun other hother => by
      rw [update_of_ne, drive.addressed other hother]
      rintro rfl
      simp [drive.addressed other hother] at hthere⟩
  else none

/-! ## `pio_ops.c` -/

def discSelect (driver : Driver σ) (device : IdeDevice) : Driver σ :=
  if device.ioPort ≠ driver.currentIoPort ∨ device.controlPort ≠ driver.currentControlPort ∨
      some device.drive ≠ driver.currentDeviceDrive then
    { driver with
      registers := update driver.registers device.ioPort
        { driver.registers device.ioPort with
          driveHead := match device.drive with
            | .master => 0xA0
            | .slave => 0xB0 }
      currentIoPort := device.ioPort
      currentControlPort := device.controlPort
      currentDeviceDrive := some device.drive }
  else driver

/-- The writes to the registers before a command. -/
def address28 (driver : Driver σ) (lba sectorCount : Nat) : Registers where
  sectorCount := sectorCount
  lbaLow := (lba >>> 0) &&& 0xFF
  lbaMid := (lba >>> 8) &&& 0xFF
  lbaHigh := (lba >>> 16) &&& 0xFF
  driveHead := match driver.currentDeviceDrive with
    | some .master => 0xE0 ||| ((lba >>> 24) &&& 0xF)
    | some .slave => 0xF0 ||| ((lba >>> 24) &&& 0xF)
    | none => (driver.registers driver.currentIoPort).driveHead

/-- The loop of `disc_read28`, with what is left of the command. A wait for more data than the
command asked for does not end. -/
def readLoop (drive : Drive σ) : Nat → Nat → Nat → Except Fault (List (Nat × σ))
  | 0, _, _ => .ok []
  | _ + 1, _, 0 => .error .nontermination
  | sectorCount + 1, lba, left + 1 =>
      match drive.sectors lba with
      | none => .ok []
      | some sector => do
          let moved ← readLoop drive sectorCount (lba + 1) left
          return (lba, sector) :: moved

def discRead28 (driver : Driver σ) (lba sectorCount : Nat) : Except Fault (Outcome σ) :=
  if 0xFFFFFF < lba then return ⟨0, [], driver⟩
  else do
    let registers := address28 driver lba sectorCount
    let driver := { driver with
      registers := update driver.registers driver.currentIoPort registers }
    let drive := driver.drives driver.currentIoPort registers.drive
    let moved ← readLoop drive sectorCount registers.lba registers.count
    return ⟨moved.length, moved, driver⟩

/-- The loop of `disc_write28`, from an index of the buffer on. -/
def writeLoop (src : Nat → σ) : Drive σ → Nat → Nat → Nat → Nat →
    Except Fault (List (Nat × σ) × Drive σ)
  | drive, 0, _, _, _ => .ok ([], drive)
  | _, _ + 1, _, _, 0 => .error .nontermination
  | drive, sectorCount + 1, index, lba, left + 1 =>
      match drive.write lba (src index) with
      | none => .ok ([], drive)
      | some drive => do
          let (moved, drive) ← writeLoop src drive sectorCount (index + 1) (lba + 1) left
          return ((lba, src index) :: moved, drive)

def discWrite28 (driver : Driver σ) (lba sectorCount : Nat) (src : Nat → σ) :
    Except Fault (Outcome σ) :=
  if 0xFFFFFF < lba then return ⟨0, [], driver⟩
  else do
    let registers := address28 driver lba sectorCount
    let driver := { driver with
      registers := update driver.registers driver.currentIoPort registers }
    let drive := driver.drives driver.currentIoPort registers.drive
    let (moved, drive) ← writeLoop src drive sectorCount 0 registers.lba registers.count
    return ⟨moved.length, moved, { driver with
      drives := update driver.drives driver.currentIoPort
        (update (driver.drives driver.currentIoPort) registers.drive drive) }⟩

/-- `disc_read`, with the parameters of `disc_read28`, which have 32 and 8 bits. -/
def discRead (driver : Driver σ) (lba sectorCount : Nat) : Except Fault (Bool × Outcome σ) := do
  let outcome ← discRead28 driver (lba % 2 ^ 32) (sectorCount % 2 ^ 8)
  return (outcome.value = sectorCount, outcome)

def discWrite (driver : Driver σ) (lba sectorCount : Nat) (src : Nat → σ) :
    Except Fault (Bool × Outcome σ) := do
  let outcome ← discWrite28 driver (lba % 2 ^ 32) (sectorCount % 2 ^ 8) src
  return (outcome.value = sectorCount, outcome)

/-! ## `disc_pio.c` -/

def blockRead (driver : Driver σ) (device : IdeDevice) (blockSize blockOffset : Nat) :
    Except Fault (Outcome σ) := do
  let driver := discSelect driver device
  let (done, outcome) ← discRead driver blockOffset blockSize
  return { outcome with value := if done then blockSize else 0 }

def blockWrite (driver : Driver σ) (device : IdeDevice) (buffer : Nat → σ)
    (blockSize blockOffset : Nat) : Except Fault (Outcome σ) := do
  let driver := discSelect driver device
  let (done, outcome) ← discWrite driver blockOffset blockSize buffer
  return { outcome with value := if done then blockSize else 0 }

/-! ## What a call has to do -/

/-- A call moves nothing but sectors of its range and returns 0, or it moves all of them in order
and returns their number. -/
def InRange (expected : Nat → Option σ) (offset count : Nat) (outcome : Outcome σ) : Prop :=
  outcome.value = 0 ∧
      (∀ access ∈ outcome.moved, offset ≤ access.1 ∧ access.1 < offset + count) ∨
    outcome.value = count ∧ outcome.moved.map (Prod.map id some) =
      (List.range count).map fun index => (offset + index, expected index)

/-- Reads and writes of some blocks, and of the block at their offset alone. -/
structure Addresses (driver : Driver σ) (device : IdeDevice) (buffer : Nat → σ)
    (offset count : Nat) : Prop where
  read : ∃ outcome, blockRead driver device count offset = .ok outcome ∧
    InRange (fun index => (driver.drives device.ioPort device.drive).sectors (offset + index))
      offset count outcome
  write : ∃ outcome, blockWrite driver device buffer count offset = .ok outcome ∧
    InRange (fun index => some (buffer index)) offset count outcome
  readable : ((driver.drives device.ioPort device.drive).sectors offset).isSome →
    ∃ outcome, blockRead driver device 1 offset = .ok outcome ∧ outcome.value = 1
  writable : ((driver.drives device.ioPort device.drive).sectors offset).isSome →
    ∃ outcome, blockWrite driver device buffer 1 offset = .ok outcome ∧ outcome.value = 1

/-- The sectors of a drive from an address on, up to the first that is not there. -/
def available (drive : Drive σ) : Nat → Nat → Nat
  | _, 0 => 0
  | lba, count + 1 =>
      if (drive.sectors lba).isSome then available drive (lba + 1) count + 1 else 0

/-- The sectors that a call moves. -/
def served (drive : Drive σ) (offset count : Nat) : Nat :=
  if 0xFFFFFF < offset % 2 ^ 32 then 0
  else available drive (offset % 2 ^ 32) (count % 2 ^ 8)

variable {driver : Driver σ} {device : IdeDevice} {drive : Drive σ} {src : Nat → σ}
  {lba sectorCount left index offset count : Nat} {expected : Nat → Option σ} {outcome : Outcome σ}

/-! ## Registers -/

@[simp]
theorem discSelect_ioPort : (discSelect driver device).currentIoPort = device.ioPort := by
  unfold discSelect
  split
  · rfl
  · tauto

@[simp]
theorem discSelect_drive :
    (discSelect driver device).currentDeviceDrive = some device.drive := by
  unfold discSelect
  split
  · rfl
  · tauto

@[simp]
theorem discSelect_drives : (discSelect driver device).drives = driver.drives := by
  unfold discSelect
  split <;> rfl

/-- The bits 24 to 27 of an address that passes the check are zero. -/
theorem address28_driveHead (hlba : lba ≤ 0xFFFFFF) :
    (address28 (discSelect driver device) lba sectorCount).driveHead =
      match device.drive with
      | .master => 0xE0
      | .slave => 0xF0 := by
  have htop : (lba >>> 24) &&& 0xF = 0 := by
    rw [Nat.shiftRight_eq_div_pow, Nat.div_eq_of_lt (by omega), Nat.zero_and]
  rw [address28, discSelect_drive, htop]
  cases device.drive <;> simp

/-- The bytes of an address make the address again. -/
theorem address28_lba (hlba : lba ≤ 0xFFFFFF) :
    (address28 (discSelect driver device) lba sectorCount).lba = lba := by
  have hhead : (address28 (discSelect driver device) lba sectorCount).driveHead &&& 0xF = 0 := by
    rw [address28_driveHead hlba]
    cases device.drive <;> simp
  rw [Registers.lba, hhead]
  simp only [address28, Nat.shiftRight_eq_div_pow, show 0xFF = 2 ^ 8 - 1 by decide,
    Nat.and_two_pow_sub_one_eq_mod]
  omega

theorem address28_drive (hlba : lba ≤ 0xFFFFFF) :
    (address28 (discSelect driver device) lba sectorCount).drive = device.drive := by
  rw [Registers.drive, address28_driveHead hlba]
  cases device.drive <;> decide

theorem le_address28_count :
    sectorCount ≤ (address28 (discSelect driver device) lba sectorCount).count := by
  change sectorCount ≤ if sectorCount = 0 then 256 else sectorCount
  split <;> omega

/-! ## Loops -/

theorem available_le (drive : Drive σ) (lba count : Nat) : available drive lba count ≤ count := by
  induction count generalizing lba with
  | zero => exact Nat.le_refl 0
  | succ count ih =>
      rw [available]
      split
      · exact Nat.succ_le_succ (ih _)
      · exact Nat.zero_le _

/-- A list of accesses from an address on. -/
theorem map_range_succ {α : Type} (f : Nat → α) (count : Nat) :
    (List.range (count + 1)).map f = f 0 :: (List.range count).map fun index => f (index + 1) := by
  rw [List.range_succ_eq_map, List.map_cons, List.map_map]
  rfl

theorem readLoop_spec (hleft : sectorCount ≤ left) :
    ∃ moved, readLoop drive sectorCount lba left = .ok moved ∧
      moved.map (Prod.map id some) = (List.range (available drive lba sectorCount)).map
        fun index => (lba + index, drive.sectors (lba + index)) := by
  induction sectorCount generalizing lba left with
  | zero => exact ⟨[], rfl, rfl⟩
  | succ sectorCount ih =>
      obtain ⟨left, rfl⟩ := Nat.exists_eq_succ_of_ne_zero (Nat.ne_zero_of_lt hleft)
      cases hsector : drive.sectors lba with
      | none => exact ⟨[], by simp [readLoop, hsector], by simp [available, hsector]⟩
      | some sector =>
          obtain ⟨moved, hloop, hmoved⟩ := @ih (lba + 1) left (Nat.le_of_succ_le_succ hleft)
          refine ⟨(lba, sector) :: moved, by simp [readLoop, hsector, hloop], ?_⟩
          rw [available, hsector, Option.isSome_some, if_pos rfl, map_range_succ, List.map_cons,
            hmoved]
          simp [hsector, Nat.add_assoc, Nat.add_comm 1]

/-- Another sector changes nothing about which are there. -/
theorem Drive.isSome_of_write {changed : Drive σ} {sector : σ}
    (hwrite : drive.write lba sector = some changed) (other : Nat) :
    (changed.sectors other).isSome = (drive.sectors other).isSome := by
  unfold Drive.write at hwrite
  split at hwrite
  case isFalse => cases hwrite
  case isTrue hthere =>
    cases hwrite
    by_cases hsame : other = lba
    · simp [hsame, hthere]
    · simp [hsame]

theorem available_congr {changed : Drive σ}
    (hsame : ∀ other, (changed.sectors other).isSome = (drive.sectors other).isSome)
    (lba count : Nat) : available changed lba count = available drive lba count := by
  induction count generalizing lba with
  | zero => rfl
  | succ count ih => rw [available, available, hsame, ih]

/-- The sectors of a drive behind some writes. -/
def written (drive : Drive σ) (moved : List (Nat × σ)) (lba : Nat) : Option σ :=
  (moved.foldl (fun (sectors : Nat → Option σ) access =>
    update sectors access.1 (some access.2)) drive.sectors) lba

theorem writeLoop_spec (hleft : sectorCount ≤ left) :
    ∃ moved changed, writeLoop src drive sectorCount index lba left = .ok (moved, changed) ∧
      moved.map (Prod.map id some) = (List.range (available drive lba sectorCount)).map
        (fun place => (lba + place, some (src (index + place)))) ∧
      changed.sectors = written drive moved := by
  induction sectorCount generalizing drive lba left index with
  | zero => exact ⟨[], drive, rfl, rfl, rfl⟩
  | succ sectorCount ih =>
      obtain ⟨left, rfl⟩ := Nat.exists_eq_succ_of_ne_zero (Nat.ne_zero_of_lt hleft)
      cases hwrite : drive.write lba (src index) with
      | none =>
          have hsector : (drive.sectors lba).isSome = false := by
            unfold Drive.write at hwrite
            simpa using hwrite
          exact ⟨[], drive, by simp [writeLoop, hwrite], by simp [available, hsector], rfl⟩
      | some next =>
          obtain ⟨moved, changed, hloop, hmoved, hchanged⟩ :=
            @ih next (lba + 1) left (index + 1) (Nat.le_of_succ_le_succ hleft)
          have hupdate : next.sectors = update drive.sectors lba (some (src index)) ∧
              (drive.sectors lba).isSome = true := by
            unfold Drive.write at hwrite
            split at hwrite
            case isFalse => cases hwrite
            case isTrue hthere =>
              cases hwrite
              exact ⟨rfl, hthere⟩
          refine ⟨(lba, src index) :: moved, changed, by simp [writeLoop, hwrite, hloop], ?_, ?_⟩
          · rw [available, if_pos hupdate.2, map_range_succ, List.map_cons, hmoved,
              available_congr (Drive.isSome_of_write hwrite)]
            simp [Nat.add_assoc, Nat.add_comm 1]
          · rw [hchanged]
            funext place
            rw [written, written, List.foldl_cons, hupdate.1]

/-! ## Calls -/

/-- `block_read` moves the sectors that are served, and returns the count if those are all. -/
theorem blockRead_spec (driver : Driver σ) (device : IdeDevice) (offset count : Nat) :
    ∃ outcome, blockRead driver device count offset = .ok outcome ∧
      outcome.value =
        (if served (driver.drives device.ioPort device.drive) offset count = count then count
        else 0) ∧
      outcome.moved.map (Prod.map id some) =
        (List.range (served (driver.drives device.ioPort device.drive) offset count)).map
          (fun index => (offset % 2 ^ 32 + index,
            (driver.drives device.ioPort device.drive).sectors (offset % 2 ^ 32 + index))) ∧
      outcome.driver.drives = driver.drives := by
  unfold blockRead discRead discRead28 served
  by_cases hhigh : 0xFFFFFF < offset % 2 ^ 32
  · simp only [if_pos hhigh, pure_eq_ok, ok_bind]
    refine ⟨_, rfl, ?_, rfl, discSelect_drives⟩
    simp
  · have hlba : offset % 2 ^ 32 ≤ 0xFFFFFF := by omega
    obtain ⟨moved, hloop, hmoved⟩ := @readLoop_spec _ (driver.drives device.ioPort device.drive)
      (offset % 2 ^ 32) (count % 2 ^ 8) _
      (@le_address28_count _ driver device (offset % 2 ^ 32) (count % 2 ^ 8))
    simp only [if_neg hhigh, pure_eq_ok, ok_bind, discSelect_drives, discSelect_ioPort,
      address28_lba hlba, address28_drive hlba, hloop]
    have hlength : moved.length =
        available (driver.drives device.ioPort device.drive) (offset % 2 ^ 32) (count % 2 ^ 8) := by
      simpa using congrArg List.length hmoved
    refine ⟨_, rfl, ?_, hmoved, rfl⟩
    simp [hlength]

/-- `block_write` moves as many sectors of the buffer, and changes no others. -/
theorem blockWrite_spec (driver : Driver σ) (device : IdeDevice) (buffer : Nat → σ)
    (offset count : Nat) : ∃ outcome changed,
      blockWrite driver device buffer count offset = .ok outcome ∧
      outcome.value =
        (if served (driver.drives device.ioPort device.drive) offset count = count then count
        else 0) ∧
      outcome.moved.map (Prod.map id some) =
        (List.range (served (driver.drives device.ioPort device.drive) offset count)).map
          (fun index => (offset % 2 ^ 32 + index, some (buffer index))) ∧
      outcome.driver.drives = update driver.drives device.ioPort
        (update (driver.drives device.ioPort) device.drive changed) ∧
      changed.sectors = written (driver.drives device.ioPort device.drive) outcome.moved := by
  unfold blockWrite discWrite discWrite28 served
  by_cases hhigh : 0xFFFFFF < offset % 2 ^ 32
  · simp only [if_pos hhigh, pure_eq_ok, ok_bind]
    refine ⟨_, driver.drives device.ioPort device.drive, rfl, ?_, rfl, ?_, rfl⟩
    · simp
    · simp
  · have hlba : offset % 2 ^ 32 ≤ 0xFFFFFF := by omega
    obtain ⟨moved, changed, hloop, hmoved, hchanged⟩ := @writeLoop_spec _
      (driver.drives device.ioPort device.drive) buffer (offset % 2 ^ 32) (count % 2 ^ 8) _ 0
      (@le_address28_count _ driver device (offset % 2 ^ 32) (count % 2 ^ 8))
    simp only [if_neg hhigh, pure_eq_ok, ok_bind, discSelect_drives, discSelect_ioPort,
      address28_lba hlba, address28_drive hlba, hloop]
    have hlength : moved.length =
        available (driver.drives device.ioPort device.drive) (offset % 2 ^ 32) (count % 2 ^ 8) := by
      simpa using congrArg List.length hmoved
    refine ⟨_, changed, rfl, ?_, ?_, rfl, hchanged⟩
    · simp [hlength]
    · simpa using hmoved

theorem served_le (drive : Drive σ) (offset count : Nat) : served drive offset count ≤ count := by
  unfold served
  split
  · exact Nat.zero_le _
  · exact Nat.le_trans (available_le _ _ _) (Nat.mod_le _ _)

/-- The sectors of a call are in its range exactly if there are none or the offset has not lost
bits. -/
theorem inRange_iff {found : Nat → Option σ} (hcount : 1 ≤ count)
    (hvalue : outcome.value = if served drive offset count = count then count else 0)
    (hmoved : outcome.moved.map (Prod.map id some) = (List.range (served drive offset count)).map
      fun index => (offset % 2 ^ 32 + index, found index))
    (hfound : offset < 2 ^ 32 → found = expected) :
    InRange expected offset count outcome ↔
      served drive offset count = 0 ∨ offset < 2 ^ 32 := by
  have haddresses : outcome.moved.map Prod.fst = (List.range (served drive offset count)).map
      fun index => offset % 2 ^ 32 + index := by
    have hfst := congrArg (List.map Prod.fst) hmoved
    rw [List.map_map, List.map_map] at hfst
    exact hfst
  have hle := served_le drive offset count
  constructor
  · intro hrange
    by_contra hnot
    obtain ⟨hserved, hoffset⟩ := not_or.mp hnot
    have hlost : offset % 2 ^ 32 < offset := by omega
    have hfirst : offset % 2 ^ 32 ∈ outcome.moved.map Prod.fst := by
      rw [haddresses]
      exact List.mem_map.mpr ⟨0, List.mem_range.mpr (Nat.pos_of_ne_zero hserved), rfl⟩
    rcases hrange with ⟨-, hinside⟩ | ⟨-, hall⟩
    · obtain ⟨access, hmem, hsame⟩ := List.mem_map.mp hfirst
      have hlower := (hinside access hmem).1
      omega
    · have hfst := congrArg (List.map Prod.fst) hall
      rw [List.map_map, List.map_map] at hfst
      change outcome.moved.map Prod.fst = (List.range count).map fun index => offset + index at hfst
      rw [hfst] at hfirst
      obtain ⟨index, -, hsame⟩ := List.mem_map.mp hfirst
      omega
  · intro hor
    by_cases hall : served drive offset count = count
    · have hoffset : offset < 2 ^ 32 := by omega
      rw [if_pos hall] at hvalue
      rw [hall, Nat.mod_eq_of_lt hoffset, hfound hoffset] at hmoved
      exact .inr ⟨hvalue, hmoved⟩
    · rw [if_neg hall] at hvalue
      refine .inl ⟨hvalue, fun access hmem => ?_⟩
      have hfst : access.1 ∈ outcome.moved.map Prod.fst := List.mem_map_of_mem hmem
      rw [haddresses] at hfst
      obtain ⟨index, hindex, hsame⟩ := List.mem_map.mp hfst
      have hlt := List.mem_range.mp hindex
      have hoffset : offset < 2 ^ 32 := by omega
      rw [Nat.mod_eq_of_lt hoffset] at hsame
      omega

/-! ## Offsets that a command can have -/

/-- No sector is moved for an offset whose low 32 bits fail the check, for a multiple of 256 blocks,
and for a first sector that is not there. -/
theorem served_eq_zero : served drive offset count = 0 ↔ 0xFFFFFF < offset % 2 ^ 32 ∨
    count % 2 ^ 8 = 0 ∨ drive.sectors (offset % 2 ^ 32) = none := by
  unfold served
  by_cases hhigh : 0xFFFFFF < offset % 2 ^ 32
  · rw [if_pos hhigh]
    exact iff_of_true rfl (.inl hhigh)
  · rw [if_neg hhigh]
    cases hnumber : count % 2 ^ 8 with
    | zero => simp [available]
    | succ number =>
        rw [available]
        cases hsector : drive.sectors (offset % 2 ^ 32) with
        | none => simp
        | some sector => simpa using hhigh

/-- A block is served exactly if its sector is there and the offset passes the check. -/
theorem served_one (hthere : (drive.sectors offset).isSome) :
    served drive offset 1 = 1 ↔ offset ≤ 0xFFFFFF := by
  have hlt : offset < 2 ^ 28 := by
    by_contra hge
    rw [drive.addressed offset (by omega)] at hthere
    cases hthere
  have hle := served_le drive offset 1
  have hzero := @served_eq_zero _ drive offset 1
  rw [Nat.mod_eq_of_lt (by omega : offset < 2 ^ 32)] at hzero
  have hne : drive.sectors offset ≠ none := Option.isSome_iff_ne_none.mp hthere
  have hsimple : served drive offset 1 = 0 ↔ 0xFFFFFF < offset := by
    rw [hzero]
    simp [hne]
  omega

theorem addresses_iff_served (hdrive : driver.drives device.ioPort device.drive = drive)
    (buffer : Nat → σ) (hcount : 1 ≤ count) : Addresses driver device buffer offset count ↔
      (served drive offset count = 0 ∨ offset < 2 ^ 32) ∧
        ((drive.sectors offset).isSome → offset ≤ 0xFFFFFF) := by
  subst hdrive
  obtain ⟨reads, hread, hreadValue, hreadMoved, -⟩ := blockRead_spec driver device offset count
  obtain ⟨writes, -, hwrite, hwriteValue, hwriteMoved, -⟩ :=
    blockWrite_spec driver device buffer offset count
  obtain ⟨readsOne, hreadOne, hreadOneValue, -⟩ := blockRead_spec driver device offset 1
  obtain ⟨writesOne, -, hwriteOne, hwriteOneValue, -⟩ :=
    blockWrite_spec driver device buffer offset 1
  constructor
  · rintro ⟨⟨outcome, hcall, -⟩, ⟨outcome', hcall', hrange⟩, hreach, -⟩
    obtain rfl : writes = outcome' := Except.ok.inj (hwrite.symm.trans hcall')
    refine ⟨(inRange_iff hcount hwriteValue hwriteMoved fun _ => rfl).mp hrange, fun hthere => ?_⟩
    obtain ⟨one, hcallOne, hone⟩ := hreach hthere
    obtain rfl : readsOne = one := Except.ok.inj (hreadOne.symm.trans hcallOne)
    refine (served_one hthere).mp ?_
    by_contra hnot
    rw [if_neg hnot, hone] at hreadOneValue
    cases hreadOneValue
  · rintro ⟨hrange, hlow⟩
    refine ⟨⟨reads, hread, (inRange_iff hcount hreadValue hreadMoved fun hoffset => ?_).mpr hrange⟩,
      ⟨writes, hwrite, (inRange_iff hcount hwriteValue hwriteMoved fun _ => rfl).mpr hrange⟩,
      fun hthere => ⟨readsOne, hreadOne, ?_⟩, fun hthere => ⟨writesOne, hwriteOne, ?_⟩⟩
    · rw [Nat.mod_eq_of_lt hoffset]
    · rw [hreadOneValue, if_pos ((served_one hthere).mpr (hlow hthere))]
    · rw [hwriteOneValue, if_pos ((served_one hthere).mpr (hlow hthere))]

/-- Reads and writes move the blocks they are asked for, unless their offset is one of a sector from
2^24 on, or one beyond 32 bits that becomes the address of a sector. -/
theorem addresses_iff (driver : Driver σ) (device : IdeDevice) (buffer : Nat → σ) (offset : Nat)
    (hcount : 1 ≤ count) : Addresses driver device buffer offset count ↔
      offset < 2 ^ 24 ∨
      offset < 2 ^ 32 ∧ (driver.drives device.ioPort device.drive).sectors offset = none ∨
      2 ^ 32 ≤ offset ∧ (2 ^ 24 ≤ offset % 2 ^ 32 ∨ count % 2 ^ 8 = 0 ∨
        (driver.drives device.ioPort device.drive).sectors (offset % 2 ^ 32) = none) := by
  rw [addresses_iff_served rfl buffer hcount, served_eq_zero]
  generalize driver.drives device.ioPort device.drive = drive
  have hlarge : 2 ^ 32 ≤ offset → drive.sectors offset = none :=
    fun hge => drive.addressed offset (by omega)
  rw [Option.isSome_iff_ne_none]
  by_cases hthere : drive.sectors offset = none
  · simp only [hthere, ne_eq, not_true_eq_false, false_imp_iff, and_true]
    by_cases hlow : drive.sectors (offset % 2 ^ 32) = none
    · simp only [hlow, or_true, true_or, true_iff, and_true]
      omega
    · simp only [hlow, or_false]
      omega
  · have hlt : offset < 2 ^ 32 := by
      by_contra hge
      exact hthere (hlarge (by omega))
    simp only [hthere, ne_eq, not_false_eq_true, true_imp_iff, and_false, false_or]
    omega

/-- A drive with all sectors that a command can address, empty at first. -/
def fullDrive : Drive Nat where
  sectors lba := if lba < 2 ^ 28 then some 0 else none
  addressed lba hlba := if_neg (by omega)

/-- The master of a port with two such drives. -/
def firstDisc : IdeDevice := ⟨0x1F0, 0x3F6, .master⟩

/-- The driver when the module is loaded. -/
def freshDriver : Driver Nat where
  currentIoPort := 0xFFFF
  currentControlPort := 0xFFFF
  currentDeviceDrive := none
  registers _ := ⟨0, 0, 0, 0, 0⟩
  drives _ _ := fullDrive

/-- Three blocks from 0x123456 on. -/
theorem addresses_low : Addresses freshDriver firstDisc (fun index => index) 0x123456 3 :=
  (addresses_iff freshDriver firstDisc _ 0x123456 (by decide)).mpr (.inl (by decide))

/-- The block 2^32 is read from sector 0, and the sector 2^24 is not reached. -/
theorem not_addresses_high :
    (blockRead freshDriver firstDisc 1 (2 ^ 32)).map (fun outcome => (outcome.value, outcome.moved)) =
        .ok (1, [(0, 0)]) ∧
      (blockRead freshDriver firstDisc 1 (2 ^ 24)).map Outcome.value = .ok 0 ∧
      ¬Addresses freshDriver firstDisc (fun index => index) (2 ^ 32) 1 ∧
      ¬Addresses freshDriver firstDisc (fun index => index) (2 ^ 24) 1 := by
  refine ⟨by decide, by decide, ?_, ?_⟩
  · rw [addresses_iff_served rfl _ (by decide)]
    decide
  · rw [addresses_iff_served rfl _ (by decide)]
    decide

end PKernel.Pio
