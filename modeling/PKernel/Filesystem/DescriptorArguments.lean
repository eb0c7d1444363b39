import PKernel.Filesystem.FileTable
import PKernel.Heap.Allocator

/-! # Descriptors as arguments

`file_table_dup` and `file_table_openat` with descriptors that are signed numbers, on a table in a
block of the heap. A descriptor is compared with the capacity as a `size_t`, and a table that is too
small grows to the capacity `fd + 1`.
-/

namespace PKernel.Vfs.Arguments

open Heap (heapAlloc heapFree heapRealloc)

/-- A `fs_file_t` of the heap. Without a file it is as `heap_alloc` cleared it. -/
structure Slot where
  address : Nat
  file : Option File
deriving DecidableEq, Repr

/-- `file_table_t`, with the slots that its block has room for. -/
structure Table where
  fileCapacity : Nat
  files : Nat
  slots : List (Option Slot)
deriving DecidableEq, Repr

/-- What the calls change besides the table. -/
structure World where
  heap : Heap
  state : State

/-- How a call ends that does not return. -/
inductive Halt where
  | heap (fault : Fault)
  | filesystem (stop : Stop)
  /-- An access outside the block of the table. -/
  | outside
deriving DecidableEq, Repr

/-- `sizeof(fs_file_t)`. -/
def fileSize : Nat := 32

/-- `sizeof(fs_file_t *)`. -/
def slotSize : Nat := 8

/-- A conversion to `size_t`. -/
def sizeT (value : Int) : Nat := (value % 2 ^ 64).toNat

/-- `fd + 1`, for a `fd_t` of so many bits, which are at least those of an `int`. -/
def fdSucc (bits : Nat) (fd : Int) : Int :=
  if fd + 1 < 2 ^ (bits - 1) then fd + 1 else fd + 1 - 2 * 2 ^ (bits - 1)

/-- The `file_capacity` of a table that grows for a descriptor. -/
def newCapacity (bits : Nat) (fd : Int) : Nat := sizeT (fdSucc bits fd)

/-- The first part of `file_table_set`: a block for the new capacity, and null pointers in the slots
from the old one on. -/
def grow (bits : Nat) (world : World) (table : Table) (fd : Int) : Except Halt (Table × World) := do
  let (heap, files) ← (heapRealloc world.heap table.files
    (u64 (newCapacity bits fd * slotSize))).mapError .heap
  -- the slots that the block has room for
  if u64 (newCapacity bits fd * slotSize) / slotSize < newCapacity bits fd then throw .outside
  else return (⟨newCapacity bits fd, files,
    table.slots ++ List.replicate (newCapacity bits fd - table.slots.length) none⟩,
      { world with heap })

/-- `file_close` and `heap_free` of the file in a slot, if there is one. -/
def closeOld (world : World) : Option Slot → Except Halt World
  | none => .ok world
  | some ⟨_, none⟩ => .error (.filesystem .badPointer)
  | some ⟨address, some file⟩ => do
      let state ← (fileClose world.state file).mapError .filesystem
      let heap ← (heapFree world.heap address).mapError .heap
      return ⟨heap, state⟩

/-- A table grows for a descriptor that is not below its capacity. -/
def withRoom (bits : Nat) (world : World) (table : Table) (fd : Int) :
    Except Halt (Table × World) :=
  if table.fileCapacity ≤ sizeT fd then grow bits world table fd else .ok (table, world)

/-- The last part of `file_table_set`: a file that is replaced is closed. -/
def setSlot (world : World) (table : Table) (fd : Int) (slot : Slot) :
    Except Halt (Table × World) :=
  if fd < 0 then .error .outside
  else
    match table.slots[fd.toNat]? with
    | none => .error .outside
    | some old => do
        let world ← closeOld world old
        return ({ table with slots := table.slots.set fd.toNat (some slot) }, world)

/-- `file_table_set`. -/
def fileTableSet (bits : Nat) (world : World) (table : Table) (fd : Int) (slot : Slot) :
    Except Halt (Table × World) := do
  let (table, world) ← withRoom bits world table fd
  setSlot world table fd slot

/-- The file that `file_table_dup` makes. It does not look at the result of `file_init`. -/
def dupFile (world : World) (source : Slot) : Except Halt (Slot × World) := do
  let (heap, address) ← (heapAlloc world.heap fileSize).mapError .heap
  match source.file with
  | none => throw (.filesystem .badPointer)
  | some file =>
      let state ← (addReference world.state file.dirent).mapError .filesystem
      let result ← (fileInit state file.dirent file.options).mapError .filesystem
      return (⟨address, result.toOption⟩, ⟨heap, state⟩)

/-- `file_table_dup`. -/
def fileTableDup (bits : Nat) (world : World) (table : Table) (dst src : Int) :
    Except Halt (Except Errno Int × Table × World) :=
  if table.fileCapacity ≤ sizeT src then return (.error .badFd, table, world)
  else if src < 0 then throw .outside
  else
    match table.slots[src.toNat]? with
    | none => throw .outside
    | some none => return (.error .badFd, table, world)
    | some (some source) => do
        let (slot, world) ← dupFile world source
        let (table, world) ← fileTableSet bits world table dst slot
        return (.ok 0, table, world)

/-- The file that `file_table_openat` makes. -/
def openFile (world : World) (node : Nat) (options : Options) :
    Except Halt (Except Errno Slot × World) := do
  let (heap, address) ← (heapAlloc world.heap fileSize).mapError .heap
  let result ← (fileInit world.state node options).mapError .filesystem
  return (result.map fun file => ⟨address, some file⟩, { world with heap })

/-- `file_table_openat`. -/
def fileTableOpenat (bits : Nat) (world : World) (table : Table) (fd : Int) (node : Nat)
    (options : Options) : Except Halt (Except Errno Int × Table × World) := do
  let (result, world) ← openFile world node options
  match result with
  | .error error => return (.error error, table, world)
  | .ok slot =>
      let (table, world) ← fileTableSet bits world table fd slot
      return (.ok fd, table, world)

/-! ## What a call has to do -/

/-- A table has a slot, and as many as its capacity says. -/
structure Table.Sound (table : Table) : Prop where
  pos : 1 ≤ table.fileCapacity
  slots : table.slots.length = table.fileCapacity
  bytes : table.fileCapacity * slotSize < 2 ^ 64

/-- The slot of a descriptor, which is empty behind the capacity. -/
def Table.slot? (table : Table) (fd : Nat) : Option Slot := table.slots[fd]?.join

/-- A call with a descriptor to set does nothing outside the block of the table, leaves a sound table
with the other slots as they were, and returns an error for a negative one. -/
structure Checked (table : Table) (fd : Int)
    (call : Except Halt (Except Errno Int × Table × World)) : Prop where
  inside : call ≠ .error .outside
  sound : ∀ result next world, call = .ok (result, next, world) → next.Sound
  keeps : ∀ result next world, call = .ok (result, next, world) → ∀ other : Nat,
    (other : Int) ≠ fd → next.slot? other = table.slot? other
  negative : fd < 0 → ∃ error world, call = .ok (.error error, table, world)

/-- A descriptor that is not negative, and below the capacity or such that the table can grow for it.
Where the new size of the block wraps, the kernel has to stop for want of memory. -/
def Settable (bits : Nat) (world : World) (table : Table) (fd : Int) : Prop :=
  0 ≤ fd ∧ (fd < table.fileCapacity ∨ newCapacity bits fd * slotSize < 2 ^ 64 ∨
    ∀ result, heapRealloc world.heap table.files (u64 (newCapacity bits fd * slotSize)) ≠ .ok result)

/-- The descriptor of an open file. -/
def Table.Open (table : Table) (src : Int) : Prop := 0 ≤ src ∧ (table.slot? src.toNat).isSome

/-- A directory is opened for writing, with room for a `fs_file_t`. -/
def Refused (world : World) (node : Nat) (options : Options) : Prop :=
  (∃ allocated, heapAlloc world.heap fileSize = .ok allocated) ∧
    ∃ entry, world.state.entries node = some entry ∧ entry.type = .directory ∧ options.write = true

variable {bits : Nat} {world : World} {table next : Table} {fd dst src : Int} {slot : Slot}
  {node : Nat} {options : Options}

/-! ## Conversions -/

theorem sizeT_of_nonneg (hpos : 0 ≤ fd) (hlt : fd < 2 ^ 63) : sizeT fd = fd.toNat := by
  unfold sizeT
  omega

theorem sizeT_of_neg (hneg : fd < 0) (hge : -2 ^ 63 ≤ fd) : 2 ^ 63 ≤ sizeT fd := by
  unfold sizeT
  omega

theorem limit_le (hbits : bits ≤ 64) : (2 : Int) ^ (bits - 1) ≤ 2 ^ 63 := by
  have hpow : 2 ^ (bits - 1) ≤ 2 ^ 63 := Nat.pow_le_pow_right (by decide) (by omega)
  exact_mod_cast hpow

/-- A capacity whose bytes have 64 bits is that of the descriptor. -/
theorem newCapacity_eq (hbits : bits ≤ 64) (hpos : 0 ≤ fd) (hlt : fd < 2 ^ (bits - 1))
    (hfits : newCapacity bits fd * slotSize < 2 ^ 64) : newCapacity bits fd = fd.toNat + 1 := by
  have hlimit := limit_le hbits
  unfold newCapacity fdSucc slotSize at *
  split at hfits
  next hless =>
    rw [if_pos hless, sizeT_of_nonneg (by omega) (by omega)]
    omega
  next hmax =>
    have hlarge := @sizeT_of_neg (fd + 1 - 2 * 2 ^ (bits - 1)) (by omega) (by omega)
    omega

/-! ## Growth -/

/-- A table grows outside its block exactly if the bytes of its new capacity wrap. -/
theorem grow_outside_iff : grow bits world table fd = .error .outside ↔
    2 ^ 64 ≤ newCapacity bits fd * slotSize ∧ ∃ result,
      heapRealloc world.heap table.files (u64 (newCapacity bits fd * slotSize)) = .ok result := by
  unfold grow
  cases heapRealloc world.heap table.files (u64 (newCapacity bits fd * slotSize)) with
  | error fault => simp [Except.mapError]
  | ok result =>
      have hwraps : u64 (newCapacity bits fd * slotSize) / slotSize < newCapacity bits fd ↔
          2 ^ 64 ≤ newCapacity bits fd * slotSize := by
        unfold u64 slotSize
        omega
      simp only [Except.mapError, ok_bind, hwraps]
      split
      next hlarge => exact iff_of_true rfl ⟨hlarge, _, rfl⟩
      next hsmall => exact iff_of_false (by simp) fun hand => hsmall hand.1

/-- What a table is that has grown. -/
theorem grow_eq_ok {grown : Table} {after : World}
    (hgrow : grow bits world table fd = .ok (grown, after)) :
    newCapacity bits fd * slotSize < 2 ^ 64 ∧ grown.fileCapacity = newCapacity bits fd ∧
      grown.slots = table.slots ++
        List.replicate (newCapacity bits fd - table.slots.length) none := by
  obtain ⟨⟨heap, files⟩, hrealloc, hnext⟩ := bind_eq_ok.mp hgrow
  by_cases hsmall : u64 (newCapacity bits fd * slotSize) / slotSize < newCapacity bits fd
  · simp [hsmall] at hnext
  · simp only [hsmall, if_false, pure_eq_ok, Except.ok.injEq, Prod.mk.injEq] at hnext
    obtain ⟨rfl, -⟩ := hnext
    refine ⟨?_, rfl, rfl⟩
    unfold u64 slotSize at *
    omega

theorem slot?_grown {grown : Table} {count : Nat}
    (hslots : grown.slots = table.slots ++ List.replicate count none) (other : Nat) :
    grown.slot? other = table.slot? other := by
  unfold Table.slot?
  rw [hslots]
  rcases Nat.lt_or_ge other table.slots.length with hlt | hge
  · rw [List.getElem?_append_left hlt]
  · rw [List.getElem?_append_right hge, List.getElem?_replicate, List.getElem?_eq_none hge]
    split <;> rfl

/-! ## Setting a slot -/

theorem closeOld_inside (world : World) (old : Option Slot) :
    closeOld world old ≠ .error .outside := by
  unfold closeOld
  split
  · simp
  · simp
  next address file =>
    cases fileClose world.state file with
    | error stop => simp [Except.mapError]
    | ok state => cases heapFree world.heap address <;> simp [Except.mapError]

/-- A slot of the block is set. -/
theorem setSlot_inside (hpos : 0 ≤ fd) (hlt : fd.toNat < table.slots.length) :
    setSlot world table fd slot ≠ .error .outside := by
  unfold setSlot
  rw [if_neg (by omega), List.getElem?_eq_getElem hlt]
  have hclose := closeOld_inside world table.slots[fd.toNat]
  simp only
  cases hclosed : closeOld world table.slots[fd.toNat] with
  | error halt =>
      rw [hclosed] at hclose
      simpa using hclose
  | ok closed => simp

/-- What a table is with a slot set. -/
theorem setSlot_eq_ok {after : World} (hset : setSlot world table fd slot = .ok (next, after)) :
    0 ≤ fd ∧ fd.toNat < table.slots.length ∧
      next = { table with slots := table.slots.set fd.toNat (some slot) } := by
  unfold setSlot at hset
  split at hset
  · cases hset
  · cases hslot : table.slots[fd.toNat]? with
    | none =>
        rw [hslot] at hset
        cases hset
    | some old =>
        rw [hslot] at hset
        obtain ⟨closed, -, hset⟩ := bind_eq_ok.mp hset
        cases hset
        exact ⟨by omega, (List.getElem?_eq_some_iff.mp hslot).1, rfl⟩

theorem slot?_set {value : Option Slot} {place other : Nat} (hne : other ≠ place) :
    Table.slot? { table with slots := table.slots.set place value } other = table.slot? other := by
  unfold Table.slot?
  rw [List.getElem?_set_ne hne.symm]

/-- `file_table_set` does not return for a negative descriptor. -/
theorem fileTableSet_of_neg (hneg : fd < 0) (result : Table × World) :
    fileTableSet bits world table fd slot ≠ .ok result := by
  intro hset
  obtain ⟨⟨grown, after⟩, -, hset⟩ := bind_eq_ok.mp hset
  have hpos := (@setSlot_eq_ok after grown result.1 fd slot result.2 hset).1
  omega

/-- It stays in the block of the table for the descriptors that can be set. -/
theorem fileTableSet_inside_iff (hsound : table.Sound) (hbits : bits ≤ 64) (hpos : 0 ≤ fd)
    (hlt : fd < 2 ^ (bits - 1)) :
    fileTableSet bits world table fd slot ≠ .error .outside ↔ Settable bits world table fd := by
  have hlimit := limit_le hbits
  have hsize := sizeT_of_nonneg hpos (by omega)
  have hslots := hsound.slots
  unfold fileTableSet withRoom Settable
  rw [hsize]
  by_cases hgrows : table.fileCapacity ≤ fd.toNat
  · rw [if_pos hgrows]
    have houtside := @grow_outside_iff bits world table fd
    cases hgrow : grow bits world table fd with
    | error halt =>
        rw [hgrow] at houtside
        rw [error_bind, ne_eq, houtside]
        constructor
        · intro hnot
          refine ⟨hpos, .inr ?_⟩
          by_cases hfits : newCapacity bits fd * slotSize < 2 ^ 64
          · exact .inl hfits
          · exact .inr fun result hrealloc => hnot ⟨by omega, result, hrealloc⟩
        · rintro ⟨-, hless | hfits | hstops⟩ ⟨hlarge, result, hrealloc⟩
          · omega
          · omega
          · exact hstops result hrealloc
    | ok grown =>
        obtain ⟨hfits, hcapacity, hgrown⟩ := @grow_eq_ok bits world table fd grown.1 grown.2 hgrow
        have hnew := newCapacity_eq hbits hpos hlt hfits
        refine iff_of_true ?_ ⟨hpos, .inr (.inl hfits)⟩
        rw [ok_bind]
        refine setSlot_inside hpos ?_
        rw [hgrown, List.length_append, List.length_replicate]
        omega
  · rw [if_neg hgrows, ok_bind]
    refine iff_of_true (setSlot_inside hpos (by omega)) ⟨hpos, .inl (by omega)⟩

/-- When it returns, the table is sound and has the other slots it had. -/
theorem fileTableSet_eq_ok {after : World} (hsound : table.Sound) (hbits : bits ≤ 64)
    (hlt : fd < 2 ^ (bits - 1))
    (hset : fileTableSet bits world table fd slot = .ok (next, after)) :
    next.Sound ∧ ∀ other : Nat, (other : Int) ≠ fd → next.slot? other = table.slot? other := by
  obtain ⟨⟨grown, middle⟩, hgrow, hset⟩ := bind_eq_ok.mp hset
  obtain ⟨hpos, hplace, rfl⟩ := setSlot_eq_ok hset
  have hgrown : grown.Sound ∧ ∀ other, grown.slot? other = table.slot? other := by
    unfold withRoom at hgrow
    by_cases hgrows : table.fileCapacity ≤ sizeT fd
    · rw [if_pos hgrows] at hgrow
      obtain ⟨hfits, hcapacity, hslots⟩ := grow_eq_ok hgrow
      have hnew := newCapacity_eq hbits hpos hlt hfits
      refine ⟨⟨by omega, ?_, by rwa [hcapacity]⟩, slot?_grown hslots⟩
      have hlimit := limit_le hbits
      have hsize := sizeT_of_nonneg hpos (by omega)
      have hlength := hsound.slots
      rw [hslots, List.length_append, List.length_replicate, hcapacity]
      omega
    · rw [if_neg hgrows] at hgrow
      cases hgrow
      exact ⟨hsound, fun _ => rfl⟩
  obtain ⟨hsoundGrown, hsame⟩ := hgrown
  refine ⟨⟨hsoundGrown.pos, ?_, hsoundGrown.bytes⟩, fun other hother => ?_⟩
  · rw [List.length_set]
    exact hsoundGrown.slots
  · rw [slot?_set (by omega), hsame]

/-! ## Calls -/

/-- A call that sets a slot, behind whatever it has done before, is as it should be exactly if the
descriptor can be set. -/
theorem checked_set_iff (hsound : table.Sound) (hbits : bits ≤ 64) (hlt : fd < 2 ^ (bits - 1))
    (value : Int) : Checked table fd (do
      let (table, world) ← fileTableSet bits world table fd slot
      return (.ok value, table, world)) ↔ Settable bits world table fd := by
  have hinside : (do
      let (table, world) ← fileTableSet bits world table fd slot
      return (Except.ok value, table, world) : Except Halt (Except Errno Int × Table × World)) ≠
        .error .outside ↔ fileTableSet bits world table fd slot ≠ .error .outside := by
    cases fileTableSet bits world table fd slot with
    | error halt => simp
    | ok result => simp
  constructor
  · intro hchecked
    rcases lt_or_ge fd 0 with hneg | hpos
    · obtain ⟨error, after, hcall⟩ := hchecked.negative hneg
      obtain ⟨result, hset, -⟩ := bind_eq_ok.mp hcall
      exact absurd hset (fileTableSet_of_neg hneg result)
    · exact (fileTableSet_inside_iff hsound hbits hpos hlt).mp (hinside.mp hchecked.inside)
  · intro hsettable
    have hpos := hsettable.1
    have hspec {result : Except Errno Int} {next : Table} {after : World} (hcall : (do
        let (table, world) ← fileTableSet bits world table fd slot
        return (Except.ok value, table, world)) = .ok (result, next, after)) :
        next.Sound ∧ ∀ other : Nat, (other : Int) ≠ fd → next.slot? other = table.slot? other := by
      obtain ⟨⟨set, middle⟩, hset, hcall⟩ := bind_eq_ok.mp hcall
      cases hcall
      exact fileTableSet_eq_ok hsound hbits hlt hset
    exact ⟨hinside.mpr ((fileTableSet_inside_iff hsound hbits hpos hlt).mpr hsettable),
      fun _ _ _ hcall => (hspec hcall).1, fun _ _ _ hcall => (hspec hcall).2,
      fun hneg => absurd hneg (by omega)⟩

/-- A call that returns an error with the table as it was is as it should be. -/
theorem checked_error (hsound : table.Sound) (error : Errno) (after : World) :
    Checked table fd (.ok (.error error, table, after)) := by
  refine ⟨nofun, fun _ _ _ hcall => ?_, fun _ _ _ hcall => ?_, fun _ => ⟨error, after, rfl⟩⟩
  · cases hcall
    exact hsound
  · cases hcall
    exact fun _ _ => rfl

/-- A call that stops elsewhere is as it should be if the descriptor is not negative. -/
theorem checked_halt_iff {halt : Halt} (hhalt : halt ≠ .outside) :
    Checked table fd (.error halt) ↔ 0 ≤ fd := by
  constructor
  · intro hchecked
    by_contra hneg
    obtain ⟨_, _, hcall⟩ := hchecked.negative (by omega)
    cases hcall
  · intro hpos
    exact ⟨by simpa using hhalt, nofun, nofun, fun hneg => absurd hneg (by omega)⟩

theorem dupFile_inside (world : World) (source : Slot) : dupFile world source ≠ .error .outside := by
  unfold dupFile
  cases heapAlloc world.heap fileSize with
  | error fault => simp [Except.mapError]
  | ok allocated =>
      obtain ⟨address, _ | file⟩ := source
      · simp [Except.mapError]
      · simp only [Except.mapError, ok_bind]
        cases addReference world.state file.dirent with
        | error stop => simp
        | ok state =>
            simp only [ok_bind]
            cases fileInit state file.dirent file.options <;> simp

/-- What `file_table_openat` does before it sets the slot. -/
theorem openFile_cases (world : World) (node : Nat) (options : Options) :
    (∃ halt, openFile world node options = .error halt ∧ halt ≠ .outside ∧
        ¬Refused world node options) ∨
      (∃ error after, openFile world node options = .ok (.error error, after) ∧
        Refused world node options) ∨
      ∃ slot after, openFile world node options = .ok (.ok slot, after) ∧
        ¬Refused world node options := by
  unfold openFile Refused
  cases halloc : heapAlloc world.heap fileSize with
  | error fault => exact .inl ⟨.heap fault, rfl, by simp, by simp⟩
  | ok allocated =>
      simp only [Except.mapError, ok_bind, fileInit, State.entry]
      cases hentry : world.state.entries node with
      | none => exact .inl ⟨.filesystem .badPointer, rfl, by simp, by simp⟩
      | some entry =>
          simp only [ok_bind]
          by_cases hrefused : entry.type = .directory ∧ options.write = true
          · rw [if_pos hrefused]
            exact .inr (.inl ⟨_, _, rfl, ⟨_, rfl⟩, entry, rfl, hrefused⟩)
          · rw [if_neg hrefused]
            refine .inr (.inr ⟨_, _, rfl, ?_⟩)
            rintro ⟨-, other, hother, hand⟩
            cases hother
            exact hrefused hand

/-- `file_table_dup` checks its descriptors as far as the first is not negative, or the second is not
open. -/
theorem dup_checked_iff (hsound : table.Sound) (hbits : bits ≤ 64) (hdst : dst < 2 ^ (bits - 1))
    (hsrc : -2 ^ (bits - 1) ≤ src ∧ src < 2 ^ (bits - 1)) :
    Checked table dst (fileTableDup bits world table dst src) ↔ ¬table.Open src ∨
      0 ≤ dst ∧ ∀ source slot after, table.slot? src.toNat = some source →
        dupFile world source = .ok (slot, after) → Settable bits after table dst := by
  have hlimit := limit_le hbits
  have hslots := hsound.slots
  have hbytes := hsound.bytes
  unfold slotSize at hbytes
  unfold fileTableDup
  by_cases hclosed : table.fileCapacity ≤ sizeT src
  · rw [if_pos hclosed]
    refine iff_of_true (checked_error hsound _ _) (.inl ?_)
    rintro ⟨hpos, hopen⟩
    rw [sizeT_of_nonneg hpos (by omega)] at hclosed
    simp [Table.slot?, List.getElem?_eq_none (by omega : table.slots.length ≤ src.toNat)] at hopen
  · have hpos : 0 ≤ src := by
      by_contra hneg
      have hlarge := @sizeT_of_neg src (by omega) (by omega)
      omega
    have hsize := sizeT_of_nonneg hpos (by omega)
    have hlt : src.toNat < table.slots.length := by omega
    rw [if_neg hclosed, if_neg (by omega), List.getElem?_eq_getElem hlt]
    have hslot : table.slot? src.toNat = table.slots[src.toNat] := by
      rw [Table.slot?, List.getElem?_eq_getElem hlt]
      rfl
    rw [Table.Open, hslot]
    cases table.slots[src.toNat] with
    | none => exact iff_of_true (checked_error hsound _ _) (.inl (by simp))
    | some source =>
        simp only [hpos, Option.isSome_some, and_self, not_true_eq_false, false_or,
          Option.some.injEq]
        have hinside := dupFile_inside world source
        cases hdup : dupFile world source with
        | error halt =>
            rw [error_bind, checked_halt_iff (by rintro rfl; exact hinside hdup)]
            refine ⟨fun hpos => ⟨hpos, fun other slot after hsame hother => ?_⟩, fun hand => hand.1⟩
            rw [← hsame, hdup] at hother
            cases hother
        | ok made =>
            obtain ⟨slot, after⟩ := made
            rw [ok_bind]
            rw [checked_set_iff hsound hbits hdst 0]
            constructor
            · intro hsettable
              refine ⟨hsettable.1, fun other slot' after' hsame hother => ?_⟩
              rw [← hsame, hdup] at hother
              cases hother
              exact hsettable
            · exact fun hand => hand.2 source slot after rfl hdup

/-- `file_table_openat` checks its descriptor as far as it is not negative, or the entry is refused. -/
theorem openat_checked_iff (hsound : table.Sound) (hbits : bits ≤ 64) (hfd : fd < 2 ^ (bits - 1)) :
    Checked table fd (fileTableOpenat bits world table fd node options) ↔
      Refused world node options ∨ 0 ≤ fd ∧ ∀ slot after,
        openFile world node options = .ok (.ok slot, after) → Settable bits after table fd := by
  unfold fileTableOpenat
  rcases openFile_cases world node options with
    ⟨halt, hopen, hhalt, hallowed⟩ | ⟨error, after, hopen, hrefused⟩ | ⟨slot, after, hopen, hallowed⟩
  · rw [hopen, error_bind, checked_halt_iff hhalt]
    simp [hallowed]
  · rw [hopen, ok_bind]
    exact iff_of_true (checked_error hsound _ _) (.inl hrefused)
  · rw [hopen, ok_bind]
    simp only
    rw [checked_set_iff hsound hbits hfd fd]
    constructor
    · intro hsettable
      refine .inr ⟨hsettable.1, fun slot' after' hother => ?_⟩
      cases hother
      exact hsettable
    · rintro (hrefused | ⟨-, hsettable⟩)
      · exact absurd hrefused hallowed
      · exact hsettable slot after rfl

/-- Both calls check their descriptors exactly if the one to set is not negative and the table can
have it, or the call returns an error for another reason before it sets the slot. -/
theorem descriptors_checked_iff (hsound : table.Sound) (hbits : bits ≤ 64)
    (hdst : dst < 2 ^ (bits - 1)) (hsrc : -2 ^ (bits - 1) ≤ src ∧ src < 2 ^ (bits - 1))
    (node : Nat) (options : Options) :
    (Checked table dst (fileTableDup bits world table dst src) ↔ ¬table.Open src ∨
      0 ≤ dst ∧ ∀ source slot after, table.slot? src.toNat = some source →
        dupFile world source = .ok (slot, after) → Settable bits after table dst) ∧
    (Checked table dst (fileTableOpenat bits world table dst node options) ↔
      Refused world node options ∨ 0 ≤ dst ∧ ∀ slot after,
        openFile world node options = .ok (.ok slot, after) → Settable bits after table dst) :=
  ⟨dup_checked_iff hsound hbits hdst hsrc, openat_checked_iff hsound hbits hdst⟩

/-- A table of one slot with an open file. -/
def oneFile : Table := ⟨1, 4096, [some ⟨8192, some ⟨0, ⟨true, true⟩, 0, none⟩⟩]⟩

/-- A fresh heap, and the root directory. -/
def boot : World :=
  ⟨Heap.heapInit fun _ => 0, ⟨fun id => if id = 0 then some ⟨none, [], 2, .device, some 0, []⟩ else none, 1⟩⟩

theorem oneFile_sound : oneFile.Sound := ⟨by decide, rfl, by decide⟩

/-- The file is duplicated to descriptor 5, and so an entry is opened there. -/
theorem descriptors_checked_five :
    Checked oneFile 5 (fileTableDup 32 boot oneFile 5 0) ∧
      Checked oneFile 5 (fileTableOpenat 32 boot oneFile 5 0 ⟨true, false⟩) :=
  have hiff := @descriptors_checked_iff 32 boot oneFile 5 0 oneFile_sound (by decide) (by decide)
    (by decide) 0 ⟨true, false⟩
  ⟨hiff.1.mpr (.inr ⟨by decide, fun _ _ _ _ _ => ⟨by decide, .inr (.inl (by decide))⟩⟩),
    hiff.2.mpr (.inr ⟨by decide, fun _ _ _ => ⟨by decide, .inr (.inl (by decide))⟩⟩)⟩

/-- The file is duplicated to descriptor -1. -/
theorem not_descriptors_checked_negative :
    oneFile.Sound ∧ ¬Checked oneFile (-1) (fileTableDup 32 boot oneFile (-1) 0) := by
  refine ⟨oneFile_sound, fun hchecked => ?_⟩
  rcases (dup_checked_iff oneFile_sound (by decide) (by decide) (by decide)).mp hchecked with
    hclosed | ⟨hpos, -⟩
  · exact hclosed ⟨by decide, rfl⟩
  · exact absurd hpos (by decide)

end PKernel.Vfs.Arguments
