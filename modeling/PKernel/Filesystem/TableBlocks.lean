import PKernel.Filesystem.DescriptorArguments

/-! # Tables in blocks of the heap

The rest of `file_table.c` on tables in the heap. Where the heap has what a call asks for, the call
does to a table what the call without a heap does to the list of its files.
-/

namespace PKernel.Vfs.Arguments

open Heap (heapAlloc heapFree heapRealloc)

/-! ## The calls -/

/-- `file_table_init`. -/
def fileTableInit (heap : Heap) : Except Halt (Table × Heap) := do
  let (heap, files) ← (heapAlloc heap slotSize).mapError .heap
  return (⟨1, files, [none]⟩, heap)

/-- `file_table_add`. The slot it finds is empty, so that it is set as `file_table_set` does. -/
def fileTableAdd (bits : Nat) (world : World) (table : Table) (slot : Slot) :
    Except Halt (Int × Table × World) := do
  let fd : Nat := table.slots.findIdx Option.isNone
  let (table, world) ← fileTableSet bits world table fd slot
  return (fd, table, world)

/-- `file_table_open`. -/
def fileTableOpen (bits : Nat) (world : World) (table : Table) (node : Nat) (options : Options) :
    Except Halt (Except Errno Int × Table × World) := do
  let (result, world) ← openFile world node options
  match result with
  | .error error => return (.error error, table, world)
  | .ok slot =>
      let (fd, table, world) ← fileTableAdd bits world table slot
      return (.ok fd, table, world)

/-- `file_table_close`. -/
def fileTableClose (world : World) (table : Table) (fd : Int) :
    Except Halt (Except Errno Int × Table × World) :=
  if table.fileCapacity ≤ sizeT fd then return (.error .badFd, table, world)
  else if fd < 0 then throw .outside
  else
    match table.slots[fd.toNat]? with
    | none => throw .outside
    | some none => return (.error .badFd, table, world)
    | some old => do
        let world ← closeOld world old
        return (.ok 0, { table with slots := table.slots.set fd.toNat none }, world)

/-- The loop of `file_table_clone`. -/
def cloneSlots (world : World) : List (Option Slot) → Except Halt (List (Option Slot) × World)
  | [] => .ok ([], world)
  | none :: rest => do
      let (slots, world) ← cloneSlots world rest
      return (none :: slots, world)
  | some ⟨_, none⟩ :: _ => .error (.filesystem .badPointer)
  | some ⟨_, some file⟩ :: rest => do
      let (heap, address) ← (heapAlloc world.heap fileSize).mapError .heap
      let (copy, state) ← (fileClone world.state file).mapError .filesystem
      let (slots, world) ← cloneSlots ⟨heap, state⟩ rest
      return (some ⟨address, some copy⟩ :: slots, world)

/-- `file_table_clone`. -/
def fileTableClone (world : World) (dst src : Table) : Except Halt (Table × World) := do
  let (heap, files) ← (heapRealloc world.heap dst.files
    (u64 (src.fileCapacity * slotSize))).mapError .heap
  let (slots, world) ← cloneSlots { world with heap } src.slots
  return (⟨src.fileCapacity, files, slots⟩, world)

/-! ## What the heap has to have -/

/-- A `file_table_set` finds a block for a table that has to grow, and what it frees is a block. -/
def Served (bits : Nat) (world : World) (table : Table) (fd : Nat) : Prop :=
  (fd : Int) < 2 ^ (bits - 1) ∧
    if fd < table.fileCapacity then
      ∀ old, table.slot? fd = some old → ∃ freed, heapFree world.heap old.address = .ok freed
    else newCapacity bits fd * slotSize < 2 ^ 64 ∧
      ∃ grown, heapRealloc world.heap table.files (newCapacity bits fd * slotSize) = .ok grown

/-- There is a block for each file that is copied. -/
def CopiesServed : Heap → List (Option Slot) → Prop
  | _, [] => True
  | heap, none :: rest => CopiesServed heap rest
  | heap, some _ :: rest => ∃ next address, heapAlloc heap fileSize = .ok (next, address) ∧
      CopiesServed next rest

/-! ## Tables and lists -/

/-- The list of the files of a table. -/
def Table.plain (table : Table) : FileTable := table.slots.map fun slot => slot.bind Slot.file

/-- A table as it is between two calls: each of its slots in use has a file. -/
structure Table.Held (table : Table) : Prop where
  sound : table.Sound
  filled : ∀ slot, some slot ∈ table.slots → ∃ file, slot.file = some file

/-- A table and the entries with a list and the entries. -/
def Shows (result : Table × World) (plain : FileTable × State) : Prop :=
  result.1.Held ∧ plain = (result.1.plain, result.2.state)

section Alike

variable {α β γ δ : Type} {related : α → β → Prop} {after : γ → δ → Prop}

/-- Both calls stop for the same reason, or both return, with results that belong together. -/
inductive Alike (related : α → β → Prop) : Except Halt α → Except Stop β → Prop
  | stop (stop : Stop) : Alike related (.error (.filesystem stop)) (.error stop)
  | ok {result : α} {result' : β} (hresult : related result result') :
      Alike related (.ok result) (.ok result')

namespace Alike

theorem bind {call : Except Halt α} {call' : Except Stop β} {next : α → Except Halt γ}
    {next' : β → Except Stop δ} (hcall : Alike related call call')
    (hnext : ∀ result result', related result result' → Alike after (next result) (next' result')) :
    Alike after (call >>= next) (call' >>= next') := by
  cases hcall with
  | stop stop => exact .stop stop
  | ok hresult => exact hnext _ _ hresult

theorem mapError (call : Except Stop α) : Alike Eq (call.mapError .filesystem) call := by
  cases call with
  | error stop => exact .stop stop
  | ok result => exact .ok rfl

/-- Results that are told about in another way. -/
theorem map {call : Except Halt α} {call' : Except Stop β} (hcall : Alike related call call')
    {f : β → γ} {related' : α → γ → Prop}
    (hf : ∀ result result', related result result' → related' result (f result')) :
    Alike related' call (call'.map f) := by
  cases hcall with
  | stop stop => exact .stop stop
  | ok hresult => exact .ok (hf _ _ hresult)

theorem map_eq {call : Except Halt α} {call' : Except Stop β} {f : α → β} (hcall : Alike related call call')
    (hf : ∀ result result', related result result' → result' = f result) :
    call.map f = call'.mapError .filesystem := by
  cases hcall with
  | stop stop => rfl
  | ok hresult => exact congrArg Except.ok (hf _ _ hresult).symm

theorem of_ok {call : Except Halt α} {call' : Except Stop β} (hcall : Alike related call call')
    {result : α} (hok : call = .ok result) : ∃ result', call' = .ok result' ∧ related result result' := by
  cases hcall with
  | stop stop => cases hok
  | ok hresult => exact ⟨_, rfl, Except.ok.inj hok ▸ hresult⟩

end Alike

end Alike

variable {bits fd dst src node : Nat} {world : World} {table fresh : Table} {slot : Slot}
  {file : File} {options : Options} {heap : Heap} {address : Nat}

theorem Table.plain_file? (table : Table) (fd : Nat) :
    table.plain.file? fd = (table.slot? fd).bind Slot.file := by
  rw [FileTable.file?, Table.plain, Table.slot?, List.getElem?_map]
  cases table.slots[fd]? <;> rfl

/-- The first empty slot is the first place without a file. -/
theorem Table.Held.findIdx (hheld : table.Held) :
    table.plain.findIdx Option.isNone = table.slots.findIdx Option.isNone := by
  have hslots := hheld.filled
  unfold Table.plain
  generalize table.slots = slots at hslots
  induction slots with
  | nil => rfl
  | cons slot rest ih =>
      rw [List.map_cons, List.findIdx_cons, List.findIdx_cons,
        ih fun other hother => hslots other (List.mem_cons_of_mem _ hother)]
      cases slot with
      | none => rfl
      | some slot =>
          obtain ⟨file, hfile⟩ := hslots slot List.mem_cons_self
          simp [hfile]

theorem Table.Held.set (hheld : table.Held) {value : Option Slot}
    (hvalue : ∀ slot, value = some slot → ∃ file, slot.file = some file) :
    Table.Held { table with slots := table.slots.set fd value } where
  sound := ⟨hheld.sound.pos, by rw [List.length_set, hheld.sound.slots], hheld.sound.bytes⟩
  filled slot hslot := by
    rcases List.mem_or_eq_of_mem_set hslot with hold | hnew
    · exact hheld.filled slot hold
    · exact hvalue slot hnew.symm

/-- A slot of the block is set, and a file that was there is closed and its block freed. -/
theorem setSlot_alike (hheld : table.Held) (hlt : fd < table.slots.length)
    (hfree : ∀ old, table.slot? fd = some old →
      ∃ freed, heapFree world.heap old.address = .ok freed) (hfile : slot.file = some file) :
    Alike Shows (setSlot world table fd slot) (Vfs.fileTableSet world.state table.plain fd file) := by
  have hgrow : fd + 1 - table.plain.length = 0 := by
    rw [Table.plain, List.length_map]
    omega
  have hset : ∀ after : World, Shows ({ table with slots := table.slots.set fd (some slot) }, after)
      (table.plain.set fd (some file), after.state) := by
    refine fun after => ⟨hheld.set fun _ hnew => ⟨file, Option.some.inj hnew ▸ hfile⟩, ?_⟩
    rw [Table.plain, Table.plain, List.map_set, Option.bind_some, hfile]
  have hslot : table.slot? fd = table.slots[fd] := by
    rw [Table.slot?, List.getElem?_eq_getElem hlt]
    rfl
  have hplain := table.plain_file? fd
  rw [hslot] at hfree hplain
  unfold setSlot Vfs.fileTableSet
  rw [if_neg (by omega), Int.toNat_natCast, List.getElem?_eq_getElem hlt, hgrow,
    List.replicate_zero, List.append_nil]
  cases hold : table.slots[fd] with
  | none =>
      rw [hold] at hplain
      simp only [hplain, Option.bind_none, closeOld, ok_bind, pure_eq_ok]
      exact .ok (hset world)
  | some old =>
      obtain ⟨address, oldFile⟩ := old
      obtain ⟨oldFile, rfl⟩ := hheld.filled _ (hold ▸ List.getElem_mem hlt)
      obtain ⟨freed, hfreed⟩ := hfree _ hold
      rw [hold] at hplain
      simp only [hplain, Option.bind_some, closeOld]
      cases fileClose world.state oldFile with
      | error stop => exact .stop stop
      | ok state =>
          simp only [Except.mapError, ok_bind, hfreed, pure_eq_ok]
          exact .ok (hset ⟨freed, state⟩)

/-- The list of a table that has grown. -/
theorem fileTableSet_grown (state : State) (list : FileTable) (fd : Nat) (file : File) :
    Vfs.fileTableSet state (list ++ List.replicate (fd + 1 - list.length) none) fd file =
      Vfs.fileTableSet state list fd file := by
  have hlength : fd + 1 - (list ++ List.replicate (fd + 1 - list.length) (none : Option File)).length =
      0 := by
    rw [List.length_append, List.length_replicate]
    omega
  unfold Vfs.fileTableSet
  rw [hlength, List.replicate_zero, List.append_nil]

/-- `file_table_set` does what it does to the list. -/
theorem fileTableSet_alike (hbits : bits ≤ 64) (hheld : table.Held)
    (hserved : Served bits world table fd) (hfile : slot.file = some file) :
    Alike Shows (fileTableSet bits world table fd slot)
      (Vfs.fileTableSet world.state table.plain fd file) := by
  obtain ⟨hlimit, hserved⟩ := hserved
  have hmax := limit_le hbits
  have hsize : sizeT fd = fd := sizeT_of_nonneg (by omega) (by omega)
  have hslots := hheld.sound.slots
  unfold fileTableSet withRoom
  rw [hsize]
  by_cases hinside : fd < table.fileCapacity
  · rw [if_pos hinside] at hserved
    rw [if_neg (by omega), ok_bind]
    exact setSlot_alike hheld (by omega) hserved hfile
  · rw [if_neg hinside] at hserved
    obtain ⟨hfits, ⟨heap, files⟩, hrealloc⟩ := hserved
    have hcapacity : newCapacity bits fd = fd + 1 := newCapacity_eq hbits (by omega) hlimit hfits
    rw [hcapacity] at hfits hrealloc
    have hroom : ¬(fd + 1) * slotSize / slotSize < fd + 1 := by
      rw [Nat.mul_div_cancel _ (by decide)]
      exact Nat.lt_irrefl _
    have hgrown : Table.Held ⟨fd + 1, files,
        table.slots ++ List.replicate (fd + 1 - table.slots.length) none⟩ := by
      refine ⟨⟨Nat.succ_pos fd, ?_, hfits⟩, fun old hold => ?_⟩
      · rw [List.length_append, List.length_replicate]
        dsimp only
        omega
      · rcases List.mem_append.mp hold with hmem | hmem
        · exact hheld.filled old hmem
        · cases (List.mem_replicate.mp hmem).2
    rw [if_pos (by omega), grow, hcapacity, u64_eq_self hfits, hrealloc]
    simp only [Except.mapError, ok_bind, if_neg hroom, pure_eq_ok]
    rw [← fileTableSet_grown]
    have hplain : Table.plain ⟨fd + 1, files,
        table.slots ++ List.replicate (fd + 1 - table.slots.length) none⟩ =
          table.plain ++ List.replicate (fd + 1 - table.plain.length) none := by
      simp [Table.plain]
    rw [← hplain]
    refine @setSlot_alike fd { world with heap } _ slot file hgrown ?_ (fun old hold => ?_) hfile
    · rw [List.length_append, List.length_replicate]
      omega
    · rw [Table.slot?, List.getElem?_append_right (by omega), List.getElem?_replicate] at hold
      split at hold <;> cases hold

/-- `file_table_open` opens a file at the first empty slot. -/
theorem fileTableOpen_eq (bits : Nat) (world : World) (table : Table) (node : Nat)
    (options : Options) : fileTableOpen bits world table node options =
      fileTableOpenat bits world table (table.slots.findIdx Option.isNone : Nat) node options := by
  unfold fileTableOpen fileTableOpenat fileTableAdd
  cases openFile world node options with
  | error halt => rfl
  | ok opened =>
      obtain ⟨error | slot, after⟩ := opened
      · rfl
      · simp only [ok_bind]
        cases fileTableSet bits after table (table.slots.findIdx Option.isNone : Nat) slot <;> rfl

/-- The slots are copied one after the other. -/
theorem cloneSlots_alike {slots : List (Option Slot)}
    (hfilled : ∀ slot, some slot ∈ slots → ∃ file, slot.file = some file)
    (hserved : CopiesServed world.heap slots) :
    Alike (fun result plain => result.1.length = slots.length ∧
        (∀ slot, some slot ∈ result.1 → ∃ file, slot.file = some file) ∧
        plain = (result.1.map fun slot => slot.bind Slot.file, result.2.state))
      (cloneSlots world slots)
      (Vfs.fileTableClone world.state (slots.map fun slot => slot.bind Slot.file)) := by
  induction slots generalizing world with
  | nil => exact .ok ⟨rfl, nofun, rfl⟩
  | cons slot rest ih =>
      have hrest := fun slot hslot => hfilled slot (List.mem_cons_of_mem _ hslot)
      cases slot with
      | none =>
          refine (ih hrest hserved).bind fun result plain hresult => ?_
          obtain ⟨hlength, hcopies, rfl⟩ := hresult
          exact .ok ⟨congrArg Nat.succ hlength, fun slot hslot => hcopies slot (by simpa using hslot),
            rfl⟩
      | some slot =>
          obtain ⟨address, old⟩ := slot
          obtain ⟨file, rfl⟩ := hfilled _ List.mem_cons_self
          obtain ⟨heap, fresh, halloc, hserved⟩ := hserved
          rw [List.map_cons, Option.bind_some, cloneSlots, Vfs.fileTableClone, halloc]
          refine (Alike.mapError _).bind fun copied copied' hcopied => ?_
          obtain rfl := hcopied
          refine (@ih ⟨heap, copied.2⟩ hrest hserved).bind fun result plain hresult => ?_
          obtain ⟨hlength, hcopies, rfl⟩ := hresult
          refine .ok ⟨congrArg Nat.succ hlength, fun slot hslot => ?_, rfl⟩
          rcases List.mem_cons.mp hslot with hnew | hold
          · exact ⟨copied.1, by rw [Option.some.inj hnew]⟩
          · exact hcopies slot hold

/-- `file_table_clone` does what it does to the list. -/
theorem fileTableClone_alike (hheld : table.Held) {grown : Heap × Nat}
    (hrealloc : heapRealloc world.heap fresh.files (u64 (table.fileCapacity * slotSize)) = .ok grown)
    (hserved : CopiesServed grown.1 table.slots) :
    Alike Shows (fileTableClone world fresh table) (Vfs.fileTableClone world.state table.plain) := by
  have hslots := @cloneSlots_alike { world with heap := grown.1 } table.slots hheld.filled hserved
  rw [fileTableClone, hrealloc]
  rw [← bind_pure (Vfs.fileTableClone world.state table.plain)]
  refine hslots.bind fun result plain hresult => ?_
  obtain ⟨hlength, hfilled, rfl⟩ := hresult
  exact .ok ⟨⟨⟨hheld.sound.pos, hlength.trans hheld.sound.slots, hheld.sound.bytes⟩, hfilled⟩, rfl⟩

end PKernel.Vfs.Arguments
