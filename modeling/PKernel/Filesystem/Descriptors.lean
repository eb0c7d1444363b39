import Mathlib.Data.Set.Card
import Mathlib.Order.Lattice.Nat
import PKernel.Library.Transition
import PKernel.Filesystem.EntryOperations
import PKernel.Filesystem.TableBlocks

/-! # Descriptor tables as partial maps

A table of slots stands for a partial map from descriptors to open files. Where the heap has
what they ask for, the operations of `file_table.c` are the operations on maps that change one
place, and a clone copies every place. A table that has to grow for a descriptor without room
in the heap makes the kernel panic.
-/

namespace PKernel.Vfs.Descriptors

open Library.Transition
open Arguments (Alike Halt Served CopiesServed Shows Table)
open Heap (heapAlloc heapFree heapRealloc)
open Function (update update_apply update_of_ne update_self)
open FileTable (file?)

/-! ## Partial maps -/

/-- Open files by their descriptors. -/
abbrev FileMap := Nat → Option File

/-- The least descriptor that is not in use. -/
noncomputable def leastFree (files : FileMap) : Nat := sInf {fd | files fd = none}

/-- A file at a descriptor. What was there is closed. -/
def put (state : State) (files : FileMap) (fd : Nat) (file : File) :
    Except Stop (FileMap × State) := do
  let state ← match files fd with
    | some old => fileClose state old
    | none => pure state
  return (update files fd (some file), state)

/-- A new file at a descriptor. -/
def openedAt (state : State) (files : FileMap) (fd node : Nat) (options : Options) :
    Except Stop (Except Errno Nat × FileMap × State) := do
  match ← fileInit state node options with
  | .error errno => return (.error errno, files, state)
  | .ok file =>
      let (files, state) ← put state files fd file
      return (.ok fd, files, state)

/-- A descriptor that is not in use any more. -/
def closed (state : State) (files : FileMap) (fd : Nat) :
    Except Stop (Except Errno Nat × FileMap × State) := do
  match files fd with
  | none => return (.error .badFd, files, state)
  | some file =>
      let state ← fileClose state file
      return (.ok 0, update files fd none, state)

/-- A new file at the least free descriptor. -/
noncomputable def opened (state : State) (files : FileMap) (node : Nat) (options : Options) :
    Except Stop (Except Errno Nat × FileMap × State) :=
  openedAt state files (leastFree files) node options

/-- The position before the first node of a directory, and none in another file. -/
def firstNode (state : State) (dirent : Nat) : Option Name :=
  (state.entries dirent).bind fun entry => if entry.type = .directory then entry.first else none

/-- A second file on the same entry with the same options, from the beginning. -/
def reopened (state : State) (source : File) : File :=
  ⟨source.dirent, source.options, 0, firstNode state source.dirent⟩

/-- Such a file at another descriptor, or at the same. -/
def duplicated (state : State) (files : FileMap) (dst src : Nat) :
    Except Stop (Except Errno Nat × FileMap × State) := do
  match files src with
  | none => return (.error .badFd, files, state)
  | some source =>
      let state ← addReference state source.dirent
      let (files, state) ← put state files dst (reopened state source)
      return (.ok 0, files, state)

/-- A file with the same entry, options and offset. -/
def copied (state : State) (source : File) : File :=
  { source with currentNode := firstNode state source.dirent }

/-- The descriptors in use for an entry. -/
def usersOf (files : FileMap) (dirent : Nat) : Set Nat :=
  {fd | (files fd).map File.dirent = some dirent}

/-- More references to the entries. -/
def withReferences (state : State) (more : Nat → Nat) : State :=
  { state with entries := fun id => (state.entries id).map fun entry =>
      { entry with references := entry.references + more id } }

open Classical in
/-- The copy of a map: each of its files gives its entry one more reference. -/
noncomputable def cloned (state : State) (files : FileMap) : Except Stop (FileMap × State) :=
  if ∃ fd file, files fd = some file ∧ state.entries file.dirent = none then .error .badPointer
  else .ok (fun fd => (files fd).map (copied state),
    withReferences state fun dirent => (usersOf files dirent).ncard)

/-! ## Operations -/

/-- The calls for one table. -/
inductive TableCall where
  | open (node : Nat) (options : Options)
  | openat (fd node : Nat) (options : Options)
  | dup (dst src : Nat)
  | close (fd : Nat)
deriving Repr

inductive Op where
  /-- A table for a new process. -/
  | init
  | call (table : Nat) (request : TableCall)
  /-- A copy of a table into the table of a new process. -/
  | clone (table : Nat)
deriving Repr

structure World where
  heap : Heap
  state : State
  tables : List Table

section Perform

variable (bits : Nat)

def TableCall.perform (world : Arguments.World) (table : Table) :
    TableCall → Except Halt (Except Errno Int × Table × Arguments.World)
  | .open node options => Arguments.fileTableOpen bits world table node options
  | openat fd node options => Arguments.fileTableOpenat bits world table fd node options
  | dup dst src => Arguments.fileTableDup bits world table dst src
  | close fd => Arguments.fileTableClose world table fd

/-- What a call returns, and the world after it. A call for a table that is not there does
nothing. -/
def Op.perform (world : World) : Op → Except Halt (Except Errno Nat × World)
  | .init => do
      let (table, heap) ← Arguments.fileTableInit world.heap
      return (.ok 0, { world with heap, tables := world.tables ++ [table] })
  | .call index request =>
      match world.tables[index]? with
      | none => .ok (.ok 0, world)
      | some table => do
          let (result, table, after) ← request.perform bits ⟨world.heap, world.state⟩ table
          return (result.map Int.toNat, ⟨after.heap, after.state, world.tables.set index table⟩)
  | .clone index =>
      match world.tables[index]? with
      | none => .ok (.ok 0, world)
      | some table => do
          let (fresh, heap) ← Arguments.fileTableInit world.heap
          let (copy, after) ← Arguments.fileTableClone ⟨heap, world.state⟩ fresh table
          return (.ok 0, ⟨after.heap, after.state, world.tables ++ [copy]⟩)

/-- There is a block for a file, and what a `file_table_set` of it needs if it can be opened. -/
def FileServed (world : Arguments.World) (table : Table) (fd node : Nat) (options : Options) :
    Prop :=
  ∃ heap address, heapAlloc world.heap Arguments.fileSize = .ok (heap, address) ∧
    ∀ file, fileInit world.state node options = .ok (.ok file) →
      Served bits { world with heap } table fd

/-- The heap has what a call for a table asks for: a block for a new file, and for a table that
grows. -/
def TableCall.HasMemory (world : Arguments.World) (table : Table) : TableCall → Prop
  | .open node options =>
      FileServed bits world table (table.slots.findIdx Option.isNone) node options
  | openat fd node options => FileServed bits world table fd node options
  | dup dst src => (src : Int) < 2 ^ (bits - 1) ∧ ((table.slot? src).isSome → ∃ heap address,
      heapAlloc world.heap Arguments.fileSize = .ok (heap, address) ∧
        Served bits { world with heap } table dst)
  | close fd => (fd : Int) < 2 ^ (bits - 1) ∧
      ∀ slot, table.slot? fd = some slot → ∃ freed, heapFree world.heap slot.address = .ok freed

/-- The heap has what a call asks for: a block for a new table besides. -/
def HasMemory (world : World) : Op → Prop
  | .init => ∃ allocated, heapAlloc world.heap Arguments.slotSize = .ok allocated
  | .call index request => ∀ table, world.tables[index]? = some table →
      request.HasMemory bits ⟨world.heap, world.state⟩ table
  | .clone index => ∀ table, world.tables[index]? = some table →
      ∃ heap files grown, heapAlloc world.heap Arguments.slotSize = .ok (heap, files) ∧
        heapRealloc heap files (u64 (table.fileCapacity * Arguments.slotSize)) = .ok grown ∧
        CopiesServed grown.1 table.slots

end Perform

/-- The maps of the processes. -/
structure MapWorld where
  state : State
  maps : List FileMap

noncomputable def TableCall.performMap (state : State) (files : FileMap) :
    TableCall → Except Stop (Except Errno Nat × FileMap × State)
  | .open node options => opened state files node options
  | openat fd node options => openedAt state files fd node options
  | dup dst src => duplicated state files dst src
  | close fd => closed state files fd

/-- The same calls on maps. -/
noncomputable def Op.performMap (world : MapWorld) : Op → Except Stop (Except Errno Nat × MapWorld)
  | .init => .ok (.ok 0, { world with maps := world.maps ++ [fun _ => none] })
  | .call index request =>
      match world.maps[index]? with
      | none => .ok (.ok 0, world)
      | some files => do
          let (result, files, state) ← request.performMap world.state files
          return (result, ⟨state, world.maps.set index files⟩)
  | .clone index =>
      match world.maps[index]? with
      | none => .ok (.ok 0, world)
      | some files => do
          let (copy, state) ← cloned world.state files
          return (.ok 0, ⟨state, world.maps ++ [copy]⟩)

/-- The maps that the tables stand for. -/
def World.maps (world : World) : MapWorld :=
  ⟨world.state, world.tables.map fun table => table.plain.file?⟩

/-- Entries keep their types and are not made again, whatever else happens to them. -/
structure KeepsTypes (state after : State) : Prop where
  grows : state.next ≤ after.next
  fresh : ∀ id, after.next ≤ id → after.entries id = none
  types : ∀ id < state.next, ∀ entry, after.entries id = some entry →
    ∃ before, state.entries id = some before ∧ entry.type = before.type

/-- Calls by processes, and between them whatever else the kernel does with the heap and the
entries. -/
inductive Step (bits : Nat) (world : World) : Option Op → World → Prop
  | call (op : Op) {result : Except Errno Nat} {next : World}
      (hcall : op.perform bits world = .ok (result, next)) : Step bits world (some op) next
  | elsewhere {after : State} (htypes : KeepsTypes world.state after) (heap : Heap) :
      Step bits world none { world with heap, state := after }

/-- Runs from any state of the heap and the filesystem in which no process has a table. -/
def system (bits : Nat) : System World (Option Op) where
  init world := world.tables = [] ∧ ∀ id, world.state.next ≤ id → world.state.entries id = none
  step := Step bits

/-- The runs in which each call finds what it asks for in the heap. -/
def servedRuns (bits : Nat) : System World (Option Op) :=
  (system bits).restrict fun world label => ∀ op, label = some op → HasMemory bits world op

/-! ## Tables and maps -/

section Tables

variable {state : State} {table : FileTable} {fd dirent : Nat} {file : File}

/-- What `file_table_set` returns is what `put` returns for the map of the table. -/
theorem fileTableSet_map (state : State) (table : FileTable) (fd : Nat) (file : File) :
    (fileTableSet state table fd file).map (Prod.map file? id) =
      put state table.file? fd file := by
  have hset : file? ((table ++ List.replicate (fd + 1 - table.length) none).set fd
      (some file)) = update table.file? fd (some file) := by
    funext other
    rw [FileTable.file?_set (by rw [List.length_append, List.length_replicate]; omega),
      FileTable.file?_grow, update_apply]
  simp only [fileTableSet, put, FileTable.file?_grow]
  cases table.file? fd with
  | none => simp [Except.map, hset]
  | some old =>
      cases hclose : fileClose state old with
      | error stop => simp [Except.map, hclose]
      | ok after => simp [Except.map, hclose, hset]

/-- The first empty slot, or the end of the table, is the least free descriptor. -/
theorem isLeast_findIdx (table : FileTable) :
    IsLeast {fd | table.file? fd = none} (table.findIdx Option.isNone) := by
  constructor
  · rcases Nat.lt_or_ge (table.findIdx Option.isNone) table.length with hlt | hge
    · have hnone : (table[table.findIdx Option.isNone]).isNone = true := List.findIdx_getElem
      change table.file? _ = none
      rw [file?, List.getElem?_eq_getElem hlt]
      exact Option.isNone_iff_eq_none.mp hnone
    · change table.file? _ = none
      rw [file?, List.getElem?_eq_none hge]
      rfl
  · intro other hfree
    by_contra hge
    have hlt := not_le.mp hge
    have hsome := List.not_of_lt_findIdx hlt
    have hbound : other < table.length := hlt.trans_le List.findIdx_le_length
    have hfree : table.file? other = none := hfree
    rw [file?, List.getElem?_eq_getElem hbound] at hfree
    have hnone : table[other] = none := hfree
    rw [hnone] at hsome
    contradiction

theorem leastFree_file? (table : FileTable) :
    leastFree table.file? = table.findIdx Option.isNone := (isLeast_findIdx table).csInf_eq

/-! ### Clones -/

theorem withReferences_entries (more : Nat → Nat) (id : Nat) :
    (withReferences state more).entries id = (state.entries id).map fun entry =>
      { entry with references := entry.references + more id } := rfl

theorem firstNode_withReferences (more : Nat → Nat) (dirent : Nat) :
    firstNode (withReferences state more) dirent = firstNode state dirent := by
  rw [firstNode, firstNode, withReferences_entries]
  cases state.entries dirent <;> rfl

theorem withReferences_add (first second : Nat → Nat) :
    withReferences (withReferences state first) second =
      withReferences state fun dirent => first dirent + second dirent := by
  unfold withReferences
  congr 1
  funext id
  dsimp only
  cases state.entries id with
  | none => rfl
  | some entry => simp [Nat.add_assoc]

theorem addReference_eq {entry : Entry} (hentry : state.entries dirent = some entry) :
    addReference state dirent =
      .ok (withReferences state fun id => if id = dirent then 1 else 0) := by
  rw [addReference, State.entry, hentry, ok_bind, pure_eq_ok, State.set, withReferences]
  congr 2
  funext id
  by_cases hsame : id = dirent
  · rw [hsame, update_self, hentry]
    simp
  · rw [update_of_ne hsame]
    simp [hsame]

/-- One file is cloned: the copy has the entry, the options and the offset. -/
theorem fileClone_eq {entry : Entry} (hentry : state.entries file.dirent = some entry) :
    fileClone state file =
      .ok (copied state file, withReferences state fun id => if id = file.dirent then 1 else 0) := by
  have hafter : (withReferences state fun id => if id = file.dirent then 1 else 0).entry file.dirent =
      .ok { entry with references := entry.references + 1 } := by
    simp [withReferences, State.entry, hentry]
  rw [fileClone, addReference_eq hentry, ok_bind, hafter, ok_bind, pure_eq_ok]
  simp [copied, firstNode, hentry, Entry.first]

theorem fileClone_error (hentry : state.entries file.dirent = none) :
    fileClone state file = .error .badPointer := by
  rw [fileClone, addReference, State.entry, hentry, error_bind, error_bind]

/-- The slots that hold a file on an entry. -/
def uses (dirent : Nat) (slot : Option File) : Bool := slot.map File.dirent = some dirent

/-- A whole table is cloned, with one more reference for each slot that is in use. -/
theorem fileTableClone_eq (hlive : ∀ file, some file ∈ table → state.entries file.dirent ≠ none) :
    fileTableClone state table = .ok (table.map (Option.map (copied state)),
      withReferences state fun dirent => table.countP (uses dirent)) := by
  induction table generalizing state with
  | nil =>
      have hsame : withReferences state (fun _ => 0) = state := by
        unfold withReferences
        congr 1
        funext id
        dsimp only
        cases state.entries id <;> rfl
      simp [fileTableClone, hsame]
  | cons slot rest ih =>
      cases slot with
      | none =>
          rw [fileTableClone, ih fun file hfile => hlive file (List.mem_cons_of_mem _ hfile), ok_bind]
          simp [uses]
      | some file =>
          obtain ⟨entry, hentry⟩ := Option.ne_none_iff_exists'.mp (hlive file List.mem_cons_self)
          rw [fileTableClone, fileClone_eq hentry, ok_bind]
          dsimp only
          rw [ih ?_, ok_bind]
          · have hcopied : copied (withReferences state fun id => if id = file.dirent then 1 else 0) =
                copied state := by
              funext other
              rw [copied, firstNode_withReferences, copied]
            rw [hcopied, withReferences_add]
            dsimp only
            rw [pure_eq_ok, List.map_cons, Option.map_some]
            congr 3
            funext dirent
            rw [List.countP_cons, Nat.add_comm]
            simp [uses, eq_comm]
          · intro other hother
            have hne := hlive other (List.mem_cons_of_mem _ hother)
            simpa [withReferences] using hne

theorem fileTableClone_error {gone : File} (hgone : some gone ∈ table)
    (hentry : state.entries gone.dirent = none) :
    fileTableClone state table = .error .badPointer := by
  induction table generalizing state with
  | nil => simp at hgone
  | cons slot rest ih =>
      cases slot with
      | none =>
          have hrest : some gone ∈ rest := by simpa using hgone
          rw [fileTableClone, ih hrest hentry, error_bind]
      | some file =>
          rw [fileTableClone]
          cases hfile : state.entries file.dirent with
          | none => rw [fileClone_error hfile, error_bind]
          | some entry =>
              rw [fileClone_eq hfile, ok_bind]
              have hne : gone ≠ file := by
                rintro rfl
                simp [hentry] at hfile
              have hrest : some gone ∈ rest := by simpa [hne] using hgone
              dsimp only
              rw [ih hrest (by simp [withReferences, hentry]), error_bind]

/-- Descriptors in use for an entry are counted by going through the slots. -/
theorem usersOf_ncard (table : FileTable) (dirent : Nat) :
    (usersOf table.file? dirent).Finite ∧
      (usersOf table.file? dirent).ncard = table.countP (uses dirent) := by
  induction table with
  | nil =>
      have hempty : usersOf (file? []) dirent = ∅ := by
        ext fd
        simp [usersOf, file?]
      simp [hempty]
  | cons slot rest ih =>
      obtain ⟨hfinite, hcard⟩ := ih
      have hzero : 0 ∉ Nat.succ '' usersOf (file? rest) dirent := by simp
      have hcard' := Set.ncard_image_of_injective (usersOf (file? rest) dirent)
        Nat.succ_injective
      rw [hcard] at hcard'
      by_cases huses : uses dirent slot = true
      · have hsplit : usersOf (file? (slot :: rest)) dirent =
            insert 0 (Nat.succ '' usersOf (file? rest) dirent) := by
          ext fd
          cases fd with
          | zero => simpa [usersOf, file?, uses] using huses
          | succ fd => simp [usersOf, file?]
        rw [hsplit, Set.ncard_insert_of_notMem hzero (hfinite.image _), hcard',
          List.countP_cons_of_pos huses]
        exact ⟨(hfinite.image _).insert 0, rfl⟩
      · have hsplit : usersOf (file? (slot :: rest)) dirent =
            Nat.succ '' usersOf (file? rest) dirent := by
          ext fd
          cases fd with
          | zero => simpa [usersOf, file?, uses] using huses
          | succ fd => simp [usersOf, file?]
        rw [hsplit, hcard', List.countP_cons_of_neg huses]
        exact ⟨hfinite.image _, rfl⟩

theorem mem_table_iff {slot : File} : some slot ∈ table ↔ ∃ fd, table.file? fd = some slot := by
  rw [List.mem_iff_getElem?]
  simp only [file?, Option.join_eq_some_iff]

/-- What `file_table_clone` returns for a table is the copy of its map. -/
theorem fileTableClone_map (state : State) (table : FileTable) :
    (fileTableClone state table).map (Prod.map file? id) = cloned state table.file? := by
  unfold cloned
  split
  next hgone =>
    obtain ⟨fd, gone, hfile, hentry⟩ := hgone
    rw [fileTableClone_error (mem_table_iff.mpr ⟨fd, hfile⟩) hentry]
    rfl
  next hlive =>
    have hlive' : ∀ file, some file ∈ table → state.entries file.dirent ≠ none := by
      intro file hfile hentry
      obtain ⟨fd, hfd⟩ := mem_table_iff.mp hfile
      exact hlive ⟨fd, file, hfd, hentry⟩
    rw [fileTableClone_eq hlive']
    have hcopies : file? (table.map (Option.map (copied state))) =
        fun fd => (table.file? fd).map (copied state) := by
      funext fd
      rw [file?, file?, List.getElem?_map]
      cases table[fd]? <;> rfl
    have hcounts : (fun dirent => (usersOf table.file? dirent).ncard) =
        fun dirent => table.countP (uses dirent) := funext fun dirent => (usersOf_ncard table dirent).2
    rw [hcounts, ← hcopies]
    rfl

end Tables

/-! ## Types of entries -/

namespace KeepsTypes

variable {state middle after : State} {id : Nat}

theorem refl (hfresh : ∀ id, state.next ≤ id → state.entries id = none) : KeepsTypes state state :=
  ⟨Nat.le_refl _, hfresh, fun _ _ entry hentry => ⟨entry, hentry, rfl⟩⟩

theorem trans (hfirst : KeepsTypes state middle) (hsecond : KeepsTypes middle after) :
    KeepsTypes state after where
  grows := hfirst.grows.trans hsecond.grows
  fresh := hsecond.fresh
  types id hid entry hentry := by
    obtain ⟨between, hbetween, htype⟩ :=
      hsecond.types id (Nat.lt_of_lt_of_le hid hfirst.grows) entry hentry
    obtain ⟨before, hbefore, htype'⟩ := hfirst.types id hid between hbetween
    exact ⟨before, hbefore, htype.trans htype'⟩

/-- One entry changes, but not its type, and another may go. -/
theorem set (hfresh : ∀ id, state.next ≤ id → state.entries id = none) {old new : Entry}
    (hold : state.entries id = some old) (htype : new.type = old.type) :
    KeepsTypes state (state.set id new) where
  grows := Nat.le_refl _
  fresh other hle := by
    have hne : other ≠ id := by
      rintro rfl
      simp [hfresh other hle] at hold
    simpa [State.set, hne] using hfresh other hle
  types other _ entry hentry := by
    by_cases hsame : other = id
    · subst hsame
      obtain rfl : new = entry := by simpa [State.set] using hentry
      exact ⟨old, hold, htype⟩
    · exact ⟨entry, by simpa [State.set, hsame] using hentry, rfl⟩

theorem free (hfresh : ∀ id, state.next ≤ id → state.entries id = none) :
    KeepsTypes state (state.free id) where
  grows := Nat.le_refl _
  fresh other hle := by
    simp only [State.free, update_apply]
    split
    · rfl
    · exact hfresh other hle
  types other _ entry hentry := by
    by_cases hsame : other = id
    · simp [State.free, hsame] at hentry
    · exact ⟨entry, by simpa [State.free, hsame] using hentry, rfl⟩

theorem addReference (hfresh : ∀ id, state.next ≤ id → state.entries id = none)
    (hreturn : Vfs.addReference state id = .ok after) : KeepsTypes state after := by
  obtain ⟨entry, hentry, hreturn⟩ := bind_eq_ok.mp hreturn
  cases hreturn
  exact set hfresh (State.entry_eq_ok.mp hentry) rfl

/-- A release changes counts and clears pointers, and entries go. -/
theorem releaseWith (hfresh : ∀ id, state.next ≤ id → state.entries id = none) {fuel : Nat}
    (hreturn : Vfs.releaseWith fuel state id = .ok after) : KeepsTypes state after := by
  induction fuel generalizing state id after with
  | zero => simp [Vfs.releaseWith] at hreturn
  | succ fuel ih =>
      rw [Vfs.releaseWith] at hreturn
      obtain ⟨entry, hentry, hreturn⟩ := bind_eq_ok.mp hreturn
      have hlowered : KeepsTypes state
          (state.set id { entry with references := entry.references - 1 }) :=
        set hfresh (State.entry_eq_ok.mp hentry) rfl
      generalize state.set id { entry with references := entry.references - 1 } = lowered
        at hlowered hreturn
      by_cases hzero : entry.references = 0
      · simp [hzero] at hreturn
      rw [if_neg hzero] at hreturn
      by_cases hlast : entry.references - 1 = 0
      case neg =>
        rw [if_neg hlast, pure_eq_ok] at hreturn
        cases hreturn
        exact hlowered
      rw [if_pos hlast] at hreturn
      have hend : ∀ released, KeepsTypes state released →
          (if entry.node = none then
            (do throw (Stop.nullNode id); pure (released.free id) : Except Stop State)
            else pure (released.free id)) = .ok after → KeepsTypes state after := by
        intro released hreleased hreturn
        by_cases hnode : entry.node = none
        · simp [hnode] at hreturn
        · rw [if_neg hnode, pure_eq_ok] at hreturn
          cases hreturn
          exact hreleased.trans (free hreleased.fresh)
      cases hparent : entry.parent with
      | none =>
          rw [hparent] at hreturn
          exact hend _ hlowered hreturn
      | some parent =>
          rw [hparent] at hreturn
          obtain ⟨parentEntry, hparentEntry, hreturn⟩ := bind_eq_ok.mp hreturn
          obtain ⟨released, hrelease, hreturn⟩ := bind_eq_ok.mp hreturn
          have hcleared := hlowered.trans (set hlowered.fresh
            (State.entry_eq_ok.mp hparentEntry)
            (show (parentEntry.setDirent entry.parentNode none).type = parentEntry.type from rfl))
          exact hend released (hcleared.trans (ih hcleared.fresh hrelease)) hreturn

theorem of_put {files files' : FileMap} {fd : Nat} {file : File}
    (hfresh : ∀ id, state.next ≤ id → state.entries id = none)
    (hreturn : put state files fd file = .ok (files', after)) :
    KeepsTypes state after ∧ files' = update files fd (some file) := by
  rw [put] at hreturn
  cases hold : files fd with
  | none =>
      rw [hold] at hreturn
      simp only [pure_eq_ok, ok_bind, Except.ok.injEq, Prod.mk.injEq] at hreturn
      exact ⟨hreturn.2 ▸ refl hfresh, hreturn.1.symm⟩
  | some old =>
      rw [hold] at hreturn
      obtain ⟨closed, hclose, hreturn⟩ := bind_eq_ok.mp hreturn
      cases hreturn
      exact ⟨releaseWith hfresh hclose, rfl⟩

theorem withReferences (hfresh : ∀ id, state.next ≤ id → state.entries id = none)
    (more : Nat → Nat) : KeepsTypes state (withReferences state more) where
  grows := Nat.le_refl _
  fresh id hle := by rw [withReferences_entries, hfresh id hle, Option.map_none]
  types id _ entry hentry := by
    rw [withReferences_entries, Option.map_eq_some_iff] at hentry
    obtain ⟨before, hbefore, rfl⟩ := hentry
    exact ⟨before, hbefore, rfl⟩

end KeepsTypes

/-! ## Runs -/

/-- No file is open for writing on a directory. -/
def Openable (state : State) (file : File) : Prop :=
  file.dirent < state.next ∧ ∀ entry, state.entries file.dirent = some entry →
    ¬(entry.type = .directory ∧ file.options.write = true)

theorem Openable.later {state after : State} {file : File} (hopenable : Openable state file)
    (hkeeps : KeepsTypes state after) : Openable after file := by
  refine ⟨Nat.lt_of_lt_of_le hopenable.1 hkeeps.grows, fun entry hentry => ?_⟩
  obtain ⟨before, hbefore, htype⟩ := hkeeps.types _ hopenable.1 entry hentry
  rw [htype]
  exact hopenable.2 before hbefore

/-- What the runs keep of the maps. -/
structure Invariant (world : MapWorld) : Prop where
  fresh : ∀ id, world.state.next ≤ id → world.state.entries id = none
  openable : ∀ files ∈ world.maps, ∀ fd file, files fd = some file → Openable world.state file

variable {world next : World}

/-- A file that can be opened, and what it is. -/
theorem fileInit_eq_ok {state : State} {dirent : Nat} {options : Options} {file : File}
    (hreturn : fileInit state dirent options = .ok (.ok file)) :
    ∃ entry, state.entries dirent = some entry ∧ ¬(entry.type = .directory ∧ options.write = true) ∧
      file = ⟨dirent, options, 0, firstNode state dirent⟩ := by
  obtain ⟨entry, hentry, hreturn⟩ := bind_eq_ok.mp hreturn
  have hentries := State.entry_eq_ok.mp hentry
  split at hreturn
  · simp at hreturn
  next hallowed =>
    cases hreturn
    exact ⟨entry, hentries, hallowed, by rw [firstNode, hentries]; rfl⟩

theorem fileInit_of_openable {state : State} {file : File} {entry : Entry}
    (hopenable : Openable state file) (hentry : state.entries file.dirent = some entry) :
    fileInit state file.dirent file.options = .ok (.ok (reopened state file)) := by
  rw [fileInit, State.entry_eq_ok.mpr hentry, ok_bind, if_neg (hopenable.2 entry hentry), reopened,
    firstNode, hentry]
  rfl

section Calls

variable {bits fd dst src node : Nat} {world : Arguments.World} {table : Table} {options : Options}

/-- A table in the heap with a map. -/
def Agrees (result : Except Errno Int × Table × Arguments.World)
    (result' : Except Errno Nat × FileMap × State) : Prop :=
  result.2.1.Held ∧ result' = (result.1.map Int.toNat, result.2.1.plain.file?, result.2.2.state)

/-- A table in the heap with a map, after a call that returns no number. -/
def Maps (result : Table × Arguments.World) (result' : FileMap × State) : Prop :=
  result.1.Held ∧ result' = (result.1.plain.file?, result.2.state)

theorem maps_of_shows (result : Table × Arguments.World) (plain : FileTable × State)
    (hshows : Shows result plain) : Maps result (Prod.map file? id plain) := by
  obtain ⟨hheld, rfl⟩ := hshows
  exact ⟨hheld, rfl⟩

/-- `file_table_set` puts a file at a descriptor. -/
theorem put_alike (hbits : bits ≤ 64) (hheld : table.Held) (hserved : Served bits world table fd)
    {slot : Arguments.Slot} {file : File} (hfile : slot.file = some file) :
    Alike Maps (Arguments.fileTableSet bits world table fd slot)
      (put world.state table.plain.file? fd file) := by
  rw [← fileTableSet_map]
  exact (Arguments.fileTableSet_alike hbits hheld hserved hfile).map maps_of_shows

theorem openat_alike (hbits : bits ≤ 64) (hheld : table.Held)
    (hserved : FileServed bits world table fd node options) :
    Alike Agrees (Arguments.fileTableOpenat bits world table fd node options)
      (openedAt world.state table.plain.file? fd node options) := by
  obtain ⟨heap, address, halloc, hserved⟩ := hserved
  rw [Arguments.fileTableOpenat, Arguments.openFile, openedAt, halloc]
  cases hinit : fileInit world.state node options with
  | error stop => exact .stop stop
  | ok result =>
      cases result with
      | error errno => exact .ok ⟨hheld, rfl⟩
      | ok file =>
          simp only [Except.mapError, ok_bind, Except.map]
          refine (@put_alike bits fd { world with heap } table hbits hheld (hserved file hinit)
            ⟨address, some file⟩ file rfl).bind fun result result' hresult => ?_
          obtain ⟨hnext, rfl⟩ := hresult
          exact .ok ⟨hnext, rfl⟩

theorem open_alike (hbits : bits ≤ 64) (hheld : table.Held)
    (hserved : FileServed bits world table (table.slots.findIdx Option.isNone) node options) :
    Alike Agrees (Arguments.fileTableOpen bits world table node options)
      (opened world.state table.plain.file? node options) := by
  rw [Arguments.fileTableOpen_eq, opened, leastFree_file?, hheld.findIdx]
  exact openat_alike hbits hheld hserved

/-- What the comparison with the capacity and the slot say about the file at a descriptor. -/
theorem slot_cases (hbits : bits ≤ 64) (hheld : table.Held) (hlimit : (fd : Int) < 2 ^ (bits - 1)) :
    table.fileCapacity ≤ Arguments.sizeT fd ∧ table.plain.file? fd = none ∨
    ¬table.fileCapacity ≤ Arguments.sizeT fd ∧ fd < table.slots.length ∧
      (table.slots[fd]? = some none ∧ table.plain.file? fd = none ∨
        ∃ address file, table.slots[fd]? = some (some ⟨address, some file⟩) ∧
          table.plain.file? fd = some file) := by
  have hmax := Arguments.limit_le hbits
  rw [Arguments.sizeT_of_nonneg (by omega) (by omega), file?, Table.plain, List.getElem?_map]
  by_cases hinside : table.fileCapacity ≤ fd
  · refine .inl ⟨hinside, ?_⟩
    rw [List.getElem?_eq_none (hheld.sound.slots.trans_le hinside)]
    rfl
  · have hlt : fd < table.slots.length := (not_le.mp hinside).trans_eq hheld.sound.slots.symm
    refine .inr ⟨hinside, hlt, ?_⟩
    rw [List.getElem?_eq_getElem hlt]
    cases hslot : table.slots[fd] with
    | none => exact .inl ⟨rfl, rfl⟩
    | some slot =>
        obtain ⟨address, held⟩ := slot
        obtain ⟨file, rfl⟩ := hheld.filled _ (hslot ▸ List.getElem_mem hlt)
        exact .inr ⟨address, file, rfl, rfl⟩

theorem close_alike (hbits : bits ≤ 64) (hheld : table.Held)
    (hmemory : (TableCall.close fd).HasMemory bits world table) :
    Alike Agrees (Arguments.fileTableClose world table fd)
      (closed world.state table.plain.file? fd) := by
  obtain ⟨hlimit, hfree⟩ := hmemory
  rw [Arguments.fileTableClose, closed]
  rcases slot_cases hbits hheld hlimit with
    ⟨hout, hnone⟩ | ⟨hinside, hlt, ⟨hslot, hnone⟩ | ⟨address, file, hslot, hfile⟩⟩
  · rw [if_pos hout, hnone]
    exact .ok ⟨hheld, rfl⟩
  · rw [if_neg hinside, if_neg (by omega), Int.toNat_natCast, hslot, hnone]
    exact .ok ⟨hheld, rfl⟩
  · obtain ⟨freed, hfreed⟩ := hfree _ (by rw [Table.slot?, hslot]; rfl)
    rw [if_neg hinside, if_neg (by omega), Int.toNat_natCast, hslot]
    simp only [hfile, Arguments.closeOld]
    cases fileClose world.state file with
    | error stop => exact .stop stop
    | ok state =>
        simp only [Except.mapError, ok_bind, hfreed, pure_eq_ok]
        refine .ok ⟨hheld.set (by simp), ?_⟩
        have hfiles : file? (table.plain.set fd none) = update table.plain.file? fd none := by
          funext other
          rw [FileTable.file?_set (by rwa [Table.plain, List.length_map]), Function.update_apply]
        rw [← hfiles, Table.plain, Table.plain, List.map_set]
        rfl

theorem dup_alike (hbits : bits ≤ 64) (hheld : table.Held)
    (hopenable : ∀ fd file, table.plain.file? fd = some file → Openable world.state file)
    (hfresh : ∀ id, world.state.next ≤ id → world.state.entries id = none)
    (hmemory : (TableCall.dup dst src).HasMemory bits world table) :
    Alike Agrees (Arguments.fileTableDup bits world table dst src)
      (duplicated world.state table.plain.file? dst src) := by
  obtain ⟨hlimit, hserved⟩ := hmemory
  rw [Arguments.fileTableDup, duplicated]
  rcases slot_cases hbits hheld hlimit with
    ⟨hout, hnone⟩ | ⟨hinside, _, ⟨hslot, hnone⟩ | ⟨_, source, hslot, hsource⟩⟩
  · rw [if_pos hout, hnone]
    exact .ok ⟨hheld, rfl⟩
  · rw [if_neg hinside, if_neg (by omega), Int.toNat_natCast, hslot, hnone]
    exact .ok ⟨hheld, rfl⟩
  · obtain ⟨heap, address, halloc, hserved⟩ := hserved (by rw [Table.slot?, hslot]; rfl)
    rw [if_neg hinside, if_neg (by omega), Int.toNat_natCast, hslot]
    simp only [hsource, Arguments.dupFile, halloc]
    cases hadd : addReference world.state source.dirent with
    | error stop => exact .stop stop
    | ok added =>
        have hlater := (hopenable src source hsource).later (KeepsTypes.addReference hfresh hadd)
        obtain ⟨entry, hentry⟩ : ∃ entry, added.entries source.dirent = some entry := by
          obtain ⟨entry, hentry, hreturn⟩ := bind_eq_ok.mp hadd
          cases hreturn
          exact ⟨{ entry with references := entry.references + 1 }, by simp [State.set]⟩
        simp only [Except.mapError, ok_bind, fileInit_of_openable hlater hentry, pure_eq_ok,
          Except.toOption]
        refine (@put_alike bits dst ⟨heap, added⟩ table hbits hheld hserved
          ⟨address, some (reopened added source)⟩ _ rfl).bind fun result result' hresult => ?_
        obtain ⟨hnext, rfl⟩ := hresult
        exact .ok ⟨hnext, rfl⟩

/-- A call for one table does to its map what it does to the table. -/
theorem TableCall.alike (hbits : bits ≤ 64) (hheld : table.Held)
    (hopenable : ∀ fd file, table.plain.file? fd = some file → Openable world.state file)
    (hfresh : ∀ id, world.state.next ≤ id → world.state.entries id = none) (call : TableCall)
    (hmemory : call.HasMemory bits world table) :
    Alike Agrees (call.perform bits world table) (call.performMap world.state table.plain.file?) := by
  cases call with
  | «open» node options => exact open_alike hbits hheld hmemory
  | openat fd node options => exact openat_alike hbits hheld hmemory
  | dup dst src => exact dup_alike hbits hheld hopenable hfresh hmemory
  | close fd => exact close_alike hbits hheld hmemory

/-- A table for a new process has no files. -/
theorem fileTableInit_ok {heap next : Heap} {files : Nat}
    (halloc : heapAlloc heap Arguments.slotSize = .ok (next, files)) :
    Arguments.fileTableInit heap = .ok (⟨1, files, [none]⟩, next) := by
  rw [Arguments.fileTableInit, halloc]
  rfl

theorem held_empty (files : Nat) : Table.Held ⟨1, files, [none]⟩ :=
  ⟨⟨Nat.le_refl _, rfl, (by decide : 1 * Arguments.slotSize < 2 ^ 64)⟩, fun slot hslot => by
    simp at hslot⟩

end Calls

/-- What a call leaves behind, with the maps. -/
def Follows (result : Except Errno Nat × World) (result' : Except Errno Nat × MapWorld) : Prop :=
  (∀ table ∈ result.2.tables, table.Held) ∧ result' = Prod.map id World.maps result

/-- The next call does to the maps what it does to the tables. -/
theorem perform_alike {bits : Nat} (hbits : bits ≤ 64) (hheld : ∀ table ∈ world.tables, table.Held)
    (hinvariant : Invariant world.maps) (op : Op) (hmemory : HasMemory bits world op) :
    Alike Follows (op.perform bits world) (op.performMap world.maps) := by
  cases op with
  | init =>
      obtain ⟨⟨heap, files⟩, halloc⟩ := hmemory
      rw [Op.perform, fileTableInit_ok halloc]
      have hempty : file? [none] = fun _ => none := by
        funext fd
        cases fd <;> rfl
      refine .ok ⟨fun table htable => ?_, ?_⟩
      · rcases List.mem_append.mp htable with hold | hnew
        · exact hheld table hold
        · exact List.mem_singleton.mp hnew ▸ held_empty files
      · simp [World.maps, Table.plain, hempty]
  | call index call =>
      simp only [Op.perform, Op.performMap, World.maps, List.getElem?_map]
      cases htable : world.tables[index]? with
      | none => exact .ok ⟨hheld, rfl⟩
      | some table =>
          have hmem := List.mem_of_getElem? htable
          refine (TableCall.alike hbits (hheld table hmem) (hinvariant.openable _
            (List.mem_map_of_mem hmem)) hinvariant.fresh call (hmemory table htable)).bind
            fun result result' hresult => ?_
          obtain ⟨hnext, rfl⟩ := hresult
          refine .ok ⟨fun other hother => ?_, by simp [World.maps, List.map_set]⟩
          rcases List.mem_or_eq_of_mem_set hother with hold | rfl
          · exact hheld other hold
          · exact hnext
  | clone index =>
      simp only [Op.perform, Op.performMap, World.maps, List.getElem?_map]
      cases htable : world.tables[index]? with
      | none => exact .ok ⟨hheld, rfl⟩
      | some table =>
          obtain ⟨heap, files, grown, halloc, hrealloc, hcopies⟩ := hmemory table htable
          simp only [Option.map_some, fileTableInit_ok halloc, ok_bind, ← fileTableClone_map]
          refine ((@Arguments.fileTableClone_alike ⟨heap, world.state⟩ table ⟨1, files, [none]⟩
            (hheld table (List.mem_of_getElem? htable)) grown hrealloc hcopies).map
              maps_of_shows).bind fun result result' hresult => ?_
          obtain ⟨hnext, rfl⟩ := hresult
          refine .ok ⟨fun other hother => ?_, by simp [World.maps]⟩
          rcases List.mem_append.mp hother with hold | hnew
          · exact hheld other hold
          · exact List.mem_singleton.mp hnew ▸ hnext

/-- The files of one map after a call: they were there, or can be opened. -/
structure Moves (state : State) (files : FileMap) (state' : State) (files' : FileMap) : Prop where
  keeps : KeepsTypes state state'
  openable : (∀ fd file, files fd = some file → Openable state file) →
    ∀ fd file, files' fd = some file → Openable state' file

namespace Moves

variable {state state' : State} {files files' : FileMap} {fd : Nat} {file : File}

theorem of_keeps (hkeeps : KeepsTypes state state') : Moves state files state' files :=
  ⟨hkeeps, fun hfiles fd file hfile => (hfiles fd file hfile).later hkeeps⟩

theorem update (hkeeps : KeepsTypes state state') {slot : Option File}
    (hslot : (∀ fd file, files fd = some file → Openable state file) →
      ∀ file, slot = some file → Openable state' file) :
    Moves state files state' (update files fd slot) where
  keeps := hkeeps
  openable hfiles other file hfile := by
    rw [update_apply] at hfile
    split at hfile
    · exact hslot hfiles file hfile
    · exact (hfiles other file hfile).later hkeeps

/-- A file that can be opened comes to a place. -/
theorem of_put {middle : State} (hkeeps : KeepsTypes state middle)
    (hput : put middle files fd file = .ok (files', state'))
    (hfile : (∀ fd file, files fd = some file → Openable state file) → Openable middle file) :
    Moves state files state' files' := by
  obtain ⟨hkeeps', rfl⟩ := KeepsTypes.of_put hkeeps.fresh hput
  refine update (hkeeps.trans hkeeps') fun hfiles other hother => ?_
  rw [← Option.some.inj hother]
  exact (hfile hfiles).later hkeeps'

variable (hfresh : ∀ id, state.next ≤ id → state.entries id = none)
include hfresh

theorem openable_of_fileInit {node : Nat} {options : Options}
    (hinit : fileInit state node options = .ok (.ok file)) : Openable state file := by
  obtain ⟨entry, hentry, hallowed, rfl⟩ := fileInit_eq_ok hinit
  refine ⟨?_, fun other hother => ?_⟩
  · by_contra hge
    simp [hfresh node (not_lt.mp hge)] at hentry
  · rwa [← Option.some.inj (hentry.symm.trans hother)]

theorem of_openedAt {node : Nat} {options : Options} {result : Except Errno Nat}
    (hreturn : openedAt state files fd node options = .ok (result, files', state')) :
    Moves state files state' files' := by
  obtain ⟨created, hinit, hreturn⟩ := bind_eq_ok.mp hreturn
  have hsame := KeepsTypes.refl hfresh
  cases created with
  | error errno =>
      cases hreturn
      exact of_keeps hsame
  | ok file =>
      obtain ⟨⟨files'', after⟩, hput, hreturn⟩ := bind_eq_ok.mp hreturn
      cases hreturn
      exact of_put hsame hput fun _ => openable_of_fileInit hfresh hinit

theorem of_duplicated {dst src : Nat} {result : Except Errno Nat}
    (hreturn : duplicated state files dst src = .ok (result, files', state')) :
    Moves state files state' files' := by
  rw [duplicated] at hreturn
  cases hsource : files src with
  | none =>
      simp only [hsource, pure_eq_ok, Except.ok.injEq, Prod.mk.injEq] at hreturn
      obtain ⟨-, rfl, rfl⟩ := hreturn
      exact of_keeps (KeepsTypes.refl hfresh)
  | some source =>
      rw [hsource] at hreturn
      obtain ⟨added, hadd, hreturn⟩ := bind_eq_ok.mp hreturn
      obtain ⟨⟨files', after⟩, hput, hreturn⟩ := bind_eq_ok.mp hreturn
      cases hreturn
      have hkeeps := KeepsTypes.addReference hfresh hadd
      exact of_put hkeeps hput fun hfiles => (hfiles src source hsource).later hkeeps

theorem of_closed {result : Except Errno Nat}
    (hreturn : closed state files fd = .ok (result, files', state')) :
    Moves state files state' files' := by
  rw [closed] at hreturn
  cases hfile : files fd with
  | none =>
      simp only [hfile, pure_eq_ok, Except.ok.injEq, Prod.mk.injEq] at hreturn
      obtain ⟨-, rfl, rfl⟩ := hreturn
      exact of_keeps (KeepsTypes.refl hfresh)
  | some file =>
      rw [hfile] at hreturn
      obtain ⟨after, hclose, hreturn⟩ := bind_eq_ok.mp hreturn
      cases hreturn
      exact update (KeepsTypes.releaseWith hfresh hclose) nofun

theorem of_call {call : TableCall} {result : Except Errno Nat}
    (hreturn : call.performMap state files = .ok (result, files', state')) :
    Moves state files state' files' := by
  cases call with
  | «open» node options => exact of_openedAt hfresh hreturn
  | openat fd node options => exact of_openedAt hfresh hreturn
  | dup dst src => exact of_duplicated hfresh hreturn
  | close fd => exact of_closed hfresh hreturn

theorem of_cloned (hreturn : cloned state files = .ok (files', state')) :
    Moves state files state' files' := by
  unfold cloned at hreturn
  split at hreturn
  · simp at hreturn
  · cases hreturn
    have hkeeps := KeepsTypes.withReferences hfresh fun dirent => (usersOf files dirent).ncard
    refine ⟨hkeeps, fun hfiles fd file hfile => ?_⟩
    obtain ⟨source, hsource, rfl⟩ := Option.map_eq_some_iff.mp hfile
    exact (hfiles fd source hsource).later hkeeps

end Moves

namespace Invariant

variable {world : MapWorld} {state : State}

/-- The maps are those from before, or their files can be opened now. -/
theorem move (hinvariant : Invariant world) (hkeeps : KeepsTypes world.state state)
    {maps : List FileMap} (hmaps : ∀ files ∈ maps, files ∈ world.maps ∨
      ∀ fd file, files fd = some file → Openable state file) : Invariant ⟨state, maps⟩ where
  fresh := hkeeps.fresh
  openable files hfiles := (hmaps files hfiles).elim
    (fun hold fd file hfile => (hinvariant.openable files hold fd file hfile).later hkeeps) id

/-- Every call on maps keeps the invariant. -/
theorem performMap (hinvariant : Invariant world) {op : Op} {result : Except Errno Nat}
    {next : MapWorld} (hcall : op.performMap world = .ok (result, next)) : Invariant next := by
  have hfresh := hinvariant.fresh
  cases op with
  | init =>
      simp only [Op.performMap, Except.ok.injEq, Prod.mk.injEq] at hcall
      refine hcall.2 ▸ hinvariant.move (.refl hfresh) fun files hfiles => ?_
      refine (List.mem_append.mp hfiles).imp_right fun hnew => ?_
      rw [List.mem_singleton.mp hnew]
      simp
  | call index call =>
      simp only [Op.performMap] at hcall
      split at hcall
      · cases hcall
        exact hinvariant
      next files hfiles =>
        obtain ⟨⟨_, files', state⟩, hreturn, hcall⟩ := bind_eq_ok.mp hcall
        cases hcall
        have hmoves := Moves.of_call hfresh hreturn
        refine hinvariant.move hmoves.keeps fun other hother => ?_
        rcases List.mem_or_eq_of_mem_set hother with hold | rfl
        · exact .inl hold
        · exact .inr (hmoves.openable (hinvariant.openable files (List.mem_of_getElem? hfiles)))
  | clone index =>
      simp only [Op.performMap] at hcall
      split at hcall
      · cases hcall
        exact hinvariant
      next files hfiles =>
        obtain ⟨⟨copy, state⟩, hreturn, hcall⟩ := bind_eq_ok.mp hcall
        cases hcall
        have hmoves := Moves.of_cloned hfresh hreturn
        refine hinvariant.move hmoves.keeps fun other hother => ?_
        refine (List.mem_append.mp hother).imp_right fun hnew => ?_
        rw [List.mem_singleton.mp hnew]
        exact hmoves.openable (hinvariant.openable files (List.mem_of_getElem? hfiles))

end Invariant

theorem invariant_inductive {bits : Nat} (hbits : bits ≤ 64) : (servedRuns bits).Inductive
    fun world => (∀ table ∈ world.tables, table.Held) ∧ Invariant world.maps where
  init world hinit := by
    refine ⟨fun table htable => ?_, hinit.2, by simp [World.maps, hinit.1]⟩
    rw [hinit.1] at htable
    cases htable
  step world label next hinvariant hstep := by
    obtain ⟨hheld, hmaps⟩ := hinvariant
    obtain ⟨hmemory, hstep⟩ := hstep
    cases hstep with
    | call op hcall =>
        obtain ⟨result', hmap, hnext, rfl⟩ :=
          (perform_alike hbits hheld hmaps op (hmemory op rfl)).of_ok hcall
        exact ⟨hnext, hmaps.performMap hmap⟩
    | elsewhere htypes heap => exact ⟨hheld, hmaps.move htypes fun _ => .inl⟩

/-- In every run whose calls find what they ask for in the heap, such a call on tables is the call
on partial maps, and there is always a least free descriptor. -/
theorem tables_refine_maps {bits : Nat} (hbits : bits ≤ 64)
    (hreach : (servedRuns bits).Reachable world) :
    (∀ op : Op, HasMemory bits world op → (op.perform bits world).map (Prod.map id World.maps) =
      (op.performMap world.maps).mapError .filesystem) ∧
      ∀ files ∈ world.maps.maps, IsLeast {fd | files fd = none} (leastFree files) := by
  obtain ⟨hheld, hinvariant⟩ := hreach.invariant (invariant_inductive hbits)
  refine ⟨fun op hmemory => ?_, fun files hfiles => ?_⟩
  · exact (perform_alike hbits hheld hinvariant op hmemory).map_eq fun _ _ => And.right
  · obtain ⟨table, -, rfl⟩ := List.mem_map.mp hfiles
    rw [leastFree_file?]
    exact isLeast_findIdx table.plain

/-- A fresh heap, one entry with many references, and no tables. -/
def oneEntry : World :=
  ⟨Heap.heapInit fun _ => 0,
    ⟨update (fun _ => none) 0 (some ⟨none, [], 9, .device, some 0, []⟩), 1⟩, []⟩

/-- A table is made and a file opened. -/
theorem oneEntry_calls : ∃ world, (servedRuns 32).Reachable world ∧
    world.tables.map Table.plain = [[some ⟨0, ⟨true, false⟩, 0, none⟩]] ∧
      (Op.call 0 (.dup 200000 0)).perform 32 world =
        .error (.heap (.panic "Unable to find space for heap alloc" [("ALLOC SIZE", 1600008)])) ∧
      ∃ result, (Op.call 0 (.dup 200000 0)).performMap world.maps = .ok result := by
  have hcalls : ∃ made opened files, Op.init.perform 32 oneEntry = .ok (.ok 0, made) ∧
      HasMemory 32 oneEntry .init ∧ made.tables = [⟨1, files, [none]⟩] ∧
      (∃ heap address, heapAlloc made.heap Arguments.fileSize = .ok (heap, address)) ∧
      (Op.call 0 (.open 0 ⟨true, false⟩)).perform 32 made = .ok (.ok 0, opened) ∧
      opened.tables.map Table.plain = [[some ⟨0, ⟨true, false⟩, 0, none⟩]] ∧
      (Op.call 0 (.dup 200000 0)).perform 32 opened =
        .error (.heap (.panic "Unable to find space for heap alloc" [("ALLOC SIZE", 1600008)])) ∧
      ∃ result, (Op.call 0 (.dup 200000 0)).performMap opened.maps = .ok result :=
    ⟨_, _, _, rfl, ⟨_, rfl⟩, rfl, ⟨_, _, rfl⟩, rfl, rfl, rfl, _, rfl⟩
  obtain ⟨made, opened, files, hmake, hblock, htables, ⟨heap, address, halloc⟩, hopen, hlast⟩ :=
    hcalls
  have hinit : (servedRuns 32).Reachable oneEntry := by
    refine .init ⟨rfl, fun id hid => ?_⟩
    have hle : 1 ≤ id := hid
    have hne : id ≠ 0 := by omega
    simp [oneEntry, hne]
  have hmade : (servedRuns 32).Reachable made :=
    hinit.step ⟨fun _ hop => Option.some.inj hop ▸ hblock, .call .init hmake⟩
  have hserved : HasMemory 32 made (.call 0 (.open 0 ⟨true, false⟩)) := by
    intro table htable
    rw [htables] at htable
    cases htable
    refine ⟨heap, address, halloc, fun _ _ => ⟨(by decide : ((0 : Nat) : Int) < 2 ^ 31), ?_⟩⟩
    rw [if_pos]
    · exact fun _ hold => absurd hold nofun
    · exact Nat.one_pos
  exact ⟨opened, hmade.step ⟨fun _ hop => Option.some.inj hop ▸ hserved, .call _ hopen⟩, hlast⟩

theorem tables_refine_maps_opened : ∃ world : World,
    world.tables.map Table.plain = [[some ⟨0, ⟨true, false⟩, 0, none⟩]] ∧
    (∀ op : Op, HasMemory 32 world op → (op.perform 32 world).map (Prod.map id World.maps) =
      (op.performMap world.maps).mapError .filesystem) ∧
      ∀ files ∈ world.maps.maps, IsLeast {fd | files fd = none} (leastFree files) := by
  obtain ⟨world, hreach, htables, -⟩ := oneEntry_calls
  exact ⟨world, htables, tables_refine_maps (by decide) hreach⟩

/-- The file is duplicated to descriptor 200000: a map can have it there, the heap has no block of
1600008 bytes for the table. -/
theorem not_tables_refine_maps : ∃ world, (servedRuns 32).Reachable world ∧
    (Op.call 0 (.dup 200000 0)).perform 32 world =
      .error (.heap (.panic "Unable to find space for heap alloc" [("ALLOC SIZE", 1600008)])) ∧
    ((Op.call 0 (.dup 200000 0)).perform 32 world).map (Prod.map id World.maps) ≠
      ((Op.call 0 (.dup 200000 0)).performMap world.maps).mapError .filesystem := by
  obtain ⟨world, hreach, -, hpanic, result, hmap⟩ := oneEntry_calls
  refine ⟨world, hreach, hpanic, ?_⟩
  rw [hpanic, hmap]
  exact nofun

end PKernel.Vfs.Descriptors
