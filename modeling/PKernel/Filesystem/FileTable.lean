import PKernel.Filesystem.File

/-! # File tables

`file_table.c`, and `fs_make_anon_pipe` and `syscall_pipe`, which make two
descriptors for one new entry. A table is the list of its slots up to
`file_capacity`.
-/

namespace PKernel.Vfs

abbrev FileTable := List (Option File)

/-- The file in a slot. -/
def FileTable.file? (table : FileTable) (fd : Nat) : Option File := table[fd]?.join

namespace FileTable

variable {table : FileTable} {fd other : Nat} {slot : Option File}

/-- New slots behind the last one are empty. -/
theorem file?_grow (table : FileTable) (count fd : Nat) :
    file? (table ++ List.replicate count none) fd = table.file? fd := by
  unfold file?
  rcases Nat.lt_or_ge fd table.length with hlt | hge
  · rw [List.getElem?_append_left hlt]
  · rw [List.getElem?_append_right hge, List.getElem?_replicate, List.getElem?_eq_none hge]
    split <;> rfl

theorem file?_set (hlt : fd < table.length) :
    file? (table.set fd slot) other = if other = fd then slot else table.file? other := by
  unfold file?
  by_cases hsame : other = fd
  · rw [if_pos hsame, hsame, List.getElem?_set_self hlt]
    rfl
  · rw [if_neg hsame, List.getElem?_set_ne (Ne.symm hsame)]

end FileTable

/-- `file_table_set` where the heap has what it asks for: `Arguments.fileTableSet` has the heap. -/
def fileTableSet (state : State) (table : FileTable) (fd : Nat) (file : File) :
    Except Stop (FileTable × State) := do
  let table := table ++ List.replicate (fd + 1 - table.length) none
  let state ← match table.file? fd with
    | some old => fileClose state old
    | none => pure state
  return (table.set fd (some file), state)

/-- `file_table_add`: the first free slot, or a new one. -/
def fileTableAdd (table : FileTable) (file : File) : Nat × FileTable :=
  let fd := table.findIdx Option.isNone
  (fd, (table ++ List.replicate (fd + 1 - table.length) none).set fd (some file))

/-- `file_table_init`. -/
def fileTableInit : FileTable := [none]

/-- `file_table_free`. -/
def fileTableFree (state : State) : FileTable → Except Stop State
  | [] => .ok state
  | none :: rest => fileTableFree state rest
  | some file :: rest => do fileTableFree (← fileClose state file) rest

/-- `file_table_clone`. -/
def fileTableClone (state : State) : FileTable → Except Stop (FileTable × State)
  | [] => .ok ([], state)
  | none :: rest => do
      let (table, state) ← fileTableClone state rest
      return (none :: table, state)
  | some file :: rest => do
      let (copy, state) ← fileClone state file
      let (table, state) ← fileTableClone state rest
      return (some copy :: table, state)

/-- `file_table_dup`. -/
def fileTableDup (state : State) (table : FileTable) (dst src : Nat) :
    Except Stop (Except Errno FileTable × State) := do
  match table.file? src with
  | none => return (.error .badFd, state)
  | some source =>
      let state ← addReference state source.dirent
      match ← fileInit state source.dirent source.options with
      -- the result of `file_init` is not looked at, and the file would stay as it was allocated
      | .error _ => throw .badPointer
      | .ok file =>
          let (table, state) ← fileTableSet state table dst file
          return (.ok table, state)

/-- `file_table_open`: the descriptor and the table. -/
def fileTableOpen (state : State) (table : FileTable) (node : Nat) (options : Options) :
    Except Stop (Except Errno Nat × FileTable) := do
  match ← fileInit state node options with
  | .error error => return (.error error, table)
  | .ok file =>
      let (fd, table) := fileTableAdd table file
      return (.ok fd, table)

/-- `file_table_close`. -/
def fileTableClose (state : State) (table : FileTable) (fd : Nat) :
    Except Stop (Except Errno FileTable × State) := do
  match table.file? fd with
  | none => return (.error .badFd, state)
  | some file =>
      let state ← fileClose state file
      return (.ok (table.set fd none), state)

/-- `fs_make_anon_pipe`. -/
def fsMakeAnonPipe (state : State) : Nat × State := directoryEntryCreate state .pipe none [] none

/-- `syscall_pipe`: what is stored for the two descriptors, the entry behind them and the
table. -/
def syscallPipe (state : State) (table : FileTable) :
    Except Stop ((Except Errno Nat × Except Errno Nat) × Nat × FileTable × State) := do
  let (dirent, state) := fsMakeAnonPipe state
  let (first, table) ← fileTableOpen state table dirent ⟨false, true⟩
  let (second, table) ← fileTableOpen state table dirent ⟨true, false⟩
  return ((first, second), dirent, table, state)

end PKernel.Vfs
