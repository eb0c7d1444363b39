import PKernel.Filesystem.DirectoryEntry

/-! # Open files

`file.c` without the transfer of data: `file_init`, `file_clone`, `file_close` and
`file_readdir`.
-/

namespace PKernel.Vfs

/-- The options `O_RD` and `O_WR`. -/
structure Options where
  read : Bool
  write : Bool
deriving DecidableEq, Repr

/-- `fs_file_t`. `current_node` is the name of a node in the list of `dirent`, or
none at the tail of the list. -/
structure File where
  dirent : Nat
  options : Options
  offset : Nat
  currentNode : Option Name
deriving DecidableEq, Repr

/-- The error codes of the functions on files. -/
inductive Errno where
  | isDir
  | inval
  | notDir
  | range
  | badFd
deriving DecidableEq, Repr

/-- `head.next`. -/
def Entry.first (entry : Entry) : Option Name := entry.nodes.head?.map EntryNode.name

/-- `next` of the node with a name. -/
def Entry.next (entry : Entry) (name : Name) : Option Name :=
  (entry.nodes.dropWhile fun node => node.name != name).tail.head?.map EntryNode.name

/-- `file_init`. -/
def fileInit (state : State) (dirent : Nat) (options : Options) :
    Except Stop (Except Errno File) := do
  let entry ← state.entry dirent
  if entry.type = .directory ∧ options.write then return .error .isDir
  else return .ok ⟨dirent, options, 0, if entry.type = .directory then entry.first else none⟩

/-- `file_clone`. -/
def fileClone (state : State) (source : File) : Except Stop (File × State) := do
  let state ← addReference state source.dirent
  let entry ← state.entry source.dirent
  return (⟨source.dirent, source.options, source.offset,
    if entry.type = .directory then entry.first else none⟩, state)

/-- `file_close`. -/
def fileClose (state : State) (file : File) : Except Stop State :=
  directoryEntryRelease state file.dirent

/-- The `struct dirent` that a call of `file_readdir` fills in. -/
structure Dirent where
  type : FileType
  size : Nat
  name : Name
deriving DecidableEq, Repr

/-- `file_readdir`, where `direntSize` is `sizeof(directory_entry_t)`. The entry is
none at the end of the directory. -/
def fileReaddir (direntSize : Nat) (disc : Disc) (state : State) (file : File)
    (bufferSize : Nat) : Except Stop (Except Errno (Option Dirent) × File × State) := do
  if ¬ file.options.read then return (.error .inval, file, state)
  let entry ← state.entry file.dirent
  if entry.type ≠ .directory then return (.error .notDir, file, state)
  match file.currentNode with
  | none => return (.ok none, file, state)
  | some name =>
      let entryLength := direntSize + name.length + 1
      if bufferSize < entryLength then return (.error .range, file, state)
      let (dirent, state) ← directoryNodeEnter disc state file.dirent name
      let childEntry ← state.entry dirent
      let state ← directoryEntryRelease state dirent
      let entry ← state.entry file.dirent
      return (.ok (some ⟨childEntry.type, entryLength, name⟩),
        { file with currentNode := entry.next name }, state)

end PKernel.Vfs
