import PKernel.Machine
import Mathlib.Logic.Function.Basic

/-! # Directory entries

`directory_entry.c` and `node.c`: the cache of directory entries with its
reference counts, over a filesystem that looks entries up as `pkfs` does. Entry
objects are named by numbers that are never used again. A node of an entry's
list is named by the entry and the node's name, which no other node of the list
has. What is on disc is a parameter: the listing of every filesystem node.
-/

namespace PKernel.Vfs

/-- A string without its terminating NUL. -/
abbrev Name := List UInt8

/-- `fs_file_type_t`. -/
inductive FileType where
  | regular
  | directory
  | device
  | pipe
  | socket
deriving DecidableEq, Repr

/-- What a directory on disc says about one of its entries. -/
structure Listed where
  name : Name
  type : FileType
  page : Nat
deriving DecidableEq, Repr

/-- The listings of the filesystem nodes, by `file_page`. -/
abbrev Disc := Nat → List Listed

/-- `fs_directory_entry_node_t`. -/
structure EntryNode where
  name : Name
  dirent : Option Nat
deriving DecidableEq, Repr

/-- `fs_directory_entry_t`. The node is given by its `file_page`; `nodes` is the
list between `head` and `tail`. -/
structure Entry where
  parent : Option Nat
  parentNode : Name
  references : Nat
  type : FileType
  node : Option Nat
  nodes : List EntryNode
deriving DecidableEq, Repr

/-- How a function of the filesystem ends without returning. -/
inductive Stop where
  /-- The halt in `fs_directory_entry_release`. -/
  | noReferences
  /-- An access through a null or dangling pointer. -/
  | badPointer
  /-- `fs_node_release` for an entry whose `node` is null. -/
  | nullNode (dirent : Nat)
  /-- A read behind the terminating NUL of a string. -/
  | overrun
  /-- A loop of the source went on past the bound the model gives it. -/
  | nontermination
deriving DecidableEq, Repr

structure State where
  entries : Nat → Option Entry
  /-- The number of entries made so far. -/
  next : Nat

/-- `fs_root`. -/
def fsRoot : Nat := 0

namespace State

def entry (state : State) (id : Nat) : Except Stop Entry :=
  match state.entries id with
  | some entry => .ok entry
  | none => .error .badPointer

def set (state : State) (id : Nat) (entry : Entry) : State :=
  { state with entries := Function.update state.entries id (some entry) }

def free (state : State) (id : Nat) : State :=
  { state with entries := Function.update state.entries id none }

end State

namespace Entry

/-- The node with a name. -/
def find? (entry : Entry) (name : Name) : Option EntryNode :=
  entry.nodes.find? fun node => node.name == name

/-- Set the `dirent` of the node with a name. -/
def setDirent (entry : Entry) (name : Name) (dirent : Option Nat) : Entry :=
  { entry with nodes := entry.nodes.map fun node =>
      if node.name = name then { node with dirent } else node }

end Entry

/-- `fs_directory_entry_create`, and the node its callers give the new entry. -/
def directoryEntryCreate (state : State) (type : FileType) (parent : Option Nat)
    (parentNode : Name) (node : Option Nat) : Nat × State :=
  (state.next, { state.set state.next ⟨parent, parentNode, 1, type, node, []⟩ with
    next := state.next + 1 })

/-- `fs_directory_entry_add_entry` on a list of nodes: nothing if the name is taken. -/
def addNode (nodes : List EntryNode) (name : Name) : Option (List EntryNode) :=
  if nodes.any fun node => node.name == name then none else some (⟨name, none⟩ :: nodes)

/-- `fs_directory_entry_add_reference`. -/
def addReference (state : State) (id : Nat) : Except Stop State := do
  let entry ← state.entry id
  return state.set id { entry with references := entry.references + 1 }

/-- `lookup` of `pkfs`: the new child has one reference. A name that is not in the
listing makes no child. -/
def lookup (disc : Disc) (state : State) (dirent : Nat) (name : Name) : Except Stop State := do
  let entry ← state.entry dirent
  match entry.node with
  | none => throw .badPointer
  | some page =>
      match (disc page).find? fun listed => listed.name == name with
      | none => return state
      | some listed =>
          let (child, state) :=
            directoryEntryCreate state listed.type (some dirent) name (some listed.page)
          return state.set dirent (entry.setDirent name (some child))

/-- `list` of `pkfs`: a node for every name on disc. -/
def list (disc : Disc) (state : State) (dirent : Nat) : Except Stop State := do
  let entry ← state.entry dirent
  match entry.node with
  | none => throw .badPointer
  | some page =>
      let nodes := (disc page).foldl
        (fun nodes listed => (addNode nodes listed.name).getD nodes) entry.nodes
      return state.set dirent { entry with nodes }

/-- `fs_directory_node_enter`, for the node of `dirent` with a name. -/
def directoryNodeEnter (disc : Disc) (state : State) (dirent : Nat) (name : Name) :
    Except Stop (Nat × State) := do
  let entry ← state.entry dirent
  match entry.find? name with
  | none => throw .badPointer
  | some ⟨_, some child⟩ => return (child, ← addReference state child)
  | some ⟨_, none⟩ =>
      let state ← addReference state dirent
      let state ← lookup disc state dirent name
      let entry ← state.entry dirent
      match (entry.find? name).bind fun node => node.dirent with
      | none => throw .badPointer
      | some child => return (child, ← list disc state child)

/-- `fs_directory_entry_enter`. -/
def directoryEntryEnter (disc : Disc) (state : State) (dirent : Nat) (name : Name) :
    Except Stop (Option Nat × State) := do
  let entry ← state.entry dirent
  match entry.find? name with
  | none => return (none, state)
  | some _ =>
      let (child, state) ← directoryNodeEnter disc state dirent name
      return (some child, state)

/-- `fs_directory_entry_release`, which calls itself for the parent of an entry
that goes. The node goes with its entry. -/
def releaseWith : Nat → State → Nat → Except Stop State
  | 0, _, _ => .error .nontermination
  | fuel + 1, state, id => do
      let entry ← state.entry id
      if entry.references = 0 then throw .noReferences
      let state := state.set id { entry with references := entry.references - 1 }
      if entry.references - 1 = 0 then
        let state ← match entry.parent with
          | none => pure state
          | some parent =>
              let parentEntry ← state.entry parent
              releaseWith fuel (state.set parent (parentEntry.setDirent entry.parentNode none))
                parent
        if entry.node = none then throw (.nullNode id)
        return state.free id
      else return state

/-- `fs_directory_entry_release`; no chain of parents is longer than there are entries. -/
def directoryEntryRelease (state : State) (id : Nat) : Except Stop State :=
  releaseWith (state.next + 1) state id

/-- `fs_init` and `fs_mount_root`, for a filesystem whose root directory has the given
`file_page`. -/
def fsMountRoot (disc : Disc) (page : Nat) : Except Stop State :=
  list disc ⟨Function.update (fun _ => none) fsRoot
    (some ⟨none, [], 2, .directory, some page, []⟩), 1⟩ fsRoot

end PKernel.Vfs
