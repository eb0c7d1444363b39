import PKernel.Filesystem.DirectoryEntry

/-! # Paths

`fs_open_path` and `fs_make_path` of `filesystem.c`, `process_open_path` and
`process_make_path` of `process.c`. Both walkers read a path with the same loop,
which looks for a separator from the second character of a component on, except
in the first component.
-/

namespace PKernel.Vfs

/-- A NUL-terminated string. -/
structure Path where
  chars : Name
  noNul : (0 : UInt8) ∉ chars

/-- `'/'`. -/
def slash : UInt8 := 47

/-- `"."`. -/
def dot : Name := [46]

/-- `".."`. -/
def dotDot : Name := [46, 46]

/-- `path[pos]`. Behind the terminating NUL there is no string. -/
def charAt (chars : Name) (pos : Nat) : Except Stop UInt8 :=
  match chars[pos]? with
  | some char => .ok char
  | none => if pos = chars.length then .ok 0 else .error .overrun

/-- What a walker does with a component: the entry it goes to, or none if it gives up. -/
abbrev Component := State → Nat → Name → Except Stop (Option Nat × State)

/-- The loop of the walkers, from `path_start` and `path_pos` on. `step` treats a
component before a separator, `last` the component before the NUL. -/
def walkPath (step last : Component) (chars : Name) : Nat → State → Nat → Nat → Nat →
    Except Stop (Option Nat × State)
  | 0, _, _, _, _ => .error .nontermination
  | fuel + 1, state, curNode, pathStart, pathPos => do
      let char ← charAt chars pathPos
      let segment := (chars.drop pathStart).take (pathPos - pathStart)
      if char = 0 then last state curNode segment
      else if char = slash then
        match ← step state curNode segment with
        | (none, state) => return (none, state)
        | (some newNode, state) =>
            walkPath step last chars fuel state newNode (pathPos + 1) (pathPos + 2)
      else walkPath step last chars fuel state curNode pathStart (pathPos + 1)

/-- Entering a named child, with the reference to the directory dropped. -/
def enterStep (disc : Disc) : Component := fun state curNode segment => do
  let (newNode, state) ← directoryEntryEnter disc state curNode segment
  return (newNode, ← directoryEntryRelease state curNode)

/-- A component of `fs_open_path`. -/
def openStep (disc : Disc) : Component := fun state curNode segment => do
  if segment = [] ∨ segment = dot then return (some curNode, state)
  else if segment = dotDot then
    match (← state.entry curNode).parent with
    | none => return (some curNode, state)
    | some parent =>
        let state ← addReference state parent
        return (some parent, ← directoryEntryRelease state curNode)
  else enterStep disc state curNode segment

/-- A component of `fs_make_path` but for the last. Unlike `fs_open_path` it takes no
reference to the parent. -/
def makeStep (disc : Disc) : Component := fun state curNode segment => do
  if segment = [] ∨ segment = dot then return (some curNode, state)
  else if segment = dotDot then
    match (← state.entry curNode).parent with
    | none => return (some curNode, state)
    | some parent => return (some parent, ← directoryEntryRelease state curNode)
  else enterStep disc state curNode segment

/-- `fs_open_path`. -/
def fsOpenPath (disc : Disc) (state : State) (root : Nat) (path : Path) :
    Except Stop (Option Nat × State) := do
  let state ← addReference state root
  walkPath (openStep disc) (openStep disc) path.chars (path.chars.length + 2) state root 0 0

/-- `fs_make` with the `create` of `pkfs`. The page is what `create_file` or
`create_dir` returned. -/
def fsMake (page : Nat) (state : State) (parent : Nat) (name : Name) (type : FileType) :
    Except Stop (Option Nat × State) := do
  if type = .regular ∨ type = .directory then
    let parentEntry ← state.entry parent
    match addNode parentEntry.nodes name with
    -- the new entry is stored through the null pointer that stands for a taken name
    | none => throw .badPointer
    | some nodes =>
        let (child, state) := directoryEntryCreate state type (some parent) name (some page)
        let state ← addReference state child
        let state := state.set parent ({ parentEntry with nodes }.setDirent name (some child))
        return (some child, ← addReference state parent)
  else return (none, state)

/-- The last component of `fs_make_path`. -/
def makeLast (page : Nat) (type : FileType) : Component := fun state curNode segment => do
  let (newDirent, state) ← fsMake page state curNode segment type
  return (newDirent, ← directoryEntryRelease state curNode)

/-- `fs_make_path`. -/
def fsMakePath (disc : Disc) (page : Nat) (state : State) (root : Nat) (path : Path)
    (type : FileType) : Except Stop (Option Nat × State) := do
  let state ← addReference state root
  walkPath (makeStep disc) (makeLast page type) path.chars (path.chars.length + 2) state root 0 0

/-- `path + 1`. -/
def Path.tail (path : Path) : Path where
  chars := path.chars.tail
  noNul := fun hmem => path.noNul (List.mem_of_mem_tail hmem)

/-- The root shortcut of `process_open_path` and `process_make_path`, and the entry
at which the walk starts otherwise. -/
def processPath (walk : State → Nat → Path → Except Stop (Option Nat × State)) (state : State)
    (workingDir : Nat) (path : Path) : Except Stop (Option Nat × State) := do
  if (← charAt path.chars 0) = slash then
    if (← charAt path.chars 1) = 0 then return (some fsRoot, state)
    else walk state fsRoot path.tail
  else walk state workingDir path

/-- `process_open_path`. -/
def processOpenPath (disc : Disc) : State → Nat → Path → Except Stop (Option Nat × State) :=
  processPath (fsOpenPath disc)

/-- `process_make_path`. -/
def processMakePath (disc : Disc) (page : Nat) (type : FileType) :
    State → Nat → Path → Except Stop (Option Nat × State) :=
  processPath fun state root path => fsMakePath disc page state root path type

end PKernel.Vfs
