import PKernel.Filesystem.PathReferences
import PKernel.Library.TableTree

/-! # Sysfs

`sysfs_add_entry` and `sysfs_mount`: the files that modules register are made in every tree that is
mounted, at once or when it is mounted, by `fs_make_path_dirs`, which makes the directories on the
way. Making a file adds its path to one tree, with the directories that were not there, and changes
nothing else.
-/

namespace PKernel.Sysfs

open Library.TableTree
open Vfs (Component Disc Entry EntryNode FileType Name Path Segments Stop dot dotDot)
open Function (update update_of_ne update_self)

/-! ## The code -/

/-- `sysfs_fs_node_t` without its base. An operation is none where the pointer is `NULL`. -/
structure Node (Op : Type) where
  id : Nat
  read : Option Op
  write : Option Op

/-- `sysfs_entry_t`. -/
structure Registered (Op : Type) where
  path : Path
  node : Node Op

/-- The entries of the mounted trees, and what sysfs keeps. A node goes by the number of the entry
that it was made for, and is as `sysfs_alloc_node` leaves it until it is set. -/
structure State (Op : Type) where
  files : Vfs.State
  nodes : Nat → Node Op
  /-- The list from `sysfs_head.next` on. -/
  entries : List (Registered Op)
  /-- The mount points in `sysfs_mounts`. -/
  mounts : List Nat

section Code

/-- Sysfs has no `lookup`: an entry that is not in the cache is not found. -/
def noLookup : Disc := fun _ => []

/-- `fs_make` in a tree of sysfs. `sysfs_create` makes an entry as the `create` of pkfs does. -/
def fsMake (files : Vfs.State) (parent : Nat) (name : Name) (type : FileType) :
    Except Stop (Option Nat × Vfs.State) :=
  Vfs.fsMake files.next files parent name type

/-- A component of `fs_make_path_dirs` but for the last. -/
def makeDirsStep : Component := fun files curNode segment => do
  if segment = [] ∨ segment = dot then return (some curNode, files)
  else if segment = dotDot then
    match (← files.entry curNode).parent with
    | none => return (some curNode, files)
    | some parent => return (some parent, ← Vfs.directoryEntryRelease files curNode)
  else
    match ← Vfs.enterStep noLookup files curNode segment with
    | (some newNode, files) => return (some newNode, files)
    | (none, files) => fsMake files curNode segment .directory

/-- The last component. -/
def makeDirsLast (type : FileType) : Component := fun files curNode segment => do
  let (newDirent, files) ← fsMake files curNode segment type
  return (newDirent, ← Vfs.directoryEntryRelease files curNode)

/-- `fs_make_path_dirs`. -/
def fsMakePathDirs (files : Vfs.State) (root : Nat) (path : Path) (type : FileType) :
    Except Stop (Option Nat × Vfs.State) := do
  let files ← Vfs.addReference files root
  Vfs.walkPath makeDirsStep (makeDirsLast type) path.chars (path.chars.length + 2) files root 0 0

variable {Op : Type}

/-- The attributes of a registered file are stored in the node of its entry. -/
def setNode (state : State Op) (dirent : Nat) (node : Node Op) : Except Stop (State Op) := do
  match (← state.files.entry dirent).node with
  | none => throw .badPointer
  | some place => return { state with nodes := update state.nodes place node }

/-- The loop of `sysfs_add_entry` over the mounts: whether it came to the end. -/
def addToMounts (entry : Registered Op) :
    List Nat → State Op → Except Stop (Bool × State Op)
  | [], state => .ok (true, state)
  | mountPoint :: rest, state => do
      match ← fsMakePathDirs state.files mountPoint entry.path .regular with
      | (none, files) => return (false, { state with files })
      | (some dirent, files) => do
          let state ← setNode { state with files } dirent entry.node
          addToMounts entry rest state

/-- `sysfs_add_entry`: whether it returns 0, and not `ERROR_EXISTS`. -/
def sysfsAddEntry (state : State Op) (entry : Registered Op) : Except Stop (Bool × State Op) :=
  addToMounts entry state.mounts { state with entries := entry :: state.entries }

/-- The loop of `sysfs_mount` over the list, which uses the entry without a look. -/
def replayEntries (mountPoint : Nat) : List (Registered Op) → State Op → Except Stop (State Op)
  | [], state => .ok state
  | entry :: rest, state => do
      match ← fsMakePathDirs state.files mountPoint entry.path .regular with
      | (none, _) => throw .badPointer
      | (some dirent, files) => do
          let state ← setNode { state with files } dirent entry.node
          replayEntries mountPoint rest state

/-- `sysfs_mount`. -/
def sysfsMount (state : State Op) (mountPoint : Nat) : Except Stop (State Op) :=
  replayEntries mountPoint state.entries { state with mounts := state.mounts ++ [mountPoint] }

/-- What `fs_mount` does to a directory that is in a tree of sysfs itself: one more reference, and
its `parent_node` leads to the mount point instead. -/
def coverDirectory (files : Vfs.State) (parent : Option Nat) (parentNode : Name)
    (mountPoint : Nat) : Except Stop Vfs.State :=
  match parent with
  | none => .ok files
  | some id =>
      match files.entries id with
      | none => .ok files
      | some entry => do
          let files ← match (entry.find? parentNode).bind EntryNode.dirent with
            | none => throw .badPointer
            | some directory => Vfs.addReference files directory
          return files.set id ((← files.entry id).setDirent parentNode (some mountPoint))

/-- `fs_mount` of a sysfs: a new entry with a node, at the place of the directory that it is mounted
on, then `sysfs_mount`, and the reference that `sysfs_list` adds. A parent that has no entry here is
of another filesystem. -/
def mountSysfs (state : State Op) (parent : Option Nat) (parentNode : Name) :
    Except Stop (State Op) := do
  let files ← coverDirectory state.files parent parentNode state.files.next
  let (mountPoint, files) :=
    Vfs.directoryEntryCreate files .directory parent parentNode (some files.next)
  let state ← sysfsMount { state with files } mountPoint
  return { state with files := ← Vfs.addReference state.files mountPoint }

end Code

/-! ## Trees -/

/-- The entry under a name. -/
def childOf (files : Vfs.State) (id : Nat) (name : Name) : Option Nat :=
  ((files.entries id).bind fun entry => entry.find? name).bind EntryNode.dirent

/-- The entries are those of trees of sysfs: every name has an entry, every entry a reference and a
node of its own, and there is one way to each entry from the roots. -/
structure Grown (files : Vfs.State) (roots : List Nat) : Prop where
  fresh : ∀ id, files.next ≤ id → files.entries id = none
  rooted : ∀ root ∈ roots, (files.entries root).isSome
  linked : ∀ id entry, files.entries id = some entry → ∀ node ∈ entry.nodes,
    ∃ child, node.dirent = some child ∧ (files.entries child).isSome
  positive : ∀ id entry, files.entries id = some entry → 0 < entry.references
  node : ∀ id entry, files.entries id = some entry → entry.node = some id
  forest : ∀ depth, Forest (childOf files) {root | root ∈ roots} depth

/-- The entries that were there stay where they are, and the new paths are some of those below a
root that `isNew` has, for the types it has. -/
structure Extends (files after : Vfs.State) (roots : List Nat) (root : Nat)
    (isNew : List Name → FileType → Prop) : Prop where
  grows : files.next ≤ after.next
  kept : ∀ id entry, files.entries id = some entry →
    ∃ later, after.entries id = some later ∧ later.type = entry.type
  old : ∀ other ∈ roots, ∀ names id, descend (childOf files) other names = some id →
    descend (childOf after) other names = some id
  new : ∀ other ∈ roots, ∀ names id, descend (childOf after) other names = some id →
    descend (childOf files) other names = some id ∨
      other = root ∧ files.next ≤ id ∧
        ∃ entry, after.entries id = some entry ∧ isNew names entry.type

section Extends

variable {files middle after : Vfs.State} {roots : List Nat} {root : Nat}
  {isNew more : List Name → FileType → Prop}

theorem Extends.mono (hextends : Extends files after roots root isNew)
    (hmore : ∀ names type, isNew names type → more names type) :
    Extends files after roots root more := by
  refine { hextends with new := fun other hother names id hid => ?_ }
  rcases hextends.new other hother names id hid with hold | ⟨hsame, hle, entry, hentry, hnew⟩
  · exact .inl hold
  · exact .inr ⟨hsame, hle, entry, hentry, hmore _ _ hnew⟩

theorem Extends.trans (hfirst : Extends files middle roots root isNew)
    (hsecond : Extends middle after roots root isNew) : Extends files after roots root isNew := by
  refine ⟨hfirst.grows.trans hsecond.grows, fun id entry hentry => ?_, fun other hother names id hid =>
    hsecond.old other hother names id (hfirst.old other hother names id hid),
    fun other hother names id hid => ?_⟩
  · obtain ⟨between, hbetween, htype⟩ := hfirst.kept id entry hentry
    obtain ⟨later, hlater, htype'⟩ := hsecond.kept id between hbetween
    exact ⟨later, hlater, htype'.trans htype⟩
  · rcases hsecond.new other hother names id hid with hmiddle | ⟨hsame, hle, hentry⟩
    · rcases hfirst.new other hother names id hmiddle with
        hold | ⟨hsame, hle, entry, hentry, hnew⟩
      · exact .inl hold
      · obtain ⟨later, hlater, htype⟩ := hsecond.kept id entry hentry
        exact .inr ⟨hsame, hle, later, hlater, htype ▸ hnew⟩
    · exact .inr ⟨hsame, hfirst.grows.trans hle, hentry⟩

end Extends

/-! ## Counts -/

section Counts

variable {files : Vfs.State} {roots : List Nat} {id count root : Nat} {entry : Entry}
  {isNew : List Name → FileType → Prop}

theorem childOf_recount (hentry : files.entries id = some entry) :
    childOf (files.set id { entry with references := count }) = childOf files := by
  funext other name
  unfold childOf
  by_cases heq : other = id
  · subst heq
    rw [hentry]
    simp only [Vfs.State.set, update_self]
    rfl
  · simp only [Vfs.State.set, update_of_ne heq]

theorem entries_recount (hentry : files.entries id = some entry) {other : Nat} {found : Entry}
    (hfound : (files.set id { entry with references := count }).entries other = some found) :
    ∃ old, files.entries other = some old ∧ found.type = old.type ∧ found.nodes = old.nodes ∧
      found.node = old.node ∧ (other ≠ id → found = old) ∧ (other = id → found.references = count) := by
  by_cases heq : other = id
  · subst heq
    simp only [Vfs.State.set, update_self, Option.some.injEq] at hfound
    exact ⟨entry, hentry, hfound ▸ rfl, hfound ▸ rfl, hfound ▸ rfl, fun hne => absurd rfl hne,
      fun _ => hfound ▸ rfl⟩
  · simp only [Vfs.State.set, update_of_ne heq] at hfound
    exact ⟨found, hfound, rfl, rfl, rfl, fun _ => rfl, fun hsame => absurd hsame heq⟩

theorem isSome_recount (hentry : files.entries id = some entry) (other : Nat) :
    ((files.set id { entry with references := count }).entries other).isSome ↔
      (files.entries other).isSome := by
  by_cases heq : other = id
  · subst heq
    simp [Vfs.State.set, hentry]
  · simp [Vfs.State.set, heq]

/-- A count says nothing about the trees. -/
theorem Grown.recount (hgrown : Grown files roots) (hentry : files.entries id = some entry)
    (hcount : 0 < count) : Grown (files.set id { entry with references := count }) roots := by
  refine ⟨fun other hle => ?_, fun root hroot => ?_, fun other found hfound node hnode => ?_,
    fun other found hfound => ?_, fun other found hfound => ?_, fun depth => ?_⟩
  · have hnone := hgrown.fresh other hle
    rw [← Option.not_isSome_iff_eq_none] at hnone ⊢
    rwa [isSome_recount hentry]
  · exact (isSome_recount hentry root).mpr (hgrown.rooted root hroot)
  · obtain ⟨old, hold, -, hnodes, -⟩ := entries_recount hentry hfound
    obtain ⟨child, hchild, hlive⟩ := hgrown.linked other old hold node (hnodes ▸ hnode)
    exact ⟨child, hchild, (isSome_recount hentry child).mpr hlive⟩
  · obtain ⟨old, hold, -, -, -, hother, hsame⟩ := entries_recount hentry hfound
    by_cases heq : other = id
    · rw [hsame heq]
      exact hcount
    · rw [hother heq]
      exact hgrown.positive other old hold
  · obtain ⟨old, hold, -, -, hnode, -⟩ := entries_recount hentry hfound
    exact hnode.trans (hgrown.node other old hold)
  · rw [childOf_recount hentry]
    exact hgrown.forest depth

theorem extends_recount (hentry : files.entries id = some entry) :
    Extends files (files.set id { entry with references := count }) roots root isNew := by
  refine ⟨Nat.le_refl _, fun other old hold => ?_, fun other _ names found hfound => ?_,
    fun other _ names found hfound => .inl ?_⟩
  · have hlive := (@isSome_recount files id count entry hentry other).mpr (by rw [hold]; rfl)
    obtain ⟨later, hlater⟩ := Option.isSome_iff_exists.mp hlive
    obtain ⟨old', hold', htype, -⟩ := entries_recount hentry hlater
    cases hold.symm.trans hold'
    exact ⟨later, hlater, htype⟩
  · rwa [childOf_recount hentry]
  · rwa [childOf_recount hentry] at hfound

end Counts

/-! ## New entries -/

section Make

variable {files made : Vfs.State} {roots : List Nat} {root cur : Nat} {names : List Name}
  {name : Name} {type : FileType} {entry : Entry}

/-- Every entry on a path is there. -/
theorem Grown.live (hgrown : Grown files roots) (hroot : root ∈ roots) {id : Nat}
    (hid : descend (childOf files) root names = some id) : (files.entries id).isSome := by
  cases names using List.reverseRecOn with
  | nil =>
      cases hid
      exact hgrown.rooted root hroot
  | append_singleton names name =>
      obtain ⟨parent, -, hchild⟩ := descend_concat_eq_some.mp hid
      unfold childOf at hchild
      cases hparent : files.entries parent with
      | none => simp [hparent] at hchild
      | some entry =>
          rw [hparent, Option.bind_some] at hchild
          obtain ⟨node, hfind, hdirent⟩ := Option.bind_eq_some_iff.mp hchild
          obtain ⟨child, hlinked, hlive⟩ :=
            hgrown.linked parent entry hparent node (List.mem_of_find?_eq_some hfind)
          cases hdirent.symm.trans hlinked
          exact hlive

/-- A number that has not been used is on no path. -/
theorem Grown.descend_ne_next (hgrown : Grown files roots) (hroot : root ∈ roots) :
    descend (childOf files) root names ≠ some files.next := by
  intro hid
  have hlive := hgrown.live hroot hid
  rw [hgrown.fresh _ (Nat.le_refl _)] at hlive
  cases hlive

/-- Where a name leads to nothing there is no such name. -/
theorem Grown.name_free (hgrown : Grown files roots) (hentry : files.entries cur = some entry)
    (hchild : childOf files cur name = none) : entry.find? name = none := by
  cases hfind : entry.find? name with
  | none => rfl
  | some node =>
      obtain ⟨child, hlinked, -⟩ :=
        hgrown.linked cur entry hentry node (List.mem_of_find?_eq_some hfind)
      simp [childOf, hentry, hfind, hlinked] at hchild

/-- The entries after `fs_make`. -/
structure Made (files made : Vfs.State) (cur : Nat) (name : Name) (type : FileType)
    (entry : Entry) : Prop where
  next : made.next = files.next + 1
  new : made.entries files.next = some ⟨some cur, name, 2, type, some files.next, []⟩
  parent : ∃ later, made.entries cur = some later ∧ later.references = entry.references + 1 ∧
    later.type = entry.type ∧ later.node = entry.node ∧
    later.nodes = ⟨name, some files.next⟩ :: entry.nodes
  other : ∀ id, id ≠ cur → id ≠ files.next → made.entries id = files.entries id

theorem fsMake_made (hgrown : Grown files roots) (hentry : files.entries cur = some entry)
    (htype : type = .regular ∨ type = .directory) (hchild : childOf files cur name = none) :
    ∃ made, fsMake files cur name type = .ok (some files.next, made) ∧
      Made files made cur name type entry := by
  have hfree := hgrown.name_free hentry hchild
  have hname : name ∉ entry.names := Entry.find?_eq_none.mp hfree
  have hlt : cur < files.next := by
    by_contra hge
    rw [hgrown.fresh cur (by omega)] at hentry
    cases hentry
  have hne : files.next ≠ cur := Nat.ne_of_gt hlt
  have hkept : entry.nodes.map (fun node => if node.name = name then
      { node with dirent := some files.next } else node) = entry.nodes := by
    rw [List.map_congr_left fun node hnode => if_neg fun heq =>
      hname (List.mem_map.mpr ⟨node, hnode, heq⟩), List.map_id']
  refine ⟨_, Vfs.fsMake_eq files.next hentry htype hname, rfl, ?_, ?_, ?_⟩
  · dsimp only
    rw [update_of_ne hne, update_self]
  · refine ⟨_, update_self .., rfl, rfl, rfl, ?_⟩
    simp only [Entry.setDirent, List.map_cons, if_true, hkept]
  · intro id hcur hnext
    dsimp only
    rw [update_of_ne hcur, update_of_ne hnext]

theorem Made.childOf_new (hmade : Made files made cur name type entry) :
    childOf made cur name = some files.next := by
  obtain ⟨later, hlater, -, -, -, hnodes⟩ := hmade.parent
  simp [childOf, hlater, Entry.find?, hnodes]

theorem Made.childOf_empty (hmade : Made files made cur name type entry) (slot : Name) :
    childOf made files.next slot = none := by
  simp [childOf, hmade.new, Entry.find?]

theorem Made.childOf_kept (hmade : Made files made cur name type entry)
    (hentry : files.entries cur = some entry) {id : Nat} {slot : Name} (hnew : id ≠ files.next)
    (hother : id ≠ cur ∨ slot ≠ name) : childOf made id slot = childOf files id slot := by
  by_cases hcur : id = cur
  · subst hcur
    obtain ⟨later, hlater, -, -, -, hnodes⟩ := hmade.parent
    have hslot : name ≠ slot := fun heq => hother.resolve_left (fun hne => hne rfl) heq.symm
    simp [childOf, hlater, hentry, Entry.find?, hnodes, hslot]
  · rw [childOf, hmade.other id hcur hnew, childOf]

/-- The new entry is at one new path. -/
theorem Made.descend_eq (hmade : Made files made cur name type entry) (hgrown : Grown files roots)
    (hentry : files.entries cur = some entry) (hroot : root ∈ roots)
    (hcur : descend (childOf files) root names = some cur)
    (hchild : childOf files cur name = none) {other : Nat} (hother : other ∈ roots)
    (path : List Name) : descend (childOf made) other path =
      if other = root ∧ path = names ++ [name] then some files.next
      else descend (childOf files) other path :=
  descend_attach (hgrown.forest (names.length + path.length + 1)) hroot hcur (by omega) hchild
    (fun _ hroot' _ _ => hgrown.descend_ne_next hroot') hmade.childOf_new hmade.childOf_empty
    (fun _ _ hnew hother => hmade.childOf_kept hentry hnew hother) hother (by omega)

theorem Made.grown (hmade : Made files made cur name type entry) (hgrown : Grown files roots)
    (hentry : files.entries cur = some entry) (hroot : root ∈ roots)
    (hcur : descend (childOf files) root names = some cur)
    (hchild : childOf files cur name = none) : Grown made roots := by
  obtain ⟨later, hlater, hreferences, -, hnode, hnodes⟩ := hmade.parent
  have hcases : ∀ id found, made.entries id = some found →
      id = files.next ∧ found = ⟨some cur, name, 2, type, some files.next, []⟩ ∨
        id = cur ∧ found = later ∨ files.entries id = some found := by
    intro id found hfound
    by_cases hnew : id = files.next
    · subst hnew
      exact .inl ⟨rfl, Option.some.inj (hfound.symm.trans hmade.new)⟩
    · by_cases hsame : id = cur
      · subst hsame
        exact .inr (.inl ⟨rfl, Option.some.inj (hfound.symm.trans hlater)⟩)
      · rw [hmade.other id hsame hnew] at hfound
        exact .inr (.inr hfound)
  have hlive : ∀ id, (files.entries id).isSome → (made.entries id).isSome := by
    intro id hid
    by_cases hsame : id = cur
    · rw [hsame, hlater]
      rfl
    · have hnew : id ≠ files.next := by
        rintro rfl
        rw [hgrown.fresh _ (Nat.le_refl _)] at hid
        cases hid
      rwa [hmade.other id hsame hnew]
  refine ⟨fun id hle => ?_, fun other hother => hlive other (hgrown.rooted other hother),
    fun id found hfound node hmem => ?_, fun id found hfound => ?_, fun id found hfound => ?_,
    fun depth => ?_⟩
  · rw [hmade.next] at hle
    have hsame : id ≠ cur := by
      rintro rfl
      rw [hgrown.fresh id (by omega)] at hentry
      cases hentry
    rw [hmade.other id hsame (by omega)]
    exact hgrown.fresh id (by omega)
  · rcases hcases id found hfound with ⟨-, rfl⟩ | ⟨-, rfl⟩ | hold
    · cases hmem
    · rw [hnodes] at hmem
      rcases List.mem_cons.mp hmem with rfl | hmem
      · exact ⟨files.next, rfl, by rw [hmade.new]; rfl⟩
      · obtain ⟨child, hdirent, hchildLive⟩ := hgrown.linked cur entry hentry node hmem
        exact ⟨child, hdirent, hlive child hchildLive⟩
    · obtain ⟨child, hdirent, hchildLive⟩ := hgrown.linked id found hold node hmem
      exact ⟨child, hdirent, hlive child hchildLive⟩
  · rcases hcases id found hfound with ⟨-, rfl⟩ | ⟨-, rfl⟩ | hold
    · exact Nat.two_pos
    · rw [hreferences]
      exact Nat.succ_pos _
    · exact hgrown.positive id found hold
  · rcases hcases id found hfound with ⟨rfl, rfl⟩ | ⟨rfl, rfl⟩ | hold
    · rfl
    · exact hnode.trans (hgrown.node id entry hentry)
    · exact hgrown.node id found hold
  · exact (hgrown.forest depth).attach (fun _ hroot' _ _ => hgrown.descend_ne_next hroot')
      fun _ hroot' path _ => hmade.descend_eq hgrown hentry hroot hcur hchild hroot' path

theorem Made.extends (hmade : Made files made cur name type entry) (hgrown : Grown files roots)
    (hentry : files.entries cur = some entry) (hroot : root ∈ roots)
    (hcur : descend (childOf files) root names = some cur)
    (hchild : childOf files cur name = none) :
    Extends files made roots root fun path new => path = names ++ [name] ∧ new = type := by
  obtain ⟨later, hlater, -, htype, -⟩ := hmade.parent
  refine ⟨by rw [hmade.next]; exact Nat.le_succ _, fun id old hold => ?_,
    fun other hother path id hid => ?_, fun other hother path id hid => ?_⟩
  · by_cases hsame : id = cur
    · subst hsame
      cases hentry.symm.trans hold
      exact ⟨later, hlater, htype⟩
    · have hnew : id ≠ files.next := by
        rintro rfl
        rw [hgrown.fresh _ (Nat.le_refl _)] at hold
        cases hold
      exact ⟨old, by rw [hmade.other id hsame hnew, hold], rfl⟩
  · rw [hmade.descend_eq hgrown hentry hroot hcur hchild hother, if_neg]
    · exact hid
    · rintro ⟨rfl, rfl⟩
      rw [descend_concat, hcur, Option.bind_some, hchild] at hid
      cases hid
  · rw [hmade.descend_eq hgrown hentry hroot hcur hchild hother] at hid
    split at hid
    next hboth =>
      cases hid
      exact .inr ⟨hboth.1, Nat.le_refl _, _, hmade.new, hboth.2, rfl⟩
    next => exact .inl hid

end Make

/-! ## The walk -/

/-- A component that is a name. -/
def Plain (name : Name) : Prop := name ≠ [] ∧ name ≠ dot ∧ name ≠ dotDot

instance : DecidablePred Plain := fun _ => inferInstanceAs (Decidable (_ ∧ _ ∧ _))

section Walk

variable {files : Vfs.State} {roots : List Nat} {root cur : Nat} {names : List Name}
  {name : Name} {entry : Entry}

theorem release_held (hentry : files.entries cur = some entry) (hheld : 1 < entry.references) :
    Vfs.directoryEntryRelease files cur =
      .ok (files.set cur { entry with references := entry.references - 1 }) :=
  Vfs.releaseWith_of_more hentry hheld

/-- A component leads to an entry with a reference for the walk, which is new if there was none. -/
theorem makeDirsStep_returns (hgrown : Grown files roots) (hroot : root ∈ roots)
    (hcur : descend (childOf files) root names = some cur)
    (hentry : files.entries cur = some entry) (hheld : 1 < entry.references) (hplain : Plain name) :
    ∃ next after later, makeDirsStep files cur name = .ok (some next, after) ∧ Grown after roots ∧
      descend (childOf after) root (names ++ [name]) = some next ∧
      after.entries next = some later ∧ 1 < later.references ∧
      Extends files after roots root fun path type => path = names ++ [name] ∧ type = .directory := by
  have hstep : makeDirsStep files cur name = (do
      match ← Vfs.enterStep noLookup files cur name with
      | (some newNode, files) => return (some newNode, files)
      | (none, files) => fsMake files cur name .directory) :=
    (if_neg (not_or.mpr ⟨hplain.1, hplain.2.1⟩)).trans (if_neg hplain.2.2)
  rw [hstep]
  cases hchild : childOf files cur name with
  | some child =>
      have hpath : descend (childOf files) root (names ++ [name]) = some child := by
        rw [descend_concat, hcur, Option.bind_some, hchild]
      have hne : cur ≠ child := by
        rintro rfl
        have hsame := (hgrown.forest (names.length + 1) root hroot root hroot _ _ _ (by omega)
          (by simp) hcur hpath).2
        simpa using congrArg List.length hsame
      obtain ⟨childEntry, hchildEntry⟩ := Option.isSome_iff_exists.mp (hgrown.live hroot hpath)
      have hfind : ∃ node, entry.find? name = some node ∧ node.dirent = some child := by
        rw [childOf, hentry, Option.bind_some] at hchild
        exact Option.bind_eq_some_iff.mp hchild
      obtain ⟨⟨slot, dirent⟩, hfind, rfl⟩ := hfind
      have hslot : slot = name := by simpa using List.find?_some hfind
      subst hslot
      -- one reference for the child, and one less for its directory
      have hcounted := hgrown.recount hchildEntry (Nat.succ_pos childEntry.references)
      have hentry' : (files.set child
          { childEntry with references := childEntry.references + 1 }).entries cur =
            some entry := by
        simpa [Vfs.State.set, hne] using hentry
      have henter : Vfs.enterStep noLookup files cur slot = .ok (some child,
          (files.set child { childEntry with references := childEntry.references + 1 }).set cur
            { entry with references := entry.references - 1 }) := by
        simp only [Vfs.enterStep, Vfs.directoryEntryEnter, Vfs.State.entry_eq_ok.mpr hentry, ok_bind,
          hfind, Vfs.directoryNodeEnter_cached hentry hfind, Vfs.addReference,
          Vfs.State.entry_eq_ok.mpr hchildEntry, pure_eq_ok, Except.map, release_held hentry' hheld]
      refine ⟨child, _, { childEntry with references := childEntry.references + 1 },
        by rw [henter]; rfl, hcounted.recount hentry' (by omega), ?_, ?_, ?_, ?_⟩
      · rw [childOf_recount hentry', childOf_recount hchildEntry]
        exact hpath
      · simp [Vfs.State.set, hne.symm]
      · exact Nat.succ_lt_succ (hgrown.positive child childEntry hchildEntry)
      · exact (extends_recount hchildEntry).trans (extends_recount hentry')
  | none =>
      have hfind := hgrown.name_free hentry hchild
      have hreleased := hgrown.recount hentry (show 0 < entry.references - 1 by omega)
      have henter : Vfs.enterStep noLookup files cur name = .ok (none,
          files.set cur { entry with references := entry.references - 1 }) := by
        simp only [Vfs.enterStep, Vfs.directoryEntryEnter, Vfs.State.entry_eq_ok.mpr hentry, ok_bind,
          hfind, pure_eq_ok, release_held hentry hheld]
      obtain ⟨released, hset⟩ : ∃ released, released =
          files.set cur { entry with references := entry.references - 1 } := ⟨_, rfl⟩
      have hentry' : released.entries cur =
          some { entry with references := entry.references - 1 } := by
        simp [hset, Vfs.State.set]
      have hsame : childOf released = childOf files := by
        rw [hset, childOf_recount hentry]
      rw [← hset] at hreleased henter
      obtain ⟨made, hmake, hmade⟩ :=
        @fsMake_made _ _ _ _ .directory _ hreleased hentry' (.inr rfl) (by rw [hsame, hchild])
      have hcur' : descend (childOf released) root names = some cur := by rw [hsame, hcur]
      have hchild' : childOf released cur name = none := by rw [hsame, hchild]
      refine ⟨released.next, made, _, by rw [henter]; exact hmake,
        hmade.grown hreleased hentry' hroot hcur' hchild', ?_, hmade.new, Nat.one_lt_two, ?_⟩
      · rw [hmade.descend_eq hreleased hentry' hroot hcur' hchild' hroot, if_pos ⟨rfl, rfl⟩]
      · have hrecount : Extends files released roots root fun path type =>
            path = names ++ [name] ∧ type = .directory := hset ▸ extends_recount hentry
        exact hrecount.trans (hmade.extends hreleased hentry' hroot hcur' hchild')

/-- The last component is a new file. -/
theorem makeDirsLast_returns (hgrown : Grown files roots) (hroot : root ∈ roots)
    (hcur : descend (childOf files) root names = some cur)
    (hentry : files.entries cur = some entry) (hheld : 1 < entry.references)
    (hchild : childOf files cur name = none) :
    ∃ next after, makeDirsLast .regular files cur name = .ok (some next, after) ∧
      Grown after roots ∧ descend (childOf after) root (names ++ [name]) = some next ∧
      files.next ≤ next ∧
      Extends files after roots root fun path type => path = names ++ [name] ∧ type = .regular := by
  obtain ⟨made, hmake, hmade⟩ := @fsMake_made _ _ _ _ .regular _ hgrown hentry (.inl rfl) hchild
  obtain ⟨later, hlater, hreferences, -⟩ := hmade.parent
  have hmadeGrown := hmade.grown hgrown hentry hroot hcur hchild
  refine ⟨files.next, made.set cur { later with references := later.references - 1 }, ?_,
    hmadeGrown.recount hlater (by omega), ?_, Nat.le_refl _,
    (hmade.extends hgrown hentry hroot hcur hchild).trans (extends_recount hlater)⟩
  · simp only [makeDirsLast, hmake, ok_bind, release_held hlater (by omega), pure_eq_ok]
  · rw [childOf_recount hlater, hmade.descend_eq hgrown hentry hroot hcur hchild hroot,
      if_pos ⟨rfl, rfl⟩]

/-- What is new for a file at the end of a path: the file, and the directories on the way. -/
def IsPart (full path : List Name) (type : FileType) : Prop :=
  path = full ∧ type = .regular ∨ path <+: full ∧ path ≠ full ∧ type = .directory

/-- The rest of a walk makes what is missing of the rest of the path. -/
theorem walkDirs_returns {rest : List Name} (hgrown : Grown files roots) (hroot : root ∈ roots)
    (hcur : descend (childOf files) root names = some cur)
    (hentry : files.entries cur = some entry) (hheld : 1 < entry.references) (hne : rest ≠ [])
    (hplain : ∀ name ∈ rest, Plain name)
    (hfree : descend (childOf files) root (names ++ rest) = none) :
    ∃ next after, Vfs.walkSegments makeDirsStep (makeDirsLast .regular) files cur (.ofList rest) =
        .ok (some next, after) ∧ Grown after roots ∧
      descend (childOf after) root (names ++ rest) = some next ∧ files.next ≤ next ∧
      Extends files after roots root (IsPart (names ++ rest)) := by
  induction rest generalizing files cur names entry with
  | nil => exact absurd rfl hne
  | cons name rest ih =>
      cases rest with
      | nil =>
          have hchild : childOf files cur name = none := by
            rwa [descend_concat, hcur, Option.bind_some] at hfree
          obtain ⟨next, after, hlast, hafter, hpath, hle, hextends⟩ :=
            makeDirsLast_returns hgrown hroot hcur hentry hheld hchild
          exact ⟨next, after, hlast, hafter, hpath, hle, hextends.mono fun _ _ hnew => .inl hnew⟩
      | cons second rest =>
          obtain ⟨reached, between, later, hstep, hbetween, hreached, hlater, hcount, hextends⟩ :=
            makeDirsStep_returns hgrown hroot hcur hentry hheld (hplain name List.mem_cons_self)
          have hsplit : names ++ name :: second :: rest = names ++ [name] ++ second :: rest := by
            rw [List.append_assoc, List.singleton_append]
          have hlonger : names ++ [name] ≠ names ++ [name] ++ second :: rest := by
            intro heq
            simpa using congrArg List.length heq
          have hstill : descend (childOf between) root (names ++ [name] ++ second :: rest) = none := by
            cases hid : descend (childOf between) root (names ++ [name] ++ second :: rest) with
            | none => rfl
            | some id =>
                rcases hextends.new root hroot _ id hid with hold | ⟨-, -, _, -, hsame, -⟩
                · rw [hsplit, hold] at hfree
                  cases hfree
                · exact absurd hsame.symm hlonger
          obtain ⟨next, after, hwalk, hafter, hpath, hle, hrest⟩ :=
            ih hbetween hreached hlater hcount (List.cons_ne_nil second rest)
              (fun other hother => hplain other (List.mem_cons_of_mem name hother)) hstill
          rw [hsplit]
          refine ⟨next, after, ?_, hafter, hpath, hextends.grows.trans hle,
            (hextends.mono ?_).trans hrest⟩
          · rw [Segments.ofList_cons (List.cons_ne_nil second rest), Vfs.walkSegments, hstep]
            exact hwalk
          · rintro path type ⟨rfl, rfl⟩
            exact .inr ⟨List.prefix_append _ _, hlonger, rfl⟩

end Walk

/-- A relative path without empty, `.` or `..` components. -/
def Relative (path : Path) : Prop := ∀ name ∈ Vfs.components path, Plain name

instance : DecidablePred Relative := fun path =>
  inferInstanceAs (Decidable (∀ name ∈ Vfs.components path, Plain name))

/-- A file is made at the end of a path that leads nowhere. -/
theorem fsMakePathDirs_returns {files : Vfs.State} {roots : List Nat} {root : Nat} {path : Path}
    (hgrown : Grown files roots) (hroot : root ∈ roots) (hrelative : Relative path)
    (hfree : descend (childOf files) root (Vfs.components path) = none) :
    ∃ next after, fsMakePathDirs files root path .regular = .ok (some next, after) ∧
      Grown after roots ∧ descend (childOf after) root (Vfs.components path) = some next ∧
      files.next ≤ next ∧ Extends files after roots root (IsPart (Vfs.components path)) := by
  obtain ⟨entry, hentry⟩ := Option.isSome_iff_exists.mp (hgrown.rooted root hroot)
  have hpositive := hgrown.positive root entry hentry
  have hseparated : Vfs.Separated path.chars :=
    Vfs.separated_of_components fun name hname => (hrelative name (List.mem_of_mem_tail hname)).1
  have hnames : Vfs.components path ≠ [] := List.splitOn_ne_nil Vfs.slash path.chars
  have hcounted := hgrown.recount hentry (Nat.succ_pos entry.references)
  have hcur : descend (childOf (files.set root { entry with references := entry.references + 1 }))
      root [] = some root := rfl
  obtain ⟨next, after, hwalk, hafter, hpath, hle, hextends⟩ :=
    @walkDirs_returns _ _ _ _ [] { entry with references := entry.references + 1 } _ hcounted hroot
      hcur (by simp [Vfs.State.set]) (by simpa using hpositive) hnames hrelative
      (by rw [childOf_recount hentry]; exact hfree)
  refine ⟨next, after, ?_, hafter, hpath, hle, (extends_recount hentry).trans hextends⟩
  rw [fsMakePathDirs, Vfs.addReference, Vfs.State.entry_eq_ok.mpr hentry, ok_bind, pure_eq_ok,
    ok_bind, Vfs.walkPath_eq_scan, Vfs.scan_of_separated hseparated]
  exact hwalk

end PKernel.Sysfs
