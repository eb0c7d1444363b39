import PKernel.Filesystem.EntryOperations
import PKernel.Library.Tally
import PKernel.Library.Transition

/-! # Mounted filesystems

The first half of `filesystem.c`: registered filesystems with their counts of
mounts, and the entries that filesystems are mounted on. The functions of a
filesystem (`alloc_node`, `mount`, `list` and `unmount`) are given with each call
that uses them.
-/

namespace PKernel.Mounts

open Vfs (Name Entry Stop addReference directoryEntryCreate directoryEntryRelease fsRoot)
open Function (update)

/-! ## Entries come and go -/

/-- Entries that are gone do not come back. -/
structure Later (files after : Vfs.State) : Prop where
  grows : files.next ≤ after.next
  gone : ∀ id < files.next, files.entries id = none → after.entries id = none
  numbered : (∀ id, files.next ≤ id → files.entries id = none) →
    ∀ id, after.next ≤ id → after.entries id = none

/-- New entries only. -/
structure Keeps (files after : Vfs.State) : Prop extends Later files after where
  live : ∀ id, files.entries id ≠ none → after.entries id ≠ none

/-- What the functions of a filesystem do when one of the calls uses them. -/
structure Driver where
  /-- The node that `alloc_node` returns. -/
  node : Nat
  /-- What `mount` returns. -/
  result : Int
  mount : Vfs.State → Nat → Except Stop Vfs.State
  list : Vfs.State → Nat → Except Stop Vfs.State
  unmount : Vfs.State → Nat → Except Stop Vfs.State
  mount_keeps : ∀ {files after mountPoint}, mount files mountPoint = .ok after → Keeps files after
  list_keeps : ∀ {files after mountPoint}, list files mountPoint = .ok after → Keeps files after
  unmount_later : ∀ {files after mountPoint},
    unmount files mountPoint = .ok after → Later files after

section Entries

variable {files middle after : Vfs.State} {id : Nat} {entry : Entry}

theorem Later.refl (files : Vfs.State) : Later files files :=
  ⟨Nat.le_refl _, fun _ _ hnone => hnone, fun hnumbered => hnumbered⟩

theorem Later.trans (hfirst : Later files middle) (hsecond : Later middle after) :
    Later files after := by
  refine ⟨Nat.le_trans hfirst.grows hsecond.grows, ?_,
    fun hnumbered => hsecond.numbered (hfirst.numbered hnumbered)⟩
  intro id hlt hnone
  exact hsecond.gone id (Nat.lt_of_lt_of_le hlt hfirst.grows) (hfirst.gone id hlt hnone)

theorem Keeps.refl (files : Vfs.State) : Keeps files files :=
  ⟨Later.refl files, fun _ hlive => hlive⟩

theorem Keeps.trans (hfirst : Keeps files middle) (hsecond : Keeps middle after) :
    Keeps files after :=
  ⟨hfirst.toLater.trans hsecond.toLater, fun id hlive => hsecond.live id (hfirst.live id hlive)⟩

theorem Keeps.set (hlive : files.entries id ≠ none) (entry : Entry) :
    Keeps files (files.set id entry) := by
  have hother : ∀ other, (files.set id entry).entries other = none ↔ files.entries other = none := by
    intro other
    by_cases heq : other = id
    · simp [Vfs.State.set, heq, hlive]
    · simp [Vfs.State.set, heq]
  refine ⟨⟨Nat.le_refl _, fun other _ => (hother other).mpr, ?_⟩, fun other => (hother other).not.mpr⟩
  intro hnumbered other hle
  exact (hother other).mpr (hnumbered other hle)

theorem Later.free (files : Vfs.State) (id : Nat) : Later files (files.free id) := by
  have hother : ∀ other, files.entries other = none → (files.free id).entries other = none := by
    intro other hnone
    by_cases heq : other = id
    · simp [Vfs.State.free, heq]
    · simpa [Vfs.State.free, heq] using hnone
  exact ⟨Nat.le_refl _, fun other _ => hother other,
    fun hnumbered other hle => hother other (hnumbered other hle)⟩

theorem entry_live (hentry : files.entry id = .ok entry) : files.entries id ≠ none := by
  simp [Vfs.State.entry_eq_ok.mp hentry]

theorem addReference_keeps (hcall : addReference files id = .ok after) : Keeps files after := by
  obtain ⟨entry, hentry, hset⟩ := bind_eq_ok.mp hcall
  cases hset
  exact Keeps.set (entry_live hentry) _

theorem directoryEntryCreate_keeps (hnumbered : ∀ id, files.next ≤ id → files.entries id = none)
    (type : Vfs.FileType) (parent : Option Nat) (parentNode : Name) (node : Option Nat) :
    Keeps files (directoryEntryCreate files type parent parentNode node).2 := by
  refine ⟨⟨Nat.le_succ _, ?_, ?_⟩, ?_⟩
  · intro id hlt hnone
    simpa [directoryEntryCreate, Vfs.State.set, Nat.ne_of_lt hlt] using hnone
  · intro _ id hle
    have hlt : files.next < id := hle
    simpa [directoryEntryCreate, Vfs.State.set, Nat.ne_of_gt hlt] using
      hnumbered id (Nat.le_of_lt hlt)
  · intro id hlive
    by_cases heq : id = files.next
    · simp [directoryEntryCreate, Vfs.State.set, heq]
    · simpa [directoryEntryCreate, Vfs.State.set, heq] using hlive

/-- A release frees entries and makes none, by induction along the chain of parents. -/
theorem releaseWith_later {fuel : Nat} (hcall : Vfs.releaseWith fuel files id = .ok after) :
    Later files after := by
  induction fuel generalizing files id after with
  | zero => simp [Vfs.releaseWith] at hcall
  | succ fuel ih =>
      simp only [Vfs.releaseWith] at hcall
      obtain ⟨entry, hentry, hcall⟩ := bind_eq_ok.mp hcall
      by_cases hzero : entry.references = 0
      · simp [hzero] at hcall
      rw [if_neg hzero] at hcall
      simp only [pure_eq_ok, ok_bind] at hcall
      have hlowered := Keeps.set (entry_live hentry)
        { entry with references := entry.references - 1 }
      by_cases hlast : entry.references - 1 = 0
      · rw [if_pos hlast] at hcall
        by_cases hnode : entry.node = none
        · -- the call stops whatever the parent is
          simp only [hnode, if_true, throw_eq_error, error_bind] at hcall
          split at hcall
          · simp at hcall
          · obtain ⟨_, _, hcall⟩ := bind_eq_ok.mp hcall
            obtain ⟨_, _, hcall⟩ := bind_eq_ok.mp hcall
            simp at hcall
        simp only [hnode, if_false] at hcall
        split at hcall
        next =>
          cases hcall
          exact hlowered.toLater.trans (Later.free _ id)
        next parent hparent =>
          obtain ⟨parentEntry, hparentEntry, hcall⟩ := bind_eq_ok.mp hcall
          obtain ⟨released, hreleased, hfree⟩ := bind_eq_ok.mp hcall
          cases hfree
          have hcleared := Keeps.set (entry_live hparentEntry)
            (parentEntry.setDirent entry.parentNode none)
          exact ((hlowered.trans hcleared).toLater.trans (ih hreleased)).trans
            (Later.free released id)
      · rw [if_neg hlast] at hcall
        cases hcall
        exact hlowered.toLater

end Entries

/-! ## The calls -/

/-- What the calls return. -/
inductive Outcome where
  | ok
  | filesystemExists
  | filesystemHasMount
  | filesystemNotFound
  | filesystemNotMounted
  | notDirectory
  /-- What the filesystem's `mount` returned instead of 0. -/
  | refused (result : Int)
deriving DecidableEq, Repr

/-- `fs_filesystem_node_t`. Nodes are named by numbers that are never used again. -/
structure FilesystemNode where
  id : Nat
  name : Name
  mountCount : Nat
deriving DecidableEq, Repr

/-- `fs_superblock_t`. -/
structure Superblock where
  prevDirent : Option Nat
  mountPoint : Nat
deriving DecidableEq, Repr

structure State where
  files : Vfs.State
  /-- The `superblock` of every entry. -/
  superblock : Nat → Option Superblock
  /-- The `mounted_fs` of every entry. -/
  mountedFs : Nat → Option Nat
  filesystems : List FilesystemNode
  /-- The number of filesystems registered so far. -/
  nextFilesystem : Nat

/-- `fs_init`. -/
def fsInit : State where
  files := ⟨update (fun _ => none) fsRoot (some ⟨none, [], 1, .directory, none, []⟩), 1⟩
  superblock _ := none
  mountedFs _ := none
  filesystems := []
  nextFilesystem := 0

/-- The walk along the list of filesystems. -/
def State.find? (state : State) (name : Name) : Option FilesystemNode :=
  state.filesystems.find? fun node => node.name == name

/-- `fs_register`. -/
def fsRegister (state : State) (name : Name) : Outcome × State :=
  match state.find? name with
  | some _ => (.filesystemExists, state)
  | none => (.ok, { state with
      filesystems := ⟨state.nextFilesystem, name, 0⟩ :: state.filesystems
      nextFilesystem := state.nextFilesystem + 1 })

/-- `fs_unregister`. -/
def fsUnregister (state : State) (name : Name) : Outcome × State :=
  match state.find? name with
  | none => (.filesystemNotFound, state)
  | some node =>
      if 0 < node.mountCount then (.filesystemHasMount, state)
      else (.ok, { state with
        filesystems := state.filesystems.filter fun other => other.id ≠ node.id })

/-- `mount_count++`. -/
def raise (filesystems : List FilesystemNode) (id : Nat) : List FilesystemNode :=
  filesystems.map fun other =>
    if other.id = id then { other with mountCount := other.mountCount + 1 } else other

/-- What `fs_mount_root` and `fs_mount` do once the superblock has its mount point. -/
def mountAt (driver : Driver) (state : State) (node : FilesystemNode) (mountPoint : Nat) :
    Except Stop (Outcome × State) := do
  let entry ← state.files.entry mountPoint
  let files ← driver.mount
    (state.files.set mountPoint { entry with type := .directory, node := some driver.node })
    mountPoint
  if driver.result ≠ 0 then return (.refused driver.result, { state with files })
  let files ← driver.list files mountPoint
  return (.ok, { state with
    files
    mountedFs := update state.mountedFs mountPoint (some node.id)
    filesystems := raise state.filesystems node.id })

/-- `fs_mount_root`. -/
def fsMountRoot (driver : Driver) (state : State) (name : Name) :
    Except Stop (Outcome × State) := do
  let root ← state.files.entry fsRoot
  let state := { state with files := state.files.set fsRoot { root with nodes := [] } }
  match state.find? name with
  | none => return (.filesystemNotFound, state)
  | some node =>
      let files ← addReference state.files fsRoot
      let superblock := update state.superblock fsRoot (some ⟨none, fsRoot⟩)
      mountAt driver { state with files, superblock } node fsRoot

/-- `fs_mount`. A mount point without a parent has no `parent_node` either. -/
def fsMount (driver : Driver) (state : State) (name : Name) (mountPoint : Nat) :
    Except Stop (Outcome × State) := do
  let entry ← state.files.entry mountPoint
  if entry.type ≠ .directory then return (.notDirectory, state)
  match state.find? name with
  | none => return (.filesystemNotFound, state)
  | some node =>
      let files ← addReference state.files mountPoint
      let (newDirent, files) :=
        directoryEntryCreate files .directory entry.parent entry.parentNode none
      match entry.parent with
      | none => throw .badPointer
      | some parent =>
          let parentEntry ← files.entry parent
          let files := files.set parent (parentEntry.setDirent entry.parentNode (some newDirent))
          let superblock := update state.superblock newDirent
            (some ⟨some mountPoint, newDirent⟩)
          let mountedFs := update state.mountedFs newDirent none
          mountAt driver { state with files, superblock, mountedFs } node newDirent

/-- The entry in the parent's list, back to what was there before the mount. -/
def restoreDirent (files : Vfs.State) (entry : Entry) (prevDirent : Option Nat) :
    Except Stop Vfs.State :=
  match entry.parent with
  | none => return files
  | some parent => do
      let parentEntry ← files.entry parent
      return files.set parent (parentEntry.setDirent entry.parentNode prevDirent)

/-- `fs_directory_entry_release` of `prev_dirent`, unless it is `NULL`. -/
def releasePrev (files : Vfs.State) : Option Nat → Except Stop Vfs.State
  | none => return files
  | some prevDirent => directoryEntryRelease files prevDirent

/-- The superblock that an entry has after `fs_unmount`, that of its parent. -/
def parentSuperblock (state : State) (files : Vfs.State) (mountPoint : Nat) (entry : Entry) :
    Except Stop (Nat → Option Superblock) :=
  match entry.parent with
  | none => return state.superblock
  | some parent => do
      let _ ← files.entry parent
      return update state.superblock mountPoint (state.superblock parent)

/-- `fs_unmount`. The mount point is written to after its release. -/
def fsUnmount (driver : Driver) (state : State) (mountPoint : Nat) :
    Except Stop (Outcome × State) := do
  let _ ← state.files.entry mountPoint
  if state.mountedFs mountPoint = none then return (.filesystemNotMounted, state)
  let files ← driver.unmount state.files mountPoint
  let entry ← files.entry mountPoint
  match state.superblock mountPoint with
  | none => throw .badPointer
  | some superblock =>
      let files ← restoreDirent files entry superblock.prevDirent
      let files ← releasePrev files superblock.prevDirent
      let files ← directoryEntryRelease files mountPoint
      let _ ← files.entry mountPoint
      let superblock ← parentSuperblock state files mountPoint entry
      return (.ok, { state with
        files, superblock, mountedFs := update state.mountedFs mountPoint none })

end PKernel.Mounts
