import PKernel.Filesystem.PathReferences

/-! # Removing files

`fs_remove` of `filesystem.c`, `fs_node_release` of `node.c` and `remove.c`. A node
that is marked is deleted by its filesystem when the last reference to its entry
goes. Every entry has a node of its own, with the one reference it was made with.
-/

namespace PKernel.Vfs

/-- The cache, with the nodes that are marked and the ones that were deleted. -/
structure Volume where
  state : State
  /-- `node->delete`, by the entry of the node. -/
  marked : Nat → Bool
  /-- The entries that `delete` of the filesystem was called for, the last one first. -/
  deleted : List Nat

/-- `fs_node_release`, and the release of the entry's memory behind it. -/
def nodeRelease (volume : Volume) (id : Nat) (entry : Entry) : Except Stop Volume := do
  if entry.node = none then throw (.nullNode id)
  return { volume with
    state := volume.state.free id
    deleted := if volume.marked id then id :: volume.deleted else volume.deleted }

/-- `fs_directory_entry_release`, with what it does to the nodes. -/
def volumeReleaseWith : Nat → Volume → Nat → Except Stop Volume
  | 0, _, _ => .error .nontermination
  | fuel + 1, volume, id => do
      let entry ← volume.state.entry id
      if entry.references = 0 then throw .noReferences
      let state := volume.state.set id { entry with references := entry.references - 1 }
      if entry.references - 1 = 0 then
        let volume ← match entry.parent with
          | none => pure { volume with state }
          | some parent =>
              let parentEntry ← state.entry parent
              volumeReleaseWith fuel
                { volume with
                  state := state.set parent (parentEntry.setDirent entry.parentNode none) }
                parent
        nodeRelease volume id entry
      else return { volume with state }

def volumeRelease (volume : Volume) (id : Nat) : Except Stop Volume :=
  volumeReleaseWith (volume.state.next + 1) volume id

/-- Take the node with a name out of the list. -/
def Entry.unlink (entry : Entry) (name : Name) : Entry :=
  { entry with nodes := entry.nodes.filter fun node => node.name ≠ name }

/-- What `syscall_remove` returns. -/
inductive RemoveResult where
  | ok
  | fault
  | noEntry
  | isDirectory
  | dirNotEmpty
deriving DecidableEq, Repr

/-- The part of `fs_remove` that takes an entry from its parent. -/
def leaveParent (state : State) (id : Nat) (entry : Entry) : Except Stop State :=
  match entry.parent with
  | none => return state
  | some parent => do
      let parentEntry ← state.entry parent
      let state := state.set parent (parentEntry.unlink entry.parentNode)
      return state.set id { entry with parent := none, parentNode := [] }

/-- `fs_remove`. -/
def fsRemove (volume : Volume) (id : Nat) : Except Stop (RemoveResult × Volume) := do
  let entry ← volume.state.entry id
  if entry.type = .directory ∧ entry.nodes ≠ [] then return (.dirNotEmpty, volume)
  if entry.node = none then throw .badPointer
  let marked := Function.update volume.marked id true
  let state ← leaveParent volume.state id entry
  return (.ok, ← volumeRelease { volume with state, marked } id)

/-- `syscall_remove`; the path is missing where `process_user_to_kernel` finds none. A
walk along a path does not drop the last reference to a marked node, which no list
leads to. -/
def syscallRemove (disc : Disc) (volume : Volume) (workingDir : Nat) :
    Option Path → Except Stop (RemoveResult × Volume)
  | none => return (.fault, volume)
  | some path => do
      match ← processOpenPath disc volume.state workingDir path with
      | (none, state) => return (.noEntry, { volume with state })
      | (some dirent, state) =>
          let entry ← state.entry dirent
          if entry.type = .directory then return (.isDirectory, { volume with state })
          fsRemove { volume with state } dirent

/-! ## Where a path leads -/

section Paths

variable {disc : Disc} {base : Nat → Nat} {state after : State} {held : List Nat}
  {workingDir id : Nat} {path : Path} {place other target : Place} {segments : Segments} {result : Option Nat}

/-- An entry is at one place. -/
theorem At.unique (hat : At state id place) (hother : At state id other) : place = other := by
  induction hat generalizing other with
  | root hentry hparent hnode =>
      cases hother with
      | root hentry' _ hnode' =>
          cases hentry.symm.trans hentry'
          rw [Option.some.inj (hnode.symm.trans hnode')]
      | child hentry' hparent' =>
          cases hentry.symm.trans hentry'
          simp [hparent] at hparent'
  | @child _ _ entry listed _ hentry hparent hname htype hnode _ ih =>
      cases hother with
      | root hentry' hparent' =>
          cases hentry.symm.trans hentry'
          simp [hparent] at hparent'
      | @child _ _ _ listed' _ hentry' hparent' hname' htype' hnode' hat' =>
          cases hentry.symm.trans hentry'
          cases hparent.symm.trans hparent'
          obtain rfl := ih hat'
          obtain ⟨name, type, page⟩ := listed
          obtain ⟨name', type', page'⟩ := listed'
          simp only at hname htype hnode hname' htype' hnode'
          rw [← hname, ← htype, ← hname', ← htype',
            Option.some.inj (hnode.symm.trans hnode')]

/-- The type of what is at a place; roots are known by their entries. -/
def Place.type (state : State) (place : Place) : Option FileType :=
  match place.trail with
  | [] => (state.entries place.root).map Entry.type
  | listed :: _ => some listed.type

theorem At.type_eq {entry : Entry} (hat : At state id place)
    (hentry : state.entries id = some entry) :
    place.type state = some entry.type := by
  cases hat with
  | root hentry' =>
      cases hentry.symm.trans hentry'
      simp [Place.type, hentry]
  | child hentry' _ _ htype =>
      cases hentry.symm.trans hentry'
      rw [htype]
      rfl

/-- A walk stays below its root. -/
theorem resolve_root {segments : Segments}
    (hresolve : place.resolve disc segments = .ok (some target)) : target.root = place.root := by
  have hgoto : ∀ (place next : Place) name, place.goto disc name = some next →
      next.root = place.root := by
    intro place next name hgoto
    unfold Place.goto at hgoto
    split at hgoto
    · rw [← Option.some.inj hgoto]
    split at hgoto
    · rw [← Option.some.inj hgoto]
    · obtain ⟨listed, -, rfl⟩ := Option.map_eq_some_iff.mp hgoto
      rfl
  induction segments generalizing place with
  | last name => exact hgoto _ _ _ (Except.ok.inj hresolve)
  | cons name rest ih =>
      rw [Place.resolve] at hresolve
      cases hnext : place.goto disc name with
      | none => simp [hnext] at hresolve
      | some next =>
          rw [hnext] at hresolve
          exact (ih hresolve).trans (hgoto _ _ _ hnext)
  | overrun => simp [Place.resolve] at hresolve

/-- The path is walked along, and leads to this place. -/
def LeadsTo (disc : Disc) (state : State) (workingDir : Nat) (path : Path)
    (target : Place) : Prop :=
  path.chars ≠ [slash] ∧ ∃ place, At state (path.start workingDir) place ∧
    place.resolve disc (scan path.walked) = .ok (some target)

/-- What `process_open_path` comes to when it returns, but for the path of the root. -/
theorem Cached.processOpenPath_ok (hcached : Cached disc base state held)
    (hlive : (state.entries (path.start workingDir)).isSome) (hpath : path.chars ≠ [slash])
    (hcall : processOpenPath disc state workingDir path = .ok (result, after)) :
    Cached disc base after (result.toList ++ held) ∧ Evolves state after ∧
      (match result with
        | none => ∀ target, ¬ LeadsTo disc state workingDir path target
        | some found => ∃ target, LeadsTo disc state workingDir path target ∧
            At after found target) := by
  obtain ⟨entry, hentry⟩ := Option.isSome_iff_exists.mp hlive
  obtain ⟨place, hat⟩ := hcached.exists_at hentry
  rw [processOpenPath, processPath_eq hpath] at hcall
  cases htarget : place.resolve disc (scan path.walked) with
  | error stop =>
      rw [hcached.fsOpenPath_overrun hat htarget] at hcall
      cases hcall
  | ok target =>
      have harrives := hcached.fsOpenPath hat htarget
      cases target with
      | none =>
          obtain ⟨last, hlast, hafter, hevolves⟩ := harrives
          cases hlast.symm.trans hcall
          refine ⟨hafter, hevolves, ?_⟩
          rintro target ⟨-, place', hat', htarget'⟩
          obtain rfl := hat.unique hat'
          rw [htarget] at htarget'
          cases htarget'
      | some target =>
          obtain ⟨found, last, hlast, hafter, hevolves, hatFound⟩ := harrives
          cases hlast.symm.trans hcall
          exact ⟨hafter, hevolves, target, ⟨hpath, place, hat, htarget⟩, hatFound⟩

end Paths

end PKernel.Vfs
