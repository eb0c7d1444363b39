import PKernel.Library.Transition
import PKernel.Filesystem.File
import PKernel.Filesystem.Resolution

/-! # Runs of the directory entry cache

A run opens paths, makes files out of the handles that it gets, lists directories
and gives handles back, in any order. In every state of every run an entry has as
many references as there are handles on it and cached children of it, and it is
live exactly as long as there are any.
-/

namespace PKernel.Vfs

open Library.Transition

/-- The cache, the handles that are not part of a file, and the files. -/
structure World where
  state : State
  held : List Nat
  files : List File

/-- All handles. -/
def World.handles (world : World) : List Nat := world.held ++ world.files.map File.dirent

inductive Op where
  /-- `fs_open_path`. -/
  | openPath (start : Nat) (path : Path)
  /-- `file_init`: the handle goes into a file. -/
  | init (dirent : Nat) (options : Options)
  /-- `file_readdir`. -/
  | readdir (file : File) (bufferSize : Nat)
  /-- `file_close`. -/
  | close (file : File)
  /-- `fs_directory_entry_release`. -/
  | release (dirent : Nat)

section Runs

variable (direntSize : Nat) (disc : Disc)

/-- What the callers see to: a walk starts at the root or at an entry with a handle,
and only what is held is used and given back. -/
def Op.Permitted (world : World) : Op → Prop
  | openPath start path => (start = fsRoot ∨ start ∈ world.handles) ∧ Separated path.chars
  | init dirent _ => dirent ∈ world.held
  | readdir file _ => file ∈ world.files
  | close file => file ∈ world.files
  | release dirent => dirent ∈ world.held

/-- One call. -/
def Op.perform (world : World) : Op → Except Stop World
  | openPath start path => do
      let (found, state) ← fsOpenPath disc world.state start path
      return { world with state, held := found.toList ++ world.held }
  | init dirent options => do
      match ← fileInit world.state dirent options with
      | .error _ => return world
      | .ok file =>
          return { world with held := world.held.erase dirent, files := file :: world.files }
  | readdir file bufferSize => do
      let (_, after, state) ← fileReaddir direntSize disc world.state file bufferSize
      return { world with state, files := after :: world.files.erase file }
  | close file => do
      let state ← fileClose world.state file
      return { world with state, files := world.files.erase file }
  | release dirent => do
      let state ← directoryEntryRelease world.state dirent
      return { world with state, held := world.held.erase dirent }

/-- Runs on a filesystem mounted at the root. -/
def entrySystem : System World Op where
  init world := (∃ page, fsMountRoot disc page = .ok world.state) ∧ world.held = [] ∧
    world.files = []
  step world op next := op.Permitted world ∧ op.perform direntSize disc world = .ok next

end Runs

/-- What holds in every state of a run. -/
structure EntriesConsistent (direntSize : Nat) (disc : Disc) (world : World) : Prop where
  counted : ∀ id entry, world.state.entries id = some entry → id ≠ fsRoot →
    entry.references = world.handles.count id + entry.cached
  /-- An entry that is live is cached. -/
  cached : ∀ id entry, world.state.entries id = some entry → id ≠ fsRoot →
    ∃ parent parentEntry, entry.parent = some parent ∧
      world.state.entries parent = some parentEntry ∧
      ⟨entry.parentNode, some id⟩ ∈ parentEntry.nodes
  /-- An entry that is cached is live. -/
  live : ∀ id entry name child, world.state.entries id = some entry →
    ⟨name, some child⟩ ∈ entry.nodes → ∃ childEntry, world.state.entries child = some childEntry ∧
      childEntry.parent = some id ∧ childEntry.parentNode = name
  /-- An entry is there exactly as long as there is a handle on it or a child. -/
  freed : ∀ id, id ≠ fsRoot → ((world.state.entries id).isSome ↔ id ∈ world.handles ∨
    ∃ child childEntry, world.state.entries child = some childEntry ∧
      childEntry.parent = some id)
  root : (world.state.entries fsRoot).isSome
  /-- No call halts. -/
  returns : ∀ op : Op, op.Permitted world → ∃ next, op.perform direntSize disc world = .ok next

/-- The invariant of runs: a consistent cache, in which every file stands at a node of
its directory or at the end. The root has a handle of its own. -/
structure EntryInvariant (disc : Disc) (world : World) : Prop where
  cached : Cached disc mountReferences world.state (fsRoot :: world.handles)
  cursor : ∀ file ∈ world.files, ∀ name, file.currentNode = some name →
    ∃ entry page, world.state.entries file.dirent = some entry ∧ entry.node = some page ∧
      name ∈ (disc page).map Listed.name

section Invariant

variable {direntSize : Nat} {disc : Disc} {world : World} {state after : State} {held : List Nat}
  {dirent : Nat} {file : File}

/-- The handles are that of one file and the others. -/
theorem World.handles_erase (after : State) (hmem : file ∈ world.files) :
    world.handles.Perm
      (file.dirent :: (World.mk after world.held (world.files.erase file)).handles) := by
  have hfiles : world.files.Perm (file :: world.files.erase file) := List.perm_cons_erase hmem
  have hdirents := (hfiles.map File.dirent).append_left world.held
  exact hdirents.trans List.perm_middle

theorem World.dirent_mem_handles (hmem : file ∈ world.files) : file.dirent ∈ world.handles :=
  List.mem_append_right _ (List.mem_map_of_mem hmem)

theorem World.held_mem_handles (hmem : dirent ∈ world.held) : dirent ∈ world.handles :=
  List.mem_append_left _ hmem

/-- A name in the list of a live entry is one that the disc lists for it. -/
theorem Cached.listed_of_mem {base : Nat → Nat} {entry : Entry} {name : Name}
    (hcached : Cached disc base state held) (hentry : state.entries dirent = some entry)
    (hmem : name ∈ entry.names) :
    ∃ page, entry.node = some page ∧ name ∈ (disc page).map Listed.name := by
  obtain ⟨page, hpage, hnames⟩ := hcached.listed dirent entry hentry
  exact ⟨page, hpage, (hnames name).mp hmem⟩

theorem Entry.first_mem {entry : Entry} {name : Name} (hfirst : entry.first = some name) :
    name ∈ entry.names := by
  obtain ⟨node, hnode, rfl⟩ := Option.map_eq_some_iff.mp hfirst
  exact List.mem_map_of_mem (List.mem_of_head? hnode)

theorem Entry.next_mem {entry : Entry} {before name : Name} (hnext : entry.next before = some name) :
    name ∈ entry.names := by
  obtain ⟨node, hnode, rfl⟩ := Option.map_eq_some_iff.mp hnext
  have hmem := List.mem_of_mem_tail (List.mem_of_head? hnode)
  exact List.mem_map_of_mem ((List.dropWhile_suffix _).subset hmem)

namespace EntryInvariant

/-- A change of the cache that keeps the files' directories. -/
theorem keep (hinvariant : EntryInvariant disc world) {next : World}
    (hcached : Cached disc mountReferences next.state (fsRoot :: next.handles))
    (hevolves : Evolves world.state next.state)
    (hfiles : ∀ file ∈ next.files, file ∈ world.files ∨ ∀ name, file.currentNode = some name →
      ∃ entry page, next.state.entries file.dirent = some entry ∧ entry.node = some page ∧
        name ∈ (disc page).map Listed.name) : EntryInvariant disc next := by
  refine ⟨hcached, ?_⟩
  intro file hfile name hname
  rcases hfiles file hfile with hold | hnew
  · obtain ⟨entry, page, hentry, hpage, hlisted⟩ := hinvariant.cursor file hold name hname
    obtain ⟨new, hnew⟩ := Option.isSome_iff_exists.mp (hcached.held file.dirent
      (List.mem_cons_of_mem _ (World.dirent_mem_handles hfile)))
    obtain ⟨_, _, _, hnode⟩ := hevolves.same _ entry new hentry hnew
    exact ⟨new, page, hnew, hnode.trans hpage, hlisted⟩
  · exact hnew name hname

theorem openPath (hinvariant : EntryInvariant disc world) {start : Nat} {path : Path}
    (hstart : start = fsRoot ∨ start ∈ world.handles) (hseparated : Separated path.chars) :
    ∃ next, (Op.openPath start path).perform direntSize disc world = .ok next ∧
      EntryInvariant disc next := by
  have hcached := hinvariant.cached
  have hlive : (world.state.entries start).isSome := by
    rcases hstart with rfl | hmem
    · exact hcached.held fsRoot List.mem_cons_self
    · exact hcached.held start (List.mem_cons_of_mem _ hmem)
  obtain ⟨entry, hentry⟩ := Option.isSome_iff_exists.mp hlive
  obtain ⟨place, hat⟩ := hcached.exists_at hentry
  have hresolve := resolve_ofList disc place (List.splitOn_ne_nil slash path.chars)
  have harrives := hcached.fsOpenPath hat ((scan_of_separated hseparated) ▸ hresolve)
  generalize (path.chars.splitOn slash).foldlM (Place.goto disc) place = target at harrives
  cases target with
  | none =>
      obtain ⟨after, hresult, hafter, hevolves⟩ := harrives
      refine ⟨⟨after, world.held, world.files⟩, by simp [Op.perform, hresult], ?_⟩
      exact hinvariant.keep hafter hevolves fun file hfile => .inl hfile
  | some target =>
      obtain ⟨found, after, hresult, hafter, hevolves, _⟩ := harrives
      refine ⟨⟨after, found :: world.held, world.files⟩, by simp [Op.perform, hresult], ?_⟩
      exact hinvariant.keep (hafter.perm (List.Perm.swap _ _ _)) hevolves
        fun file hfile => .inl hfile

theorem init (hinvariant : EntryInvariant disc world) {options : Options}
    (hmem : dirent ∈ world.held) :
    ∃ next, (Op.init dirent options).perform direntSize disc world = .ok next ∧
      EntryInvariant disc next := by
  have hcached := hinvariant.cached
  obtain ⟨entry, hentry⟩ := Option.isSome_iff_exists.mp
    (hcached.held dirent (List.mem_cons_of_mem _ (World.held_mem_handles hmem)))
  by_cases hwrite : entry.type = .directory ∧ options.write
  · refine ⟨world, ?_, hinvariant⟩
    simp [Op.perform, fileInit, State.entry_eq_ok.mpr hentry, hwrite]
  · refine ⟨⟨world.state, world.held.erase dirent, ⟨dirent, options, 0,
      if entry.type = .directory then entry.first else none⟩ :: world.files⟩, ?_, ?_⟩
    · simp only [Op.perform, fileInit, State.entry_eq_ok.mpr hentry, ok_bind]
      rw [if_neg hwrite]
      simp
    · have hperm : (dirent :: (world.held.erase dirent ++ world.files.map File.dirent)).Perm
          world.handles :=
        ((List.perm_cons_erase hmem).append_right (world.files.map File.dirent)).symm
      refine hinvariant.keep (hcached.perm ((hperm.symm.trans List.perm_middle.symm).cons fsRoot))
        (Evolves.refl _) ?_
      intro file hfile
      rcases List.mem_cons.mp hfile with rfl | hold
      · refine .inr fun name hname => ?_
        have hfirst : entry.first = some name := by
          by_contra hne
          split at hname
          · exact hne hname
          · simp at hname
        obtain ⟨page, hpage, hlisted⟩ := hcached.listed_of_mem hentry (Entry.first_mem hfirst)
        exact ⟨entry, page, hentry, hpage, hlisted⟩
      · exact .inl hold

theorem close (hinvariant : EntryInvariant disc world) (hmem : file ∈ world.files) :
    ∃ next, (Op.close file).perform direntSize disc world = .ok next ∧
      EntryInvariant disc next := by
  have hperm := (World.handles_erase world.state hmem).cons fsRoot
  have hcached := hinvariant.cached.perm (hperm.trans (List.Perm.swap _ _ _))
  obtain ⟨after, hrelease, hafter, hevolves⟩ := hcached.release List.mem_cons_self
  rw [List.erase_cons_head] at hafter
  refine ⟨⟨after, world.held, world.files.erase file⟩, by simp [Op.perform, fileClose, hrelease],
    hinvariant.keep hafter hevolves fun other hother => .inl (List.mem_of_mem_erase hother)⟩

theorem release (hinvariant : EntryInvariant disc world) (hmem : dirent ∈ world.held) :
    ∃ next, (Op.release dirent).perform direntSize disc world = .ok next ∧
      EntryInvariant disc next := by
  have hperm : world.handles.Perm
      (dirent :: (world.held.erase dirent ++ world.files.map File.dirent)) :=
    (List.perm_cons_erase hmem).append_right (world.files.map File.dirent)
  have hcached := hinvariant.cached.perm ((hperm.cons fsRoot).trans (List.Perm.swap _ _ _))
  obtain ⟨after, hrelease, hafter, hevolves⟩ := hcached.release List.mem_cons_self
  rw [List.erase_cons_head] at hafter
  exact ⟨⟨after, world.held.erase dirent, world.files⟩, by simp [Op.perform, hrelease],
    hinvariant.keep hafter hevolves fun other hother => .inl hother⟩

/-- A file takes the place of one with the same directory. -/
theorem handles_replace (state : State) {changed : File} (hmem : file ∈ world.files)
    (hdirent : changed.dirent = file.dirent) :
    world.handles.Perm
      (World.mk state world.held (changed :: world.files.erase file)).handles := by
  refine (World.handles_erase state hmem).trans ?_
  simp only [World.handles, List.map_cons, hdirent]
  exact List.perm_middle.symm

theorem readdir (hinvariant : EntryInvariant disc world) {bufferSize : Nat}
    (hmem : file ∈ world.files) :
    ∃ next, (Op.readdir file bufferSize).perform direntSize disc world = .ok next ∧
      EntryInvariant disc next := by
  have hcached := hinvariant.cached
  have hhandle : file.dirent ∈ fsRoot :: world.handles :=
    List.mem_cons_of_mem _ (World.dirent_mem_handles hmem)
  obtain ⟨entry, hentry⟩ := Option.isSome_iff_exists.mp (hcached.held file.dirent hhandle)
  -- all returns but the last leave cache and file as they are
  have hsame : EntryInvariant disc ⟨world.state, world.held, file :: world.files.erase file⟩ := by
    refine hinvariant.keep (hcached.perm ((handles_replace world.state hmem rfl).cons fsRoot))
      (Evolves.refl _) ?_
    intro other hother
    rcases List.mem_cons.mp hother with rfl | hother
    · exact .inl hmem
    · exact .inl (List.mem_of_mem_erase hother)
  by_cases hread : file.options.read
  case neg => exact ⟨_, by simp [Op.perform, fileReaddir, hread], hsame⟩
  by_cases htype : entry.type = .directory
  case neg =>
    exact ⟨_, by simp [Op.perform, fileReaddir, hread, State.entry_eq_ok.mpr hentry, htype], hsame⟩
  cases hcurrent : file.currentNode with
  | none =>
      refine ⟨_, ?_, hsame⟩
      simp [Op.perform, fileReaddir, hread, State.entry_eq_ok.mpr hentry, htype, hcurrent]
  | some name =>
      by_cases hroom : bufferSize < direntSize + name.length + 1
      · refine ⟨_, ?_, hsame⟩
        simp [Op.perform, fileReaddir, hread, State.entry_eq_ok.mpr hentry, htype, hcurrent, hroom]
      · obtain ⟨found, page, hfound, hpage, hlisted⟩ := hinvariant.cursor file hmem name hcurrent
        obtain rfl : entry = found := Option.some.inj (hentry.symm.trans hfound)
        obtain ⟨page', hpage', hnames⟩ := hcached.listed file.dirent entry hentry
        obtain rfl : page = page' := Option.some.inj (hpage.symm.trans hpage')
        obtain ⟨child, childEntry, entered, _, henter, hentered, hevolves, _, hchild, _⟩ :=
          hcached.enter hentry ((hnames name).mpr hlisted)
        obtain ⟨after, hrelease, hafter, hevolves'⟩ := hentered.release List.mem_cons_self
        rw [List.erase_cons_head] at hafter
        obtain ⟨new, hnew⟩ := Option.isSome_iff_exists.mp (hafter.held file.dirent hhandle)
        refine ⟨⟨after, world.held, { file with currentNode := new.next name } ::
          world.files.erase file⟩, ?_, ?_⟩
        · simp [Op.perform, fileReaddir, hread, State.entry_eq_ok.mpr hentry, htype, hcurrent,
            hroom, henter, State.entry_eq_ok.mpr hchild, hrelease, State.entry_eq_ok.mpr hnew]
        · refine hinvariant.keep (hafter.perm ((handles_replace after hmem rfl).cons fsRoot))
            (Evolves.trans hcached.fresh hevolves hevolves') ?_
          intro other hother
          rcases List.mem_cons.mp hother with rfl | hother
          · refine .inr fun next hnext => ?_
            obtain ⟨page, hpage, hlisted⟩ := hafter.listed_of_mem hnew (Entry.next_mem hnext)
            exact ⟨new, page, hnew, hpage, hlisted⟩
          · exact .inl (List.mem_of_mem_erase hother)

/-- Every call returns and keeps the invariant. -/
theorem perform (direntSize : Nat) (hinvariant : EntryInvariant disc world) {op : Op}
    (hpermitted : op.Permitted world) :
    ∃ next, op.perform direntSize disc world = .ok next ∧ EntryInvariant disc next := by
  cases op with
  | openPath start path => exact hinvariant.openPath hpermitted.1 hpermitted.2
  | init dirent options => exact hinvariant.init hpermitted
  | readdir file bufferSize => exact hinvariant.readdir hpermitted
  | close file => exact hinvariant.close hpermitted
  | release dirent => exact hinvariant.release hpermitted

end EntryInvariant

theorem entryInvariant_inductive : (entrySystem direntSize disc).Inductive (EntryInvariant disc) where
  init world hinit := by
    obtain ⟨⟨page, hmount⟩, hheld, hfiles⟩ := hinit
    obtain ⟨state, held, files⟩ := world
    obtain rfl : mounted disc page = state :=
      Except.ok.inj ((fsMountRoot_eq disc page).symm.trans hmount)
    obtain rfl : held = [] := hheld
    obtain rfl : files = [] := hfiles
    exact ⟨mounted_cached disc page, by simp⟩
  step world op next hinvariant hstep := by
    obtain ⟨hpermitted, hperform⟩ := hstep
    obtain ⟨next', hperform', hnext⟩ := hinvariant.perform direntSize hpermitted
    rw [hperform] at hperform'
    rwa [Except.ok.inj hperform']

/-- In every state of every run the references of an entry are its handles and its
cached children, an entry is live exactly as long as it has any, and no call halts. -/
theorem entries_consistent (hreach : (entrySystem direntSize disc).Reachable world) :
    EntriesConsistent direntSize disc world := by
  have hinvariant := hreach.invariant entryInvariant_inductive
  have hcached := hinvariant.cached
  have hbase : ∀ id, id ≠ fsRoot → mountReferences id = 0 := fun id hid => if_neg hid
  have hcounted : ∀ id entry, world.state.entries id = some entry → id ≠ fsRoot →
      entry.references = world.handles.count id + entry.cached := by
    intro id entry hentry hid
    rw [hcached.counted id entry hentry, hbase id hid, List.count_cons_of_ne (Ne.symm hid)]
    rfl
  have hparent : ∀ id entry, world.state.entries id = some entry → id ≠ fsRoot →
      ∃ parent, entry.parent = some parent := by
    intro id entry hentry hid
    apply Option.ne_none_iff_exists'.mp
    intro hnone
    have := (hcached.rooted id entry hentry).mp hnone
    simp [hbase id hid] at this
  constructor
  case counted => exact hcounted
  case cached =>
    intro id entry hentry hid
    obtain ⟨parent, hparent⟩ := hparent id entry hentry hid
    obtain ⟨_, parentEntry, _, _, hparentEntry, hnode, _⟩ :=
      hcached.above id entry parent hentry hparent
    exact ⟨parent, parentEntry, hparent, hparentEntry, hnode⟩
  case live => exact hcached.below
  case freed =>
    intro id hid
    constructor
    · intro hsome
      obtain ⟨entry, hentry⟩ := Option.isSome_iff_exists.mp hsome
      have hpositive := hcached.positive id entry hentry
      rw [hcounted id entry hentry hid] at hpositive
      by_cases hhandle : id ∈ world.handles
      · exact .inl hhandle
      · rw [List.count_eq_zero_of_not_mem hhandle, Nat.zero_add] at hpositive
        obtain ⟨⟨name, dirent⟩, hnode, hdirent⟩ := List.countP_pos_iff.mp hpositive
        obtain ⟨child, rfl⟩ := Option.isSome_iff_exists.mp hdirent
        obtain ⟨childEntry, hchild, hchildParent, _⟩ := hcached.below id entry name child hentry hnode
        exact .inr ⟨child, childEntry, hchild, hchildParent⟩
    · rintro (hhandle | ⟨child, childEntry, hchild, hchildParent⟩)
      · exact hcached.held id (List.mem_cons_of_mem _ hhandle)
      · obtain ⟨_, parentEntry, _, _, hparentEntry, _⟩ :=
          hcached.above child childEntry id hchild hchildParent
        rw [hparentEntry]
        rfl
  case root => exact hcached.held fsRoot List.mem_cons_self
  case returns =>
    intro op hpermitted
    obtain ⟨next, hperform, _⟩ := hinvariant.perform direntSize hpermitted
    exact ⟨next, hperform⟩

end Invariant

/-- In a tree with one directory `a`, opening `a` caches it; giving the handle back
frees it. -/
theorem entries_consistent_after_open : ∃ opened released : World,
    (entrySystem 16 oneDirectory).Reachable opened ∧ opened.handles = [1] ∧
    EntriesConsistent 16 oneDirectory opened ∧
    (entrySystem 16 oneDirectory).Reachable released ∧ released.state.entries 1 = none ∧
    EntriesConsistent 16 oneDirectory released := by
  have hcalls : ∃ opened released,
      (Op.openPath fsRoot ⟨[97], by decide⟩).perform 16 oneDirectory
        ⟨mounted oneDirectory 0, [], []⟩ = .ok opened ∧
      (Op.release 1).perform 16 oneDirectory opened = .ok released ∧ opened.held = [1] ∧
      opened.handles = [1] ∧ released.state.entries 1 = none :=
    ⟨_, _, rfl, rfl, rfl, rfl, rfl⟩
  obtain ⟨opened, released, hopen, hrelease, hheld, hhandles, hgone⟩ := hcalls
  have hinit : (entrySystem 16 oneDirectory).Reachable ⟨mounted oneDirectory 0, [], []⟩ :=
    .init ⟨⟨0, fsMountRoot_eq oneDirectory 0⟩, rfl, rfl⟩
  have hpath : Separated [97] := separated_nil.cons (by decide)
  have hpermitted : (Op.openPath fsRoot ⟨[97], by decide⟩).Permitted
      ⟨mounted oneDirectory 0, [], []⟩ := ⟨.inl rfl, hpath⟩
  have hopened : (entrySystem 16 oneDirectory).Reachable opened := hinit.step ⟨hpermitted, hopen⟩
  have hmem : (Op.release 1).Permitted opened := by
    show 1 ∈ opened.held
    simp [hheld]
  have hreleased : (entrySystem 16 oneDirectory).Reachable released :=
    hopened.step ⟨hmem, hrelease⟩
  exact ⟨opened, released, hopened, hhandles, entries_consistent hopened, hreleased, hgone,
    entries_consistent hreleased⟩

end PKernel.Vfs
