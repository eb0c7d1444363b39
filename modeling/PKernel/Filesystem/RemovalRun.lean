import PKernel.Filesystem.Unlinked

/-! # Runs with a removal

Files are opened and closed, and one of them is removed. Once it is closed the
filesystem has deleted it, unless it was made in this session; but its directory keeps
the reference that it had for the file.
-/

namespace PKernel.Vfs

open Library.Transition
open Function (update update_idem update_of_ne update_self)

/-! ## Worlds -/

/-- What a run has from its start. -/
structure Setting where
  disc : Disc
  tree : Treelike disc
  /-- Only directories list anything. -/
  files : ∀ page, ∀ listed ∈ disc page, listed.type ≠ .directory → disc listed.page = []
  workingDir : Nat
  /-- The entries that `create` made, each with a reference that it did not give away. -/
  created : List Nat
  /-- The handles of mounts and working directories. -/
  others : List Nat
  root_mem : fsRoot ∈ others
  workingDir_mem : workingDir ∈ others

structure RemovalWorld where
  volume : Volume
  /-- The entries of the descriptors. -/
  opened : List Nat
  /-- The file that was removed, and the directory that it was in. -/
  removed : Option (Nat × Nat)

def RemovalWorld.handles (setting : Setting) (world : RemovalWorld) : List Nat :=
  world.opened ++ (setting.created ++ setting.others)

inductive FileCall where
  | openPath (path : Path)
  | close (dirent : Nat)
  | remove (path : Path)

/-- One call. Opening the root takes no reference, and is left out; of removals there is
one, and it succeeds. -/
inductive FileStep (setting : Setting) (world : RemovalWorld) : FileCall → RemovalWorld → Prop
  | openPath {path : Path} {found : Option Nat} {state : State} (hpath : path.chars ≠ [slash])
      (hopen : processOpenPath setting.disc world.volume.state setting.workingDir path =
        .ok (found, state)) :
      FileStep setting world (.openPath path)
        ⟨{ world.volume with state }, found.toList ++ world.opened, world.removed⟩
  | close {dirent : Nat} {volume : Volume} (hmem : dirent ∈ world.opened)
      (hrelease : volumeRelease world.volume dirent = .ok volume) :
      FileStep setting world (.close dirent) ⟨volume, world.opened.erase dirent, world.removed⟩
  | remove {path : Path} {file parent : Nat} {state : State} {volume : Volume}
      (hfirst : world.removed = none)
      (hopen : processOpenPath setting.disc world.volume.state setting.workingDir path =
        .ok (some file, state))
      (hparent : state.parentOf file = some parent)
      (hremove : syscallRemove setting.disc world.volume setting.workingDir (some path) =
        .ok (.ok, volume)) :
      FileStep setting world (.remove path) ⟨volume, world.opened, some (file, parent)⟩

/-- Before anything is removed. -/
structure Intact (setting : Setting) (base : Nat → Nat) (world : RemovalWorld) : Prop where
  cached : Cached setting.disc base world.volume.state (world.handles setting)
  apart : RootsApart setting.disc world.volume.state
  directories : ∀ id ∈ setting.others, ∀ entry, world.volume.state.entries id = some entry →
    entry.type = .directory
  marked : world.volume.marked = fun _ => false
  deleted : world.volume.deleted = []
  removed : world.removed = none

def removalSystem (setting : Setting) (base : Nat → Nat) : System RemovalWorld FileCall where
  init := Intact setting base
  step := FileStep setting

theorem FileStep.reach {setting : Setting} {base : Nat → Nat} {world next : RemovalWorld}
    {call : FileCall} (hreach : (removalSystem setting base).Reachable world)
    (hstep : FileStep setting world call next) :
    (removalSystem setting base).Reachable next :=
  .step hreach hstep

/-- What removing a file comes to: it is deleted once, its entry is gone, and its directory
has the references of its handles and cached children, and its own as a root. -/
def TakesEffect (setting : Setting) (base : Nat → Nat) (world : RemovalWorld)
    (file parent : Nat) : Prop :=
  world.volume.deleted.count file = 1 ∧ world.volume.state.entries file = none ∧
    world.volume.state.references parent = (world.handles setting).count parent +
      world.volume.state.childrenFrom 0 parent + base parent

/-! ## Orphans -/

/-- A marked file that is in no directory any more, with references for the handles on
it. The one that it was for its directory is left over. -/
structure Orphaned (disc : Disc) (base : Nat → Nat) (page : Nat) (name : Name) (file parent : Nat)
    (volume : Volume) (handles : List Nat) : Prop where
  unlinked : Unlinked disc page name parent (update base file (handles.count file))
    volume.state (parent :: handles.filter fun other => other ≠ file)
  parent_ne : parent ≠ file
  bound : file < volume.state.next
  orphan : ∀ entry, volume.state.entries file = some entry → entry.parent = none ∧
    ∃ child, entry.node = some child ∧ disc child = []
  gone : volume.state.entries file = none ↔ file ∉ handles
  marked : volume.marked = update (fun _ => false) file true
  deleted : volume.deleted = if file ∈ handles then [] else [file]

namespace Orphaned

variable {disc : Disc} {base : Nat → Nat} {page file parent id : Nat} {name : Name}
  {volume after : Volume} {state : State} {handles handles' : List Nat} {entry : Entry}
  {place : Place}

/-- It has no children. -/
theorem nodes (horphaned : Orphaned disc base page name file parent volume handles)
    (hentry : volume.state.entries file = some entry) : entry.nodes = [] := by
  obtain ⟨-, child, hchild, hempty⟩ := horphaned.orphan entry hentry
  obtain ⟨child', hchild', hnames⟩ := horphaned.unlinked.cached.listed file entry hentry
  obtain rfl : child = child' := Option.some.inj (hchild.symm.trans hchild')
  rw [List.eq_nil_iff_forall_not_mem]
  intro node hnode
  obtain ⟨listed, hlisted, -⟩ :=
    List.mem_map.mp ((hnames node.name).mp (List.mem_map_of_mem hnode))
  simpa [hempty] using (mem_without.mp hlisted).1

/-- It is nobody's parent. -/
theorem not_parent (horphaned : Orphaned disc base page name file parent volume handles)
    (hentry : volume.state.entries id = some entry) : entry.parent ≠ some file := by
  intro hparent
  obtain ⟨-, fileEntry, _, _, hfile, hnode, -⟩ :=
    horphaned.unlinked.cached.above id entry file hentry hparent
  simp [horphaned.nodes hfile] at hnode

/-- Its references are those of the handles. -/
theorem references (horphaned : Orphaned disc base page name file parent volume handles)
    (hentry : volume.state.entries file = some entry) : entry.references = handles.count file := by
  have hcount := horphaned.unlinked.cached.counted file entry hentry
  have hnone : (handles.filter fun other => other ≠ file).count file = 0 :=
    List.count_eq_zero_of_not_mem (by simp)
  rw [List.count_cons_of_ne horphaned.parent_ne, hnone, update_self] at hcount
  simpa [Entry.cached, horphaned.nodes hentry] using hcount

/-- It does not come back to a directory. -/
theorem orphan_of_evolves (horphaned : Orphaned disc base page name file parent volume handles)
    (hevolves : Evolves volume.state state) (hentry : state.entries file = some entry) :
    entry.parent = none ∧ ∃ child, entry.node = some child ∧ disc child = [] := by
  cases hold : volume.state.entries file with
  | none => simp [hevolves.gone file horphaned.bound hold] at hentry
  | some old =>
      obtain ⟨hparent, hchild⟩ := horphaned.orphan old hold
      obtain ⟨hsame, -, -, hnode⟩ := hevolves.same file old entry hold hentry
      rw [hsame, hnode]
      exact ⟨hparent, hchild⟩

/-- A step that does not release the file. -/
theorem evolve (horphaned : Orphaned disc base page name file parent volume handles)
    (hcount : handles'.count file = handles.count file)
    (hafter : Cached (without disc page name)
      (update base file (handles.count file)) state
      (parent :: handles'.filter fun other => other ≠ file))
    (hevolves : Evolves volume.state state) :
    Orphaned disc base page name file parent { volume with state } handles' := by
  have hmem : file ∈ handles' ↔ file ∈ handles := by
    rw [← List.count_pos_iff, ← List.count_pos_iff, hcount]
  refine ⟨?_, horphaned.parent_ne, Nat.lt_of_lt_of_le horphaned.bound hevolves.grows, ?_, ?_,
    horphaned.marked, ?_⟩
  · rw [hcount]
    exact horphaned.unlinked.evolve hafter hevolves List.mem_cons_self
  · exact fun entry hentry => horphaned.orphan_of_evolves hevolves hentry
  · rw [hmem, ← horphaned.gone]
    constructor
    · intro (hnone : state.entries file = none)
      by_contra hlive
      obtain ⟨old, hold⟩ := Option.ne_none_iff_exists'.mp hlive
      have hstays := hevolves.roots file old hold (horphaned.orphan old hold).1
      simp [hnone] at hstays
    · exact hevolves.gone file horphaned.bound
  · exact horphaned.deleted.trans (if_congr hmem.symm rfl rfl)

/-- A walk that does not start at the file does not come to it. -/
theorem root_ne (horphaned : Orphaned disc base page name file parent volume handles)
    (hat : At volume.state id place) (hne : id ≠ file) : place.root ≠ file := by
  induction hat with
  | root => exact hne
  | child hentry hparent _ _ _ _ ih =>
      refine ih ?_
      rintro rfl
      exact horphaned.not_parent hentry hparent

/-- Opening a path, which is not to the file. -/
theorem openPath (horphaned : Orphaned disc base page name file parent volume handles)
    {workingDir : Nat} {path : Path} {found : Option Nat} (hpath : path.chars ≠ [slash])
    (hlive : (volume.state.entries (path.start workingDir)).isSome)
    (hstart : path.start workingDir ≠ file)
    (hopen : processOpenPath disc volume.state workingDir path = .ok (found, state)) :
    Orphaned disc base page name file parent { volume with state } (found.toList ++ handles) := by
  rw [horphaned.unlinked.processOpenPath_eq hlive] at hopen
  obtain ⟨hafter, hevolves, hfound⟩ :=
    horphaned.unlinked.cached.processOpenPath_ok hlive hpath hopen
  cases found with
  | none => exact horphaned.evolve rfl hafter hevolves
  | some found =>
      obtain ⟨target, ⟨-, place, hat, hresolve⟩, hatFound⟩ := hfound
      have hne : found ≠ file := by
        rintro rfl
        refine horphaned.root_ne hat hstart ?_
        rw [← resolve_root hresolve]
        cases hatFound with
        | root => rfl
        | child hentry hparent =>
            rw [(horphaned.orphan_of_evolves hevolves hentry).1] at hparent
            cases hparent
      refine horphaned.evolve (List.count_cons_of_ne hne) (hafter.perm ?_) hevolves
      simp only [Option.toList_some, List.singleton_append, List.filter_cons, decide_eq_true_eq,
        if_pos hne]
      exact List.Perm.swap _ _ _

/-- Closing another entry. -/
theorem release_other (horphaned : Orphaned disc base page name file parent volume handles)
    (hmem : id ∈ handles) (hne : id ≠ file) (hrelease : volumeRelease volume id = .ok after) :
    Orphaned disc base page name file parent after (handles.erase id) := by
  have hperm : (parent :: handles.filter fun other => other ≠ file).Perm
      (id :: parent :: (handles.erase id).filter fun other => other ≠ file) := by
    have hfiltered := (List.perm_cons_erase hmem).filter fun other => other ≠ file
    rw [List.filter_cons_of_pos (by simpa using hne)] at hfiltered
    exact (hfiltered.cons parent).trans (List.Perm.swap _ _ _)
  obtain ⟨state, hstate, hcached, hevolves⟩ :=
    (horphaned.unlinked.cached.perm hperm).release List.mem_cons_self
  rw [List.erase_cons_head] at hcached
  have hclosed : ClosedAbove (fun other => other ≠ file) volume.state := by
    rintro other entry above - hentry habove rfl
    exact horphaned.not_parent hentry habove
  have hunmarked : ∀ other, other ≠ file → volume.marked other = false := by
    intro other hother
    rw [horphaned.marked, update_of_ne hother]
  have hsame : volumeRelease volume id = .ok { volume with state } := by
    rw [volumeRelease, volumeReleaseWith_eq hclosed hunmarked hne]
    rw [directoryEntryRelease] at hstate
    rw [hstate]
    rfl
  cases hsame.symm.trans hrelease
  exact horphaned.evolve (List.count_erase_of_ne (Ne.symm hne)) hcached hevolves

/-- Another entry in the place of the file, or none. -/
theorem replace (horphaned : Orphaned disc base page name file parent volume handles)
    (hold : ∀ other, other ≠ file → after.state.entries other = volume.state.entries other)
    (hroot : ∀ entry, after.state.entries file = some entry → entry.parent = none ∧
      ∃ old, volume.state.entries file = some old ∧ old.node = entry.node)
    (hnext : after.state.next = volume.state.next)
    (hcached : Cached (without disc page name) (update base file (handles'.count file))
      after.state (parent :: handles'.filter fun other => other ≠ file))
    (hgone : after.state.entries file = none ↔ file ∉ handles')
    (hmarked : after.marked = volume.marked)
    (hdeleted : after.deleted = if file ∈ handles' then [] else [file]) :
    Orphaned disc base page name file parent after handles' := by
  obtain ⟨-, htree, hapart, -, hpage⟩ := horphaned.unlinked
  refine ⟨⟨hcached, htree, hapart.of_roots ?_, List.mem_cons_self, ?_⟩, horphaned.parent_ne, ?_, ?_,
    hgone, hmarked.trans horphaned.marked, hdeleted⟩
  · intro id entry hentry hparent
    by_cases heq : id = file
    · subst heq
      obtain ⟨-, old, hbefore, hnode⟩ := hroot entry hentry
      exact ⟨old, hbefore, (horphaned.orphan old hbefore).1, hnode⟩
    · exact ⟨entry, (hold id heq).symm.trans hentry, hparent, rfl⟩
  · intro entry hentry
    exact hpage entry ((hold parent horphaned.parent_ne).symm.trans hentry)
  · rw [hnext]
    exact horphaned.bound
  · intro entry hentry
    obtain ⟨hparent, old, hbefore, hnode⟩ := hroot entry hentry
    rw [← hnode]
    exact ⟨hparent, (horphaned.orphan old hbefore).2⟩

/-- Closing the file. -/
theorem release_file (horphaned : Orphaned disc base page name file parent volume handles)
    (hmem : file ∈ handles) (hrelease : volumeRelease volume file = .ok after) :
    Orphaned disc base page name file parent after (handles.erase file) := by
  obtain ⟨entry, hentry⟩ : ∃ entry, volume.state.entries file = some entry := by
    rw [← Option.ne_none_iff_exists']
    exact fun hnone => (horphaned.gone.mp hnone) hmem
  obtain ⟨hparent, child, hchild, hempty⟩ := horphaned.orphan entry hentry
  have hnodes := horphaned.nodes hentry
  have hreferences := horphaned.references hentry
  have hpositive := List.count_pos_iff.mpr hmem
  have hcount : (handles.erase file).count file = entry.references - 1 := by
    rw [List.count_erase_self, hreferences]
  have hfilter : (handles.filter fun other => other ≠ file).Perm
      ((handles.erase file).filter fun other => other ≠ file) := by
    have hfiltered := (List.perm_cons_erase hmem).filter fun other => other ≠ file
    rwa [List.filter_cons_of_neg (by simp)] at hfiltered
  have hnot : file ∉ parent :: (handles.erase file).filter fun other => other ≠ file := by
    simp [Ne.symm horphaned.parent_ne]
  have hdropped := (horphaned.unlinked.cached.perm (hfilter.cons parent)).dropRoot hentry hparent
    hnodes hnot
  rw [update_idem] at hdropped
  have hold : ∀ other, other ≠ file →
      (volume.state.free file).entries other = volume.state.entries other := by
    intro other hne
    simp [State.free, hne]
  by_cases hmore : 1 < entry.references
  · cases (volumeRelease_of_more hentry hmore).symm.trans hrelease
    have hleft : file ∈ handles.erase file := by
      rw [← List.count_pos_iff, hcount]
      omega
    have hstill : without disc page name child = [] := by
      rw [List.eq_nil_iff_forall_not_mem]
      intro listed hlisted
      simpa [hempty] using (mem_without.mp hlisted).1
    obtain ⟨lowered, hlowered⟩ : ∃ lowered : Entry, lowered =
        { entry with references := entry.references - 1 } := ⟨_, rfl⟩
    rw [← hlowered]
    have hput := @Cached.putRoot _ _ _ _ file child lowered hdropped (by simp [State.free])
      horphaned.bound (by rw [hlowered, hparent]) (by rw [hlowered, hchild]) hstill
      (by rw [hlowered, hnodes]) (by rw [hlowered]; exact Nat.sub_pos_of_lt hmore)
    rw [update_idem, State.set_free] at hput
    refine horphaned.replace ?_ ?_ rfl ?_ ?_ rfl ?_
    · intro other hne
      simp [State.set, hne]
    · intro found hfound
      obtain rfl : lowered = found := by simpa [State.set] using hfound
      rw [hlowered]
      exact ⟨hparent, entry, hentry, rfl⟩
    · rw [hcount]
      rw [hlowered] at hput ⊢
      exact hput
    · simp [State.set, hleft]
    · simp only [horphaned.deleted, if_pos hmem, if_pos hleft]
  · have hlast : entry.references = 1 := by omega
    have hmarked : volume.marked file = true := by
      rw [horphaned.marked, update_self]
    obtain rfl := Except.ok.inj ((volumeRelease_of_last hentry hlast hparent (by simp [hchild])
      hmarked).symm.trans hrelease)
    have hnone : file ∉ handles.erase file := by
      rw [← List.count_pos_iff, hcount, hlast]
      omega
    refine horphaned.replace hold ?_ rfl ?_ ?_ rfl ?_
    · simp [State.free]
    · rw [hcount, hlast]
      exact hdropped
    · simp [State.free, hnone]
    · simp only [horphaned.deleted, if_pos hmem, if_neg hnone]

/-- A file that leaves its directory, with the mark of `fs_remove`. -/
theorem of_leave (hcached : Cached disc base state handles) (htree : Treelike disc)
    (hroots : RootsApart disc state) (hentry : state.entries file = some entry)
    (hparent : entry.parent = some parent) {parentEntry : Entry}
    (hparentEntry : state.entries parent = some parentEntry) (hpage : parentEntry.node = some page)
    (hnodes : entry.nodes = []) {child : Nat} (hchild : entry.node = some child)
    (hempty : disc child = []) (hmem : file ∈ handles) :
    Orphaned disc base page entry.parentNode file parent
      ⟨(state.set parent (parentEntry.unlink entry.parentNode)).set file
        { entry with parent := none, parentNode := [] },
        update (fun _ => false) file true, []⟩ handles := by
  obtain ⟨hlt, found, page', child', hfound, -, hpage', hchild', hlisted⟩ :=
    hcached.above file entry parent hentry hparent
  cases hparentEntry.symm.trans hfound
  obtain rfl : page = page' := Option.some.inj (hpage.symm.trans hpage')
  obtain rfl : child = child' := Option.some.inj (hchild.symm.trans hchild')
  have hlistedMem := List.mem_of_find?_eq_some hlisted
  have hne : parent ≠ file := Nat.ne_of_lt hlt
  have hleft := hcached.leave htree hroots hentry hparent hparentEntry hpage hnodes hchild hempty
  have hbase : base file = 0 := by
    by_contra hbase
    have hroot := (hcached.rooted file entry hentry).mpr (Nat.pos_of_ne_zero hbase)
    simp [hparent] at hroot
  have hcount : entry.references = handles.count file := by
    have hcount := hcached.counted file entry hentry
    simpa [hbase, Entry.cached, hnodes] using hcount
  obtain ⟨gone, hgone⟩ : ∃ gone, gone =
      (state.set parent (parentEntry.unlink entry.parentNode)).set file
        { entry with parent := none, parentNode := [] } := ⟨_, rfl⟩
  rw [← hgone, hcount] at hleft
  rw [← hgone]
  have hself : gone.entries file = some { entry with parent := none, parentNode := [] } := by
    simp [hgone, State.set]
  -- the other roots were roots before
  have hold : ∀ other found, other ≠ file → gone.entries other = some found →
      found.parent = none → ∃ old, state.entries other = some old ∧ old.parent = none ∧
        old.node = found.node := by
    intro other found hother hlater hroot
    by_cases heq : other = parent
    · subst heq
      obtain rfl : parentEntry.unlink entry.parentNode = found := by
        simpa [hgone, State.set, hother] using hlater
      exact ⟨parentEntry, hparentEntry, hroot, rfl⟩
    · exact ⟨found, by simpa [hgone, State.set, hother, heq] using hlater, hroot, rfl⟩
  refine ⟨⟨hleft, htree, hroots.orphan htree hlistedMem hself hchild hold, List.mem_cons_self, ?_⟩,
    hne, ?_, ?_, ?_, rfl, ?_⟩
  · intro found hfound
    obtain rfl : parentEntry.unlink entry.parentNode = found := by
      simpa [hgone, State.set, hne] using hfound
    exact hpage
  · rw [hgone]
    exact hcached.id_lt hentry
  · intro found hfound
    cases hself.symm.trans hfound
    exact ⟨rfl, child, hchild, hempty⟩
  · simp [hself, hmem]
  · simp [hmem]

end Orphaned

/-! ## Steps -/

section Steps

variable {setting : Setting} {base : Nat → Nat} {world next : RemovalWorld} {call : FileCall}
  {file parent : Nat}

/-- Walks start at an entry that somebody else holds. -/
theorem Setting.start_mem (setting : Setting) (path : Path) :
    path.start setting.workingDir ∈ setting.others := by
  unfold Path.start
  split
  · exact setting.root_mem
  · exact setting.workingDir_mem

theorem RemovalWorld.handles_erase {dirent : Nat} {volume : Volume} {removed : Option (Nat × Nat)}
    (hmem : dirent ∈ world.opened) :
    RemovalWorld.handles setting ⟨volume, world.opened.erase dirent, removed⟩ =
      (world.handles setting).erase dirent :=
  (List.erase_append_left _ hmem).symm

namespace Intact

theorem start_live (hintact : Intact setting base world) (path : Path) :
    (world.volume.state.entries (path.start setting.workingDir)).isSome :=
  hintact.cached.held _
    (List.mem_append_right _ (List.mem_append_right _ (setting.start_mem path)))

theorem extend (hintact : Intact setting base world) {state : State} {opened : List Nat}
    (hcached : Cached setting.disc base state (opened ++ (setting.created ++ setting.others)))
    (hevolves : Evolves world.volume.state state) :
    Intact setting base ⟨{ world.volume with state }, opened, world.removed⟩ := by
  refine ⟨hcached, hintact.apart.evolve hintact.cached hcached hevolves, ?_, hintact.marked,
    hintact.deleted, hintact.removed⟩
  intro id hmem entry hentry
  obtain ⟨old, hold⟩ := Option.isSome_iff_exists.mp
    (hintact.cached.held id (List.mem_append_right _ (List.mem_append_right _ hmem)))
  exact (hevolves.same id old entry hold hentry).2.2.1.trans (hintact.directories id hmem old hold)

theorem openPath (hintact : Intact setting base world) {path : Path} {found : Option Nat}
    {state : State} (hpath : path.chars ≠ [slash])
    (hopen : processOpenPath setting.disc world.volume.state setting.workingDir path =
      .ok (found, state)) :
    Intact setting base
      ⟨{ world.volume with state }, found.toList ++ world.opened, world.removed⟩ := by
  obtain ⟨hcached, hevolves, -⟩ :=
    hintact.cached.processOpenPath_ok (hintact.start_live path) hpath hopen
  rw [RemovalWorld.handles, ← List.append_assoc] at hcached
  exact hintact.extend hcached hevolves

theorem close (hintact : Intact setting base world) {dirent : Nat} {volume : Volume}
    (hmem : dirent ∈ world.opened) (hrelease : volumeRelease world.volume dirent = .ok volume) :
    Intact setting base ⟨volume, world.opened.erase dirent, world.removed⟩ := by
  obtain ⟨state, hstate, hcached, hevolves⟩ :=
    hintact.cached.release (List.mem_append_left _ hmem)
  rw [RemovalWorld.handles, List.erase_append_left _ hmem] at hcached
  have hsame : volumeRelease world.volume dirent = .ok { world.volume with state } := by
    have hunmarked : ∀ id, True → world.volume.marked id = false := by
      intro id _
      rw [hintact.marked]
    rw [volumeRelease, volumeReleaseWith_eq (fun _ _ _ _ _ _ => trivial) hunmarked trivial]
    rw [directoryEntryRelease] at hstate
    rw [hstate]
    rfl
  cases hsame.symm.trans hrelease
  exact hintact.extend hcached hevolves

/-- A file that is removed was in a directory, and is in none then. -/
theorem remove (hintact : Intact setting base world) {path : Path} {state : State} {volume : Volume}
    (hopen : processOpenPath setting.disc world.volume.state setting.workingDir path =
      .ok (some file, state))
    (hparent : state.parentOf file = some parent)
    (hremove : syscallRemove setting.disc world.volume setting.workingDir (some path) =
      .ok (.ok, volume)) :
    file ∉ setting.others ∧ ∃ page name,
      Orphaned setting.disc base page name file parent volume (world.handles setting) := by
  obtain ⟨entry, hentry, hparent⟩ := State.parentOf_eq_some.mp hparent
  have hfile : entry.type ≠ .directory := by
    intro htype
    simp [syscallRemove, hopen, State.entry_eq_ok.mpr hentry, htype] at hremove
  have hpath : path.chars ≠ [slash] := by
    intro hslash
    rw [processOpenPath, processPath_root hslash] at hopen
    obtain ⟨hroot, rfl⟩ := Prod.mk.inj (Except.ok.inj hopen)
    cases hroot
    exact hfile (hintact.directories fsRoot setting.root_mem entry hentry)
  obtain ⟨hcached, hevolves, -⟩ :=
    hintact.cached.processOpenPath_ok (hintact.start_live path) hpath hopen
  have hroots := hintact.apart.evolve hintact.cached hcached hevolves
  obtain ⟨-, parentEntry, page, child, hparentEntry, -, hpage, hchild, hlisted⟩ :=
    hcached.above file entry parent hentry hparent
  have hempty : setting.disc child = [] :=
    setting.files page _ (List.mem_of_find?_eq_some hlisted) hfile
  have hnodes : entry.nodes = [] := by
    obtain ⟨child', hchild', hnames⟩ := hcached.listed file entry hentry
    obtain rfl : child = child' := Option.some.inj (hchild.symm.trans hchild')
    rw [List.eq_nil_iff_forall_not_mem]
    intro node hnode
    simpa [hempty] using (hnames node.name).mp (List.mem_map_of_mem hnode)
  have horphaned := Orphaned.of_leave hcached setting.tree hroots hentry hparent hparentEntry hpage
    hnodes hchild hempty List.mem_cons_self
  have hrelease : volumeRelease
      ⟨(state.set parent (parentEntry.unlink entry.parentNode)).set file
        { entry with parent := none, parentNode := [] },
        update (fun _ => false) file true, []⟩ file = .ok volume := by
    have hnode : entry.node ≠ none := by simp [hchild]
    have hnot : ¬ (entry.type = .directory ∧ entry.nodes ≠ []) := fun hboth => hfile hboth.1
    simp only [syscallRemove, hopen, ok_bind, State.entry_eq_ok.mpr hentry, if_neg hfile, fsRemove,
      if_neg hnot, if_neg hnode, leaveParent, hparent, State.entry_eq_ok.mpr hparentEntry,
      pure_eq_ok, hintact.marked, hintact.deleted] at hremove
    obtain ⟨released, hreleased, hremove⟩ := bind_eq_ok.mp hremove
    cases hremove
    exact hreleased
  have hreleased := horphaned.release_file List.mem_cons_self hrelease
  rw [Option.toList_some, List.singleton_append, List.erase_cons_head] at hreleased
  refine ⟨?_, page, entry.parentNode, hreleased⟩
  intro hmem
  have hheld : file ∈ world.handles setting :=
    List.mem_append_right _ (List.mem_append_right _ hmem)
  obtain ⟨old, hold⟩ := Option.isSome_iff_exists.mp (hintact.cached.held file hheld)
  exact hfile ((hevolves.same file old entry hold hentry).2.2.1.trans
    (hintact.directories file hmem old hold))

end Intact

/-- Nothing was removed yet, or what was removed is an orphan. -/
inductive RunInvariant (setting : Setting) (base : Nat → Nat) (world : RemovalWorld) : Prop
  | intact (hintact : Intact setting base world)
  | removed {file parent page : Nat} {name : Name} (hremoved : world.removed = some (file, parent))
      (hnot : file ∉ setting.others)
      (horphaned : Orphaned setting.disc base page name file parent world.volume
        (world.handles setting))

/-- One call keeps the invariant. -/
theorem RunInvariant.step (hinvariant : RunInvariant setting base world)
    (hstep : FileStep setting world call next) : RunInvariant setting base next := by
  cases hinvariant with
  | intact hintact =>
      cases hstep with
      | openPath hpath hopen => exact .intact (hintact.openPath hpath hopen)
      | close hmem hrelease => exact .intact (hintact.close hmem hrelease)
      | remove hfirst hopen hparent hremove =>
          obtain ⟨hnot, page, name, horphaned⟩ := hintact.remove hopen hparent hremove
          exact .removed rfl hnot horphaned
  | @removed file parent page name hremoved hnot horphaned =>
      cases hstep with
      | @openPath path found state hpath hopen =>
          have hstart : path.start setting.workingDir ≠ file := by
            rintro rfl
            exact hnot (setting.start_mem path)
          have hlive : (world.volume.state.entries (path.start setting.workingDir)).isSome := by
            refine horphaned.unlinked.cached.held _ (List.mem_cons_of_mem parent ?_)
            exact List.mem_filter.mpr ⟨List.mem_append_right _ (List.mem_append_right _
              (setting.start_mem path)), by simpa using hstart⟩
          have hopened := horphaned.openPath hpath hlive hstart hopen
          rw [RemovalWorld.handles, ← List.append_assoc] at hopened
          exact .removed hremoved hnot hopened
      | @close dirent volume hmem hrelease =>
          have hheld : dirent ∈ world.handles setting := List.mem_append_left _ hmem
          have hclosed : Orphaned setting.disc base page name file parent volume
              ((world.handles setting).erase dirent) := by
            by_cases hfile : dirent = file
            · subst hfile
              exact horphaned.release_file hheld hrelease
            · exact horphaned.release_other hheld hfile hrelease
          rw [← @RemovalWorld.handles_erase setting world dirent volume world.removed hmem]
            at hclosed
          exact .removed hremoved hnot hclosed
      | remove hfirst => simp [hremoved] at hfirst

theorem runInvariant_inductive (setting : Setting) (base : Nat → Nat) :
    (removalSystem setting base).Inductive (RunInvariant setting base) where
  init _ hinit := .intact hinit
  step _ _ _ hinvariant hstep := hinvariant.step hstep

end Steps

/-! ## The end of a removed file -/

/-- Once a removed file is closed it is deleted and gone, unless it was made in this
session; and its directory has one reference too many, which nobody releases. So
removing a file never takes effect. -/
theorem removal_takes_no_effect {setting : Setting} {base : Nat → Nat} {world : RemovalWorld}
    {file parent : Nat} (hreach : (removalSystem setting base).Reachable world)
    (hremoved : world.removed = some (file, parent)) (hclosed : file ∉ world.opened) :
    world.volume.deleted = (if file ∈ setting.created then [] else [file]) ∧
    (world.volume.state.entries file = none ↔ file ∉ setting.created) ∧
    world.volume.state.references parent = (world.handles setting).count parent +
      world.volume.state.childrenFrom 0 parent + base parent + 1 ∧
    ¬ TakesEffect setting base world file parent := by
  cases hreach.invariant (runInvariant_inductive setting base) with
  | intact hintact => simp [hintact.removed] at hremoved
  | @removed file' parent' page name hremoved' hnot horphaned =>
      obtain ⟨rfl, rfl⟩ := Prod.mk.inj (Option.some.inj (hremoved'.symm.trans hremoved))
      have hmem : file' ∈ world.handles setting ↔ file' ∈ setting.created := by
        simp [RemovalWorld.handles, hclosed, hnot]
      have hcached := horphaned.unlinked.cached
      obtain ⟨entry, hentry⟩ := Option.isSome_iff_exists.mp
        (hcached.held parent' List.mem_cons_self)
      have hcount := hcached.counted parent' entry hentry
      rw [update_of_ne horphaned.parent_ne, List.count_cons_self,
        List.count_filter (by simpa using horphaned.parent_ne), hcached.cached_eq_children hentry,
        ← State.references_of_live hentry] at hcount
      refine ⟨?_, ?_, by omega, ?_⟩
      · exact horphaned.deleted.trans (if_congr hmem rfl rfl)
      · rw [horphaned.gone, hmem]
      · rintro ⟨-, -, hparent⟩
        omega

/-! ## A file that is removed while it is open -/

/-- Nothing was made, and only the mount has a handle. -/
def oneFileSetting : Setting where
  disc := oneFile
  tree := by
    intro page page' listed listed' hlisted hlisted' _
    unfold oneFile at hlisted hlisted'
    split at hlisted
    next hpage =>
      split at hlisted'
      next hpage' =>
        rw [List.mem_singleton.mp hlisted, List.mem_singleton.mp hlisted']
        exact ⟨hpage.trans hpage'.symm, rfl⟩
      next => simp at hlisted'
    next => simp at hlisted
  files := by
    intro page listed hlisted _
    unfold oneFile at hlisted
    split at hlisted
    · rw [List.mem_singleton.mp hlisted]
      rfl
    · simp at hlisted
  workingDir := fsRoot
  created := []
  others := [fsRoot]
  root_mem := List.mem_singleton.mpr rfl
  workingDir_mem := List.mem_singleton.mpr rfl

theorem oneFile_intact : Intact oneFileSetting mountReferences
    ⟨⟨mounted oneFile 0, fun _ => false, []⟩, [], none⟩ := by
  have hlook : ∀ id entry, (mounted oneFile 0).entries id = some entry → id = fsRoot ∧
      entry.type = .directory ∧ entry.node = some 0 := by
    intro id entry hentry
    by_cases hroot : id = fsRoot
    · subst hroot
      obtain rfl : _ = entry := by simpa [mounted] using hentry
      exact ⟨rfl, rfl, rfl⟩
    · simp [mounted, hroot] at hentry
  refine ⟨mounted_cached oneFile 0, ?_, fun id _ entry hentry => (hlook id entry hentry).2.1, rfl,
    rfl, rfl⟩
  intro id entry page hentry _ hpage
  obtain ⟨rfl, -, hnode⟩ := hlook id entry hentry
  obtain rfl : page = 0 := Option.some.inj (hpage.symm.trans hnode)
  refine ⟨?_, fun other otherEntry hother _ _ => (hlook other otherEntry hother).1⟩
  intro dir listed hlisted
  simp only [oneFileSetting, oneFile] at hlisted
  split at hlisted
  · rw [List.mem_singleton.mp hlisted]
    decide
  · simp at hlisted

/-- Opening `a`, removing it and closing it. -/
theorem oneFile_run : ∃ world, (removalSystem oneFileSetting mountReferences).Reachable world ∧
    world.removed = some (1, fsRoot) ∧ world.opened = [] ∧ world.volume.deleted = [1] ∧
    world.volume.state.entries 1 = none ∧ world.volume.state.references fsRoot = 3 ∧
    world.volume.state.childrenFrom 0 fsRoot = 0 := by
  have hopened := FileStep.reach (.init oneFile_intact)
    (@FileStep.openPath _ _ ⟨[97], by decide⟩ (some 1) _ (by decide) rfl)
  have hremoved := FileStep.reach hopened
    (@FileStep.remove _ _ ⟨[97], by decide⟩ 1 fsRoot _ _ rfl rfl rfl rfl)
  have hclosed := FileStep.reach hremoved (@FileStep.close _ _ 1 _ (by decide) rfl)
  exact ⟨_, hclosed, rfl, rfl, rfl, rfl, rfl, rfl⟩

theorem removal_takes_no_effect_oneFile : ∃ world,
    (removalSystem oneFileSetting mountReferences).Reachable world ∧
    world.removed = some (1, fsRoot) ∧ 1 ∉ world.opened ∧
    ¬ TakesEffect oneFileSetting mountReferences world 1 fsRoot := by
  obtain ⟨world, hreach, hremoved, hopened, -⟩ := oneFile_run
  have hclosed : 1 ∉ world.opened := by simp [hopened]
  exact ⟨world, hreach, hremoved, hclosed,
    (removal_takes_no_effect hreach hremoved hclosed).2.2.2⟩

/-- The root has three references then, of which the mount and `fs_init` have one each. -/
theorem removal_keeps_reference : ∃ world,
    (removalSystem oneFileSetting mountReferences).Reachable world ∧
    world.removed = some (1, fsRoot) ∧ 1 ∉ world.opened ∧
    world.volume.state.references fsRoot = 3 ∧
    ¬ TakesEffect oneFileSetting mountReferences world 1 fsRoot := by
  obtain ⟨world, hreach, hremoved, hopened, -, -, hreferences, hchildren⟩ := oneFile_run
  refine ⟨world, hreach, hremoved, by simp [hopened], hreferences, ?_⟩
  rintro ⟨-, -, hcount⟩
  rw [hreferences, hchildren, RemovalWorld.handles, hopened] at hcount
  simp [oneFileSetting, mountReferences] at hcount

end PKernel.Vfs
