import PKernel.Filesystem.Listings

/-! # Behind a removed name

A removed file stays on disc for as long as it is open, and a directory that still has
the reference of the file stays cached. So the walks that come later go as on a disc
without the name, and releases of other entries do not come to the file.
-/

namespace PKernel.Vfs

/-! ## Walks -/

/-- A name was taken out of a directory, on which there is a handle; the disc still has
the name. -/
structure Unlinked (disc : Disc) (page : Nat) (name : Name) (parent : Nat) (base : Nat → Nat)
    (state : State) (held : List Nat) : Prop where
  cached : Cached (without disc page name) base state held
  tree : Treelike disc
  apart : RootsApart (without disc page name) state
  mem : parent ∈ held
  page : ∀ entry, state.entries parent = some entry → entry.node = some page

namespace Unlinked

variable {disc : Disc} {page parent curNode : Nat} {name segment : Name} {base : Nat → Nat}
  {state after : State} {held held' : List Nat} {entry : Entry} {place : Place}

theorem evolve (hunlinked : Unlinked disc page name parent base state held)
    (hafter : Cached (without disc page name) base after held') (hevolves : Evolves state after)
    (hmem : parent ∈ held') : Unlinked disc page name parent base after held' := by
  refine ⟨hafter, hunlinked.tree, hunlinked.apart.evolve hunlinked.cached hafter hevolves, hmem, ?_⟩
  intro entry hentry
  obtain ⟨old, hold⟩ := Option.isSome_iff_exists.mp (hunlinked.cached.held parent hunlinked.mem)
  exact (hevolves.same parent old entry hold hentry).2.2.2.trans (hunlinked.page old hold)

/-- A child that is not cached is not on the page of the directory, which is. -/
theorem page_ne (hunlinked : Unlinked disc page name parent base state held)
    (hentry : state.entries curNode = some entry) (hnode : ⟨segment, none⟩ ∈ entry.nodes)
    {listed : Listed} (hlisted : (without disc page name (entry.node.getD 0)).find?
      (fun listed => listed.name == segment) = some listed) : listed.page ≠ page := by
  intro hsame
  have hmem : segment ∈ entry.names := List.mem_map_of_mem hnode
  obtain ⟨child, childEntry, entered, listed', -, hentered, hevolves, hlisted', hchild, hparent,
    hname, -, hpage⟩ := hunlinked.cached.enter hentry hmem
  cases hlisted.symm.trans hlisted'
  have hafter := hunlinked.evolve hentered hevolves (List.mem_cons_of_mem child hunlinked.mem)
  obtain ⟨parentEntry, hparentEntry⟩ :=
    Option.isSome_iff_exists.mp (hentered.held parent (List.mem_cons_of_mem child hunlinked.mem))
  obtain rfl : child = parent := hentered.page_unique hunlinked.tree.without hafter.apart hchild
    hparentEntry (by rw [hpage, hsame, hafter.page parentEntry hparentEntry])
  -- so it was there before, under this name
  obtain ⟨old, hold⟩ := Option.isSome_iff_exists.mp (hunlinked.cached.held child hunlinked.mem)
  obtain ⟨hsameParent, hsameName, -⟩ := hevolves.same child old childEntry hold hchild
  obtain ⟨-, entry', -, -, hentry', hpointer, -⟩ :=
    hunlinked.cached.above child old curNode hold (hsameParent.symm.trans hparent)
  cases hentry.symm.trans hentry'
  have hnames := hunlinked.cached.names curNode entry hentry
  have heq := Entry.eq_of_name_eq hnames hnode hpointer (hname.symm.trans hsameName)
  simp at heq

/-- Entering a node reads the disc where the name does not matter. -/
theorem directoryNodeEnter_eq (hunlinked : Unlinked disc page name parent base state held)
    (hentry : state.entries curNode = some entry) (hmem : segment ∈ entry.names) :
    directoryNodeEnter disc state curNode segment =
      directoryNodeEnter (without disc page name) state curNode segment := by
  have hnames := hunlinked.cached.names curNode entry hentry
  obtain ⟨dir, hdir, hlisted⟩ := hunlinked.cached.listed curNode entry hentry
  obtain ⟨⟨found, dirent⟩, hnode, hfound⟩ := List.mem_map.mp hmem
  obtain rfl : found = segment := hfound
  have hfind : entry.find? found = some ⟨found, dirent⟩ := Entry.find?_of_mem hnames hnode
  cases dirent with
  | some child =>
      rw [directoryNodeEnter_cached hentry hfind, directoryNodeEnter_cached hentry hfind]
  | none =>
      obtain ⟨listed, hmemListed, hname⟩ := List.mem_map.mp ((hlisted found).mp hmem)
      obtain ⟨⟨name', type, childPage⟩, hfirst⟩ : ∃ listed, (without disc page name dir).find?
          (fun listed => listed.name == found) = some listed :=
        Option.isSome_iff_exists.mp
          (List.find?_isSome.mpr ⟨listed, hmemListed, by simp [hname]⟩)
      obtain rfl : name' = found := by simpa using List.find?_some hfirst
      have hkept := hfirst
      rw [find?_without fun hsame => hname ▸ (mem_without.mp hmemListed).2 hsame] at hkept
      have hne : childPage ≠ page :=
        hunlinked.page_ne hentry hnode (by rw [hdir, Option.getD_some]; exact hfirst)
      have hlt := hunlinked.cached.id_lt hentry
      rw [directoryNodeEnter_new hentry hlt hnames hfind hdir hkept,
        directoryNodeEnter_new hentry hlt hnames hfind hdir hfirst, newChild, newChild, without,
        Function.update_of_ne hne]

theorem openStep_eq (hunlinked : Unlinked disc page name parent base state held)
    (hlive : (state.entries curNode).isSome) (segment : Name) :
    openStep disc state curNode segment =
      openStep (without disc page name) state curNode segment := by
  obtain ⟨entry, hentry⟩ := Option.isSome_iff_exists.mp hlive
  have henter : enterStep disc state curNode segment =
      enterStep (without disc page name) state curNode segment := by
    simp only [enterStep, directoryEntryEnter, State.entry_eq_ok.mpr hentry, ok_bind]
    cases hfind : entry.find? segment with
    | none => rfl
    | some node =>
        obtain ⟨hnode, rfl⟩ := Entry.mem_of_find? hfind
        rw [hunlinked.directoryNodeEnter_eq hentry (List.mem_map_of_mem hnode)]
  simp only [openStep, henter]

theorem walk_eq {segments : Segments}
    (hunlinked : Unlinked disc page name parent base state (curNode :: held)) (hmem : parent ∈ held)
    (hat : At state curNode place) :
    walkSegments (openStep disc) (openStep disc) state curNode segments =
      walkSegments (openStep (without disc page name)) (openStep (without disc page name)) state
        curNode segments := by
  have hlive : ∀ {state : State} {curNode : Nat},
      Unlinked disc page name parent base state (curNode :: held) →
        (state.entries curNode).isSome :=
    fun hunlinked => hunlinked.cached.held _ List.mem_cons_self
  induction segments generalizing state curNode place with
  | last segment => exact hunlinked.openStep_eq (hlive hunlinked) segment
  | cons segment rest ih =>
      simp only [walkSegments, hunlinked.openStep_eq (hlive hunlinked) segment]
      have hstep := hunlinked.cached.openStep hat segment
      cases hgoto : place.goto (without disc page name) segment with
      | none =>
          rw [hgoto] at hstep
          obtain ⟨after, hresult, -⟩ := hstep
          rw [hresult]
          rfl
      | some next =>
          rw [hgoto] at hstep
          obtain ⟨found, moved, hresult, hmoved, hevolves, hatFound⟩ := hstep
          simp only [hresult, ok_bind]
          exact ih (hunlinked.evolve hmoved hevolves (List.mem_cons_of_mem found hmem)) hatFound
  | overrun => rfl

/-- `process_open_path` does as on the disc without the name. -/
theorem processOpenPath_eq (hunlinked : Unlinked disc page name parent base state held)
    {workingDir : Nat} {path : Path} (hlive : (state.entries (path.start workingDir)).isSome) :
    processOpenPath disc state workingDir path =
      processOpenPath (without disc page name) state workingDir path := by
  by_cases hslash : path.chars = [slash]
  · rw [processOpenPath, processOpenPath, processPath_root hslash, processPath_root hslash]
  · obtain ⟨entry, hentry⟩ := Option.isSome_iff_exists.mp hlive
    obtain ⟨place, hat⟩ := hunlinked.cached.exists_at hentry
    have hcounted := (hunlinked.cached.addReference hentry).2
    have hcount := Evolves.raise hentry
    have hat' := hat.evolve hcount hcounted (hcounted.held _ List.mem_cons_self)
    have hstart := hunlinked.evolve hcounted hcount (List.mem_cons_of_mem _ hunlinked.mem)
    rw [processOpenPath, processOpenPath, processPath_eq hslash, processPath_eq hslash,
      fsOpenPath_eq hentry, fsOpenPath_eq hentry, hstart.walk_eq hunlinked.mem hat']

end Unlinked

/-! ## Releases -/

section Releases

variable {state : State} {volume : Volume} {fuel id : Nat} {entry : Entry} {apart : Nat → Prop}

/-- A set of entries has the parents of its entries. -/
def ClosedAbove (apart : Nat → Prop) (state : State) : Prop :=
  ∀ id entry parent, apart id → state.entries id = some entry → entry.parent = some parent →
    apart parent

theorem ClosedAbove.set (hclosed : ClosedAbove apart state) (hentry : state.entries id = some entry)
    {after : Entry} (hparent : after.parent = entry.parent) :
    ClosedAbove apart (state.set id after) := by
  intro other found above hother hfound habove
  by_cases heq : other = id
  · subst heq
    obtain rfl : after = found := by simpa [State.set] using hfound
    exact hclosed other entry above hother hentry (hparent ▸ habove)
  · exact hclosed other found above hother (by simpa [State.set, heq] using hfound) habove

/-- Where no entry that the release comes to is marked, it does nothing to the nodes. -/
theorem volumeReleaseWith_eq (hclosed : ClosedAbove apart volume.state)
    (hunmarked : ∀ id, apart id → volume.marked id = false) (hid : apart id) :
    volumeReleaseWith fuel volume id =
      (releaseWith fuel volume.state id).map fun state => { volume with state } := by
  -- along the chain of parents, as the release itself
  induction fuel generalizing volume id with
  | zero => rfl
  | succ fuel ih =>
      simp only [volumeReleaseWith, releaseWith]
      cases hentry : volume.state.entry id with
      | error stop => rfl
      | ok entry =>
          have hentries := State.entry_eq_ok.mp hentry
          have hlowered : ClosedAbove apart
              (volume.state.set id { entry with references := entry.references - 1 }) :=
            hclosed.set hentries rfl
          simp only [ok_bind]
          generalize volume.state.set id { entry with references := entry.references - 1 } =
            lowered at hlowered ⊢
          by_cases hzero : entry.references = 0
          · simp [hzero, Except.map]
          rw [if_neg hzero, if_neg hzero]
          by_cases hlast : entry.references - 1 = 0
          · rw [if_pos hlast, if_pos hlast]
            cases hparent : entry.parent with
            | none =>
                by_cases hnode : entry.node = none
                · simp [hnode, nodeRelease, Except.map]
                · simp [hnode, nodeRelease, Except.map, hunmarked id hid]
            | some parent =>
                simp only
                cases hparentEntry : lowered.entry parent with
                | error stop => simp [Except.map]
                | ok parentEntry =>
                    have hcleared : ClosedAbove apart
                        (lowered.set parent (parentEntry.setDirent entry.parentNode none)) :=
                      hlowered.set (State.entry_eq_ok.mp hparentEntry) rfl
                    have hparentApart := hclosed id entry parent hid hentries hparent
                    simp only [ok_bind]
                    rw [@ih ⟨lowered.set parent (parentEntry.setDirent entry.parentNode none),
                      volume.marked, volume.deleted⟩ parent hcleared hunmarked hparentApart]
                    cases releaseWith fuel _ parent with
                    | error stop => simp [Except.map]
                    | ok after =>
                        by_cases hnode : entry.node = none
                        · simp [hnode, nodeRelease, Except.map]
                        · simp [hnode, nodeRelease, Except.map, hunmarked id hid]
          · rw [if_neg hlast, if_neg hlast]
            simp [Except.map]

/-- One of several references goes. -/
theorem volumeRelease_of_more (hentry : volume.state.entries id = some entry)
    (hmore : 1 < entry.references) :
    volumeRelease volume id = .ok { volume with
      state := volume.state.set id { entry with references := entry.references - 1 } } := by
  have hzero : entry.references ≠ 0 := by omega
  have hlast : entry.references - 1 ≠ 0 := by omega
  simp only [volumeRelease, volumeReleaseWith, State.entry_eq_ok.mpr hentry, ok_bind]
  rw [if_neg hzero, if_neg hlast]
  rfl

/-- The last reference to a marked entry without a parent goes. -/
theorem volumeRelease_of_last (hentry : volume.state.entries id = some entry)
    (hlast : entry.references = 1) (hparent : entry.parent = none) (hnode : entry.node ≠ none)
    (hmarked : volume.marked id = true) :
    volumeRelease volume id = .ok { volume with
      state := volume.state.free id
      deleted := id :: volume.deleted } := by
  simp [volumeRelease, volumeReleaseWith, State.entry_eq_ok.mpr hentry, hlast, hparent, nodeRelease,
    hnode, hmarked, State.free_set]

end Releases

end PKernel.Vfs
