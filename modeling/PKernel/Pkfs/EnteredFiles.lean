import PKernel.Pkfs.NodeLookup

/-! # Entering a file

`fs_directory_node_enter` lists what it has looked up, files as well as directories. For a
file `list` takes the first data page for an index page. What is there in the place of the
first child is the size of the page with the first six bytes of data.
-/

namespace PKernel.Pkfs

open Operation

variable {device : Device} {state state' : Vfs.State} {dirent child file fuel garbage : Nat}
  {name : Vfs.Name} {entry made : Vfs.Entry} {iterator : DirectoryIterator}
  {nodes result : List Vfs.EntryNode} {errno : Errno}

/-- The page that a node leads to has a file or a directory in the place of its first child. -/
def ReadsAsIndex (device : Device) (file : Nat) : Prop :=
  file < device.size ∧ device.word file targetField < device.size ∧
    device.word (device.word file targetField) (childField 0) ≠ 0 ∧
    entryType device (device.word (device.word file targetField) (childField 0)) ≠ .none

/-! ## Completed calls -/

theorem listLoop_succ_eq_ok (hcall : listLoop device (fuel + 1) iterator nodes = .ok result) :
    (directoryIteratorNext device iterator).1 = .none ∧ result = nodes ∨
      (directoryIteratorNext device iterator).1 ≠ .none ∧ ∃ next name,
        listLoop device fuel next ((Vfs.addNode nodes name).getD nodes) = .ok result := by
  rw [listLoop] at hcall
  split at hcall
  next hnext =>
    rw [hnext]
    exact .inl ⟨rfl, (Except.ok.inj hcall).symm⟩
  next type handle next htype hnext =>
    obtain ⟨name, -, hrest⟩ := bind_eq_ok.mp hcall
    rw [hnext]
    exact .inr ⟨htype, next, name, hrest⟩

/-- A list of nodes that is not empty stays so. -/
theorem listLoop_ne_nil (hcall : listLoop device fuel iterator nodes = .ok result)
    (hnodes : nodes ≠ []) : result ≠ [] := by
  induction fuel generalizing iterator nodes with
  | zero => cases hcall
  | succ fuel ih =>
      rcases listLoop_succ_eq_ok hcall with ⟨-, rfl⟩ | ⟨-, next, name, hrest⟩
      · exact hnodes
      · refine ih hrest ?_
        unfold Vfs.addNode
        split
        next => exact hnodes
        next => exact List.cons_ne_nil _ _

/-- The listing of an empty list of nodes leaves it empty exactly if it ends at once. -/
theorem listLoop_eq_nil_iff (hcall : listLoop device fuel iterator [] = .ok result) :
    result = [] ↔ (directoryIteratorNext device iterator).1 = .none := by
  cases fuel with
  | zero => cases hcall
  | succ fuel =>
      rcases listLoop_succ_eq_ok hcall with ⟨hnone, rfl⟩ | ⟨hsome, next, name, hrest⟩
      · simp [hnone]
      · have hne := listLoop_ne_nil hrest (by simp [Vfs.addNode])
        simp [hne, hsome]

theorem lookup_eq_ok (hcall : lookup fuel state device dirent name garbage = .ok (errno, state'))
    (hentry : state.entries dirent = some entry) :
    state' = state ∨ ∃ type page, state' =
      (Vfs.directoryEntryCreate state type (some dirent) name (some page)).2.set dirent
        (entry.setDirent name (some state.next)) := by
  have hopen : onEntries (state.entry dirent) = .ok entry := by
    rw [onEntries_eq_ok, Vfs.State.entry, hentry]
  rw [lookup, hopen, ok_bind] at hcall
  cases hnode : entry.node with
  | none => simp [hnode] at hcall
  | some directory =>
      simp only [hnode] at hcall
      obtain ⟨⟨opened, _⟩, -, hcall⟩ := bind_eq_ok.mp hcall
      cases opened with
      | none =>
          cases hcall
          exact .inl rfl
      | some iterator =>
          simp only at hcall
          obtain ⟨found, -, hcall⟩ := bind_eq_ok.mp hcall
          cases found with
          | none =>
              cases hcall
              exact .inl rfl
          | some found =>
              cases hcall
              exact .inr ⟨_, _, rfl⟩

theorem list_eq_ok (hcall : list fuel state device dirent = .ok (errno, state'))
    (hentry : state.entries dirent = some entry) (hnode : entry.node = some file) :
    (∃ iterator nodes, directoryIteratorInit file device = .ok (some iterator, device) ∧
      listLoop device fuel iterator entry.nodes = .ok nodes ∧
      state' = state.set dirent { entry with nodes }) ∨
    (∀ iterator, directoryIteratorInit file device ≠ .ok (some iterator, device)) ∧
      state' = state := by
  have hopen : onEntries (state.entry dirent) = .ok entry := by
    rw [onEntries_eq_ok, Vfs.State.entry, hentry]
  rw [list, hopen, ok_bind, hnode] at hcall
  simp only at hcall
  obtain ⟨⟨opened, after⟩, hinit, hcall⟩ := bind_eq_ok.mp hcall
  have hinit := onDisc_eq_ok.mp hinit
  cases opened with
  | none =>
      cases hcall
      refine .inr ⟨fun iterator hother => ?_, rfl⟩
      rw [hinit] at hother
      cases hother
  | some iterator =>
      simp only at hcall
      obtain ⟨nodes, hloop, hcall⟩ := bind_eq_ok.mp hcall
      cases hcall
      obtain ⟨-, -, rfl, -⟩ := directoryIteratorInit_eq_ok.mp hinit
      refine .inl ⟨iterator, nodes, hinit, mapError_eq_ok.mp hloop, ?_⟩
      rw [hnode]

theorem find?_setDirent (entry : Vfs.Entry) (name : Vfs.Name) (dirent : Option Nat) :
    (entry.setDirent name dirent).find? name =
      (entry.find? name).map fun node => { node with dirent } := by
  unfold Vfs.Entry.find? Vfs.Entry.setDirent
  induction entry.nodes with
  | nil => rfl
  | cons node rest ih =>
      by_cases hname : node.name = name
      · simp [hname]
      · simp [hname, ih]

/-- A node that is entered for the first time gets the next entry, and that is listed. -/
theorem directoryNodeEnter_eq_ok (hentry : state.entries dirent = some entry)
    (hunset : entry.find? name = some ⟨name, none⟩) (hfresh : state.entries state.next = none)
    (hcall : directoryNodeEnter fuel state device dirent name garbage = .ok (child, state')) :
    ∃ found type page errno,
      found.entries child = some ⟨some dirent, name, 1, type, some page, []⟩ ∧
        list fuel found device child = .ok (errno, state') := by
  have hopen : onEntries (state.entry dirent) = .ok entry := by
    rw [onEntries_eq_ok, Vfs.State.entry, hentry]
  have hne : state.next ≠ dirent := by
    rintro rfl
    rw [hfresh] at hentry
    cases hentry
  rw [directoryNodeEnter, hopen, ok_bind, hunset] at hcall
  simp only at hcall
  obtain ⟨counted, hcount, hcall⟩ := bind_eq_ok.mp hcall
  have hcounted : state.set dirent { entry with references := entry.references + 1 } = counted := by
    have hadd := onEntries_eq_ok.mp hcount
    simpa [Vfs.addReference, Vfs.State.entry, hentry] using hadd
  subst hcounted
  obtain ⟨⟨_, found⟩, hlookup, hcall⟩ := bind_eq_ok.mp hcall
  obtain ⟨foundEntry, hfoundEntry, hcall⟩ := bind_eq_ok.mp hcall
  have hfoundEntry := onEntries_eq_ok.mp hfoundEntry
  have hset : (state.set dirent { entry with references := entry.references + 1 }).entries dirent =
      some { entry with references := entry.references + 1 } := by
    simp [Vfs.State.set]
  rcases lookup_eq_ok hlookup hset with rfl | ⟨type, page, rfl⟩
  · -- without a child the node stays without an entry
    rw [Vfs.State.entry, hset, Except.ok.injEq] at hfoundEntry
    have hfind : foundEntry.find? name = some ⟨name, none⟩ := hfoundEntry ▸ hunset
    rw [hfind] at hcall
    cases hcall
  · have hfound : { entry with references := entry.references + 1 }.setDirent name
        (some state.next) = foundEntry := by
      simpa [Vfs.State.entry, Vfs.State.set] using hfoundEntry
    have hfind : foundEntry.find? name = some ⟨name, some state.next⟩ := by
      rw [← hfound, find?_setDirent]
      have hold : { entry with references := entry.references + 1 }.find? name =
          some ⟨name, none⟩ := hunset
      rw [hold]
      rfl
    rw [hfind] at hcall
    simp only [Option.bind_some] at hcall
    obtain ⟨⟨errno, listed⟩, hlist, hcall⟩ := bind_eq_ok.mp hcall
    cases hcall
    refine ⟨_, type, page, errno, ?_, hlist⟩
    simp [Vfs.State.set, Vfs.directoryEntryCreate, hne]

/-! ## The entry of a file -/

/-- What the iterator says first about a node is what is in the place of the first child. -/
theorem directoryIteratorInit_first
    (hinit : directoryIteratorInit file device = .ok (some iterator, device)) :
    (directoryIteratorNext device iterator).1 = .none ↔ ¬ReadsAsIndex device file := by
  obtain ⟨hfile, htarget, -, rfl⟩ := directoryIteratorInit_eq_ok.mp hinit
  have hword : (device.pages (device.word file targetField)).word (childField 0) =
      device.word (device.word file targetField) (childField 0) := rfl
  unfold ReadsAsIndex
  by_cases hfree : device.word (device.word file targetField) (childField 0) = 0
  · rw [directoryIteratorNext_free (by decide) (hword.trans hfree)]
    simp [hfree]
  · have hused : (device.pages (device.word file targetField)).word (childField 0) ≠ 0 := hfree
    rw [directoryIteratorNext_child (by decide) hused, hword]
    simp [hfile, htarget, hfree]

/-- The entry of a node that is entered for the first time has no children exactly if the
page that it leads to does not read as an index page with a child. -/
theorem nodes_eq_nil_iff (hentry : state.entries dirent = some entry)
    (hunset : entry.find? name = some ⟨name, none⟩) (hfresh : state.entries state.next = none)
    (hcall : directoryNodeEnter fuel state device dirent name garbage = .ok (child, state'))
    (hmade : state'.entries child = some made) (hfile : made.node = some file) :
    made.nodes = [] ↔ ¬ReadsAsIndex device file := by
  obtain ⟨found, type, page, errno, hnew, hlist⟩ :=
    directoryNodeEnter_eq_ok hentry hunset hfresh hcall
  rcases list_eq_ok hlist hnew rfl with ⟨iterator, nodes, hinit, hloop, rfl⟩ | ⟨hunread, rfl⟩
  · obtain rfl : ⟨some dirent, name, 1, type, some page, nodes⟩ = made := by
      simpa [Vfs.State.set] using hmade
    obtain rfl : page = file := Option.some.inj hfile
    rw [← directoryIteratorInit_first hinit]
    exact listLoop_eq_nil_iff hloop
  · cases hnew.symm.trans hmade
    obtain rfl : page = file := Option.some.inj hfile
    refine iff_of_true rfl fun hreads => ?_
    exact hunread _ (directoryIteratorInit_eq_ok.mpr ⟨hreads.1, hreads.2.1, rfl, rfl⟩)

/-- The cache in which the root directory has a node `a` without an entry. -/
def rootListed : Vfs.State :=
  ⟨Function.update (fun _ => none) Vfs.fsRoot
    (some ⟨none, [], 2, .directory, some 65, [⟨[97], none⟩]⟩), 1⟩

/-- The only byte of the file is 1, and no page has the number that starts with its size. -/
theorem nodes_eq_nil_oneFile : ∃ state' made,
    directoryNodeEnter 2 rootListed oneFileImage Vfs.fsRoot [97] 0 = .ok (1, state') ∧
      state'.entries 1 = some made ∧ made.type = .regular ∧
      (made.nodes = [] ↔ ¬ReadsAsIndex oneFileImage 67) := by
  have hcall : (directoryNodeEnter 2 rootListed oneFileImage Vfs.fsRoot [97] 0).toOption.map
      (fun outcome => (outcome.1, outcome.2.entries 1)) =
        some (1, some ⟨some 0, [97], 1, .regular, some 67, []⟩) := by decide +kernel
  obtain ⟨⟨child, state'⟩, henter, hresult⟩ := Option.map_eq_some_iff.mp hcall
  obtain ⟨rfl, hmade⟩ := Prod.mk.inj hresult
  have henter := toOption_eq_some.mp henter
  exact ⟨state', _, henter, hmade, rfl, nodes_eq_nil_iff rfl rfl rfl henter hmade rfl⟩

/-- The file `a` of 65 zeros. -/
def zeroFileImage : Device :=
  oneFileImage.set 68 (appended (newFileData 67) (List.replicate 65 0))

/-- The size of the file is the number of the root directory, whose name is empty. -/
theorem nodes_of_zeroFile : ∃ state',
    directoryNodeEnter 2 rootListed zeroFileImage Vfs.fsRoot [97] 0 = .ok (1, state') ∧
      state'.entries 1 = some ⟨some 0, [97], 1, .regular, some 67, [⟨[], none⟩]⟩ := by
  have hcall : (directoryNodeEnter 2 rootListed zeroFileImage Vfs.fsRoot [97] 0).toOption.map
      (fun outcome => (outcome.1, outcome.2.entries 1)) =
        some (1, some ⟨some 0, [97], 1, .regular, some 67, [⟨[], none⟩]⟩) := by decide +kernel
  obtain ⟨⟨child, state'⟩, henter, hresult⟩ := Option.map_eq_some_iff.mp hcall
  obtain ⟨rfl, hmade⟩ := Prod.mk.inj hresult
  exact ⟨state', toOption_eq_some.mp henter, hmade⟩

end PKernel.Pkfs
