import PKernel.Pkfs.Linking

/-! # Listing and looking up

`list` and `lookup` of `superblock_ops.c`, and `fs_directory_node_enter` on `pkfs`, which
calls one after the other. Both read names into a buffer of 128 bytes and ask an iterator for
the children of a directory.
-/

namespace PKernel.Pkfs

open Operation

/-! ## The functions -/

/-- What `list` and `lookup` return: 0, `ENOENT` or `ENOTSUP`. -/
inductive Errno where
  | ok
  | noEntry
  | notSupported
deriving DecidableEq, Repr

/-- The file type that `lookup` gives an entry. -/
def EntryType.fileType : EntryType → Vfs.FileType
  | .directory => .directory
  | _ => .regular

/-- The string in `buffer` after `get_file_name` or `get_directory_name`, which has
`FILESYSTEM_NAME_MAX_SIZE` bytes. The iterator has read the page, so the call can too. -/
def bufferedName (device : Device) (type : EntryType) (page : Nat) : Except Stop Vfs.Name := do
  let (buffer, _) ← match type with
    | .directory => getDirectoryName page device
    | _ => getFileName page device
  let buffer := buffer.getD []
  if nameMaxSize < buffer.length then throw .overrun
  return buffer.takeWhile fun byte => byte ≠ 0

/-- The loop of `list`. A handle that is stored is not 0, so that the test of `page_address`
decides nothing that the type does not. -/
def listLoop (device : Device) :
    Nat → DirectoryIterator → List Vfs.EntryNode → Except Stop (List Vfs.EntryNode)
  | 0, _, _ => .error .nontermination
  | fuel + 1, iterator, nodes =>
      match directoryIteratorNext device iterator with
      | (.none, _, _) => .ok nodes
      | (type, handle, next) => do
          let buffer ← bufferedName device type (handle.getD 0)
          listLoop device fuel next ((Vfs.addNode nodes buffer).getD nodes)

/-- `list`. -/
def list (fuel : Nat) (state : Vfs.State) (device : Device) (dirent : Nat) :
    Except CreateStop (Errno × Vfs.State) := do
  let entry ← onEntries (state.entry dirent)
  match entry.node with
  | none => throw (.entries .badPointer)
  | some directory =>
      let (opened, _) ← onDisc (directoryIteratorInit directory) device
      match opened with
      | none => return (.notSupported, state)
      | some iterator =>
          let nodes ← (listLoop device fuel iterator entry.nodes).mapError .disc
          return (.ok, state.set dirent { entry with nodes })

/-- The loop of `lookup`, with the child that it finds. `page_address` is declared without a
value: where the iterator stores none, a round has that of the round before. -/
def lookupLoop (device : Device) (name : Vfs.Name) :
    Nat → DirectoryIterator → Nat → Except Stop (Option (EntryType × Nat))
  | 0, _, _ => .error .nontermination
  | fuel + 1, iterator, pageAddress =>
      let (result, handle, next) := directoryIteratorNext device iterator
      let pageAddress := handle.getD pageAddress
      if pageAddress = 0 then .ok none
      else if result = .none then lookupLoop device name fuel next pageAddress
      else do
        let buffer ← bufferedName device result pageAddress
        if buffer = name then return some (result, pageAddress)
        else lookupLoop device name fuel next pageAddress

/-- `lookup`. Before the first round `page_address` has the value `garbage`. -/
def lookup (fuel : Nat) (state : Vfs.State) (device : Device) (dirent : Nat) (name : Vfs.Name)
    (garbage : Nat) : Except CreateStop (Errno × Vfs.State) := do
  let entry ← onEntries (state.entry dirent)
  match entry.node with
  | none => throw (.entries .badPointer)
  | some directory =>
      let (opened, _) ← onDisc (directoryIteratorInit directory) device
      match opened with
      | none => return (.notSupported, state)
      | some iterator =>
          match ← (lookupLoop device name fuel iterator garbage).mapError .disc with
          | none => return (.noEntry, state)
          | some (type, page) =>
              let (child, state) :=
                Vfs.directoryEntryCreate state type.fileType (some dirent) name (some page)
              return (.ok, state.set dirent (entry.setDirent name (some child)))

/-- `fs_directory_node_enter`, for the node of `dirent` with a name. The results of `lookup`
and `list` are not looked at. -/
def directoryNodeEnter (fuel : Nat) (state : Vfs.State) (device : Device) (dirent : Nat)
    (name : Vfs.Name) (garbage : Nat) : Except CreateStop (Nat × Vfs.State) := do
  let entry ← onEntries (state.entry dirent)
  match entry.find? name with
  | none => throw (.entries .badPointer)
  | some ⟨_, some child⟩ => return (child, ← onEntries (Vfs.addReference state child))
  | some ⟨_, none⟩ =>
      let state ← onEntries (Vfs.addReference state dirent)
      let (_, state) ← lookup fuel state device dirent name garbage
      let entry ← onEntries (state.entry dirent)
      match (entry.find? name).bind fun node => node.dirent with
      | none => throw (.entries .badPointer)
      | some child =>
          let (_, state) ← list fuel state device child
          return (child, state)

variable {device : Device} {page : Nat} {type : EntryType} {name : Vfs.Name}

/-! ## Names -/

theorem Page.notMem_name (page : Page) : 0 ∉ page.name := by
  intro hzero
  have htest := List.mem_takeWhile_imp hzero
  simp at htest

/-- A name without its NUL in the field does not fit in the buffer. -/
theorem bufferedName_eq (hpage : page < device.size) : bufferedName device type page =
    if (device.pages page).name.length < nameMaxSize then .ok (device.pages page).name
    else .error .overrun := by
  have hbuffer : ((device.pages page).name ++ [0]).takeWhile (fun byte => byte ≠ 0) =
      (device.pages page).name := by
    rw [List.takeWhile_append_of_pos]
    · simp
    · intro byte hbyte
      exact decide_eq_true fun hzero => (device.pages page).notMem_name (hzero ▸ hbyte)
  have hname : getNodeName page device =
      .ok (some ((device.pages page).name ++ [0]), device) := getFileName_of_lt hpage
  have hlength : nameMaxSize < ((device.pages page).name ++ [0]).length ↔
      ¬(device.pages page).name.length < nameMaxSize := by
    rw [List.length_append, List.length_singleton]
    omega
  have hcall : bufferedName device type page =
      (if nameMaxSize < ((device.pages page).name ++ [0]).length then .error .overrun
        else .ok (((device.pages page).name ++ [0]).takeWhile fun byte => byte ≠ 0)) := by
    unfold bufferedName getFileName getDirectoryName
    cases type <;> simp only [hname, ok_bind, Option.getD_some] <;> split <;> rfl
  rw [hcall, hbuffer]
  by_cases hshort : (device.pages page).name.length < nameMaxSize
  · rw [if_neg (by rwa [hlength, not_not]), if_pos hshort]
  · rw [if_pos (hlength.mpr hshort), if_neg hshort]

/-! ## Handles -/

theorem DirectoryIterator.here_handle {iterator next : DirectoryIterator} {handle : Nat}
    (hnext : iterator.here device = (type, some handle, next)) : handle ≠ 0 := by
  unfold DirectoryIterator.here at hnext
  simp only at hnext
  split at hnext
  next => cases hnext
  next hne =>
    simp only [Prod.mk.injEq, Option.some.injEq] at hnext
    exact hnext.2.1 ▸ hne

/-- A handle that the iterator stores is not 0. -/
theorem directoryIteratorNext_handle {iterator next : DirectoryIterator} {handle : Nat}
    (hnext : directoryIteratorNext device iterator = (type, some handle, next)) : handle ≠ 0 := by
  unfold directoryIteratorNext at hnext
  split at hnext
  next =>
    split at hnext
    next => cases hnext
    next => exact DirectoryIterator.here_handle hnext
  next => exact DirectoryIterator.here_handle hnext

end PKernel.Pkfs
