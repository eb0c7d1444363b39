import PKernel.Pkfs.Disc

/-! # Operations on the disc

`disc_operations.c`. An operation that a transfer fails takes the early return of the
source, and what it wrote before stays written. Loops that follow addresses on disc
have a bound, as nothing in the source says that they end.
-/

namespace PKernel.Pkfs

/-- How an operation ends without returning. -/
inductive Stop where
  /-- An access behind the end of a page. -/
  | overrun
  /-- A loop of the source went on past the bound the model gives it. -/
  | nontermination
deriving DecidableEq, Repr

/-- A call that leaves a changed device. The result is none after a failed transfer,
where the source returns 0 or `false`. -/
def Operation (α : Type) : Type := Device → Except Stop (Option α × Device)

namespace Operation

variable {α β : Type}

instance : Monad Operation where
  pure value := fun device => .ok (some value, device)
  bind operation next := fun device =>
    match operation device with
    | .error stop => .error stop
    | .ok (none, device) => .ok (none, device)
    | .ok (some value, device) => next value device

def stop (stop : Stop) : Operation α := fun _ => .error stop

/-- The early return. -/
def fail : Operation α := fun device => .ok (none, device)

/-- The value that the source returns, where the early return is `return 0`. -/
def orZero (operation : Operation Nat) : Operation Nat := fun device =>
  match operation device with
  | .error stop => .error stop
  | .ok (result, device) => .ok (some (result.getD 0), device)

@[simp]
theorem pure_apply (value : α) (device : Device) :
    (pure value : Operation α) device = .ok (some value, device) := rfl

@[simp]
theorem stop_apply (reason : Stop) (device : Device) :
    (stop reason : Operation α) device = .error reason := rfl

@[simp]
theorem fail_apply (device : Device) : (fail : Operation α) device = .ok (none, device) := rfl

theorem bind_of_some {operation : Operation α} {next : α → Operation β} {device device' : Device}
    {value : α} (hcall : operation device = .ok (some value, device')) :
    (operation >>= next) device = next value device' := by
  simp only [bind, hcall]

theorem bind_of_none {operation : Operation α} {next : α → Operation β} {device device' : Device}
    (hcall : operation device = .ok (none, device')) :
    (operation >>= next) device = .ok (none, device') := by
  simp only [bind, hcall]

/-- A sequence of calls gets to its end only through the end of its first call. -/
theorem bind_eq_ok {operation : Operation α} {next : α → Operation β} {device device' : Device}
    {result : β} :
    (operation >>= next) device = .ok (some result, device') ↔
      ∃ value middle, operation device = .ok (some value, middle) ∧
        next value middle = .ok (some result, device') := by
  simp only [bind]
  split
  next reason hcall => simp [hcall]
  next middle hcall => simp [hcall]
  next value middle hcall => simp [hcall]

/-- A sequence of calls ends with the early return of its first call, or goes on. -/
theorem bind_cases {operation : Operation α} {next : α → Operation β} {device device' : Device}
    {result : Option β} (hcall : (operation >>= next) device = .ok (result, device')) :
    operation device = .ok (none, device') ∨
      ∃ value middle, operation device = .ok (some value, middle) ∧
        next value middle = .ok (result, device') := by
  simp only [bind] at hcall
  split at hcall
  next reason _ => cases hcall
  next middle hfirst =>
    cases hcall
    exact .inl hfirst
  next value middle hfirst => exact .inr ⟨value, middle, hfirst, hcall⟩

end Operation

open Operation

namespace Device

/-- The contents of a sector that the device has. -/
def read? (device : Device) (address : Nat) : Option Page :=
  if address < device.size then some (device.pages address) else none

end Device

/-- `disc_read` of one sector. -/
def discRead (address : Nat) : Operation Page := fun device =>
  .ok (device.read? address, device)

/-- `disc_write` of one sector. -/
def discWrite (address : Nat) (page : Page) : Operation Unit := fun device =>
  if address < device.size then .ok (some (), device.set address page) else .ok (none, device)

/-- The loop of `alloc_page`, `create_file` and `create_dir` that looks for the next page
that is not in use. -/
def nextFree (node : Nat) : Operation Nat := fun device =>
  .ok ((List.range' (u64 (node + 1)) (device.size - u64 (node + 1))).find? fun address =>
    !(device.pages address).inUse, device)

/-- `alloc_page`. -/
def allocPage : Operation Nat := do
  let rootNode ← discRead rootAddress
  let allocNode := rootNode.word firstFreeField
  let node ← nextFree allocNode
  discWrite rootAddress (rootNode.setWord firstFreeField node)
  return allocNode

/-- What `create_file` and `create_dir` do alike: a node page that leads to a body page. -/
def createWith (nodePage bodyPage : Nat → Page) : Operation Nat := do
  let rootNode ← discRead rootAddress
  let rootAddr := rootNode.word firstFreeField
  let node ← nextFree rootAddr
  discWrite rootAddr (nodePage node)
  discWrite node (bodyPage rootAddr)
  let free ← nextFree node
  discWrite rootAddress (rootNode.setWord firstFreeField free)
  return rootAddr

/-- `file_page` and `dir_page`, as they are written. -/
def newNodePage (type : PageType) (target : Nat) : Page :=
  ((Page.zero.setInUse true).setType type).setWord targetField target

/-- The first data page of a new file. -/
def newFileData (parent : Nat) : Page :=
  (((((Page.zero.setInUse true).setType .file).setWord parentField parent).setWord prevField 0).setWord
    nextField 0).setSize 0

/-- The index page of a new directory. -/
def newDirectoryIndex (parent : Nat) : Page :=
  (List.range directoryIndexChildrenSize).foldl (fun page index => page.setWord (childField index) 0)
    (((((Page.zero.setInUse true).setType .directoryIndex).setWord parentField parent).setWord
      prevField 0).setWord nextField 0)

/-- `create_file`. -/
def createFile : Operation Nat := createWith (newNodePage .file) newFileData

/-- `create_dir`. -/
def createDir : Operation Nat := createWith (newNodePage .directory) newDirectoryIndex

/-- The first free slot of an index page. -/
def freeSlot? (indexPage : Page) : Option Nat :=
  (List.range directoryIndexChildrenSize).find? fun index => indexPage.word (childField index) = 0

/-- `file_page` in `link_node` with the name and the parent. `strcpy` writes behind `name`
when the string is longer. -/
def namedPage (filePage : Page) (name : List UInt8) (directory : Nat) : Page :=
  (filePage.copy 2 (name ++ [0])).setWord nodeParentField directory

/-- `link_node`. -/
def linkNode (directory node : Nat) (name : List UInt8) : Operation Bool := do
  let nodePage ← discRead directory
  let indexPage ← discRead (nodePage.word targetField)
  match freeSlot? indexPage with
  | none => return false
  | some index =>
      let filePage ← discRead node
      if 512 < 2 + name.length + 1 then stop .overrun
      discWrite node (namedPage filePage name directory)
      discWrite (nodePage.word targetField) (indexPage.setWord (childField index) node)
      return true

/-- What `get_file_name` and `get_directory_name` do alike: the bytes that they store. -/
def getNodeName (node : Nat) : Operation (List UInt8) := do
  let nodePage ← discRead node
  return nodePage.name ++ [0]

/-- `get_directory_name`. -/
def getDirectoryName (file : Nat) : Operation (List UInt8) := getNodeName file

/-- `get_file_name`. -/
def getFileName (file : Nat) : Operation (List UInt8) := getNodeName file

/-! ## The directory iterator -/

/-- `filesystem_directory_entry_type_t`. -/
inductive EntryType where
  | none
  | file
  | directory
deriving DecidableEq, Repr

/-- `directory_iterator_t`. -/
structure DirectoryIterator where
  nodePage : Page
  indexPage : Page
  indexLocation : Nat

/-- `directory_iterator_init`. -/
def directoryIteratorInit (directory : Nat) : Operation DirectoryIterator := do
  let nodePage ← discRead directory
  let indexPage ← discRead (nodePage.word targetField)
  return ⟨nodePage, indexPage, 0⟩

/-- What `directory_iterator_next` says about a child, by the type of its page. -/
def entryType (device : Device) (handle : Nat) : EntryType :=
  match device.read? handle with
  | none => .none
  | some page =>
      if page.type = PageType.file.code then .file
      else if page.type = PageType.directory.code then .directory
      else .none

/-- `directory_iterator_next` before the end of the index page. The handle is none where
the source leaves `*handle` as it was. -/
def DirectoryIterator.here (device : Device) (iterator : DirectoryIterator) :
    EntryType × Option Nat × DirectoryIterator :=
  let handle := iterator.indexPage.word (childField iterator.indexLocation)
  if handle = 0 then (.none, none, iterator)
  else (entryType device handle, some handle,
    { iterator with indexLocation := iterator.indexLocation + 1 })

/-- `directory_iterator_next`. Its recursive call is at location 0. -/
def directoryIteratorNext (device : Device) (iterator : DirectoryIterator) :
    EntryType × Option Nat × DirectoryIterator :=
  if directoryIndexChildrenSize ≤ iterator.indexLocation then
    match device.read? (iterator.indexPage.word nextField) with
    | none => (.none, none, iterator)
    | some indexPage => DirectoryIterator.here device ⟨iterator.nodePage, indexPage, 0⟩
  else iterator.here device

/-! ## File data -/

/-- The first loop of `read_file`. -/
def skipLoop : Nat → Nat → Page → Nat → Operation (Page × Nat)
  | 0, _, _, _ => stop .nontermination
  | fuel + 1, offset, dataPage, innerOffset =>
      if offset = 0 then return (dataPage, innerOffset)
      else if innerOffset < dataPage.size then skipLoop fuel (offset - 1) dataPage (innerOffset + 1)
      else if dataPage.word nextField = 0 then fail
      else do
        let dataPage ← discRead (dataPage.word nextField)
        skipLoop fuel offset dataPage 0

/-- The second loop of `read_file`. -/
def copyLoop (device : Device) : Nat → Nat → Page → Nat → List UInt8 → Except Stop (List UInt8)
  | 0, _, _, _, _ => .error .nontermination
  | fuel + 1, size, dataPage, innerOffset, buffer =>
      if size = 0 then .ok buffer
      else if innerOffset < dataPage.size then
        if fileDataPageSize ≤ innerOffset then .error .overrun
        else copyLoop device fuel (size - 1) dataPage (innerOffset + 1)
          (buffer ++ [dataPage.datum innerOffset])
      else if dataPage.word nextField = 0 then .ok buffer
      else
        match device.read? (dataPage.word nextField) with
        | none => .ok buffer
        | some dataPage => copyLoop device fuel size dataPage 0 buffer

/-- `read_file`: the bytes that it puts in the buffer. -/
def readFile (fuel file size offset : Nat) : Operation (List UInt8) := do
  let fileNode ← discRead file
  let dataPage ← discRead (fileNode.word targetField)
  let (dataPage, innerOffset) ← skipLoop fuel offset dataPage 0
  fun device => (copyLoop device fuel size dataPage innerOffset []).map fun buffer =>
    (some buffer, device)

/-- The loop of `get_file_size`. -/
def fileSizeLoop : Nat → Nat → Nat → Operation Nat
  | 0, _, _ => stop .nontermination
  | fuel + 1, currentFile, size => do
      let fileNode ← discRead currentFile
      let size := u64 (size + fileNode.size)
      if fileNode.word nextField ≠ 0 then return size
      else fileSizeLoop fuel (fileNode.word nextField) size

/-- `get_file_size`. -/
def getFileSize (fuel file : Nat) : Operation Nat := do
  let rootNode ← discRead file
  fileSizeLoop fuel (rootNode.word targetField) 0

/-- The page that `write_file` links behind `prev`. -/
def newDataPage (prev : Nat) : Page :=
  (((((Page.zero.setInUse true).setType .fileData).setSize 0).setWord nextField 0)).setWord
    prevField prev

/-- `write_size`. -/
def writeSize (fileData : Page) (size : Nat) : Nat :=
  min size (u64 (fileDataPageSize + 2 ^ 64 - fileData.size))

/-- `file_data` with the bytes of the buffer behind those it has. -/
def appended (fileData : Page) (buffer : List UInt8) : Page :=
  (fileData.copy (28 + fileData.size) (buffer.take (writeSize fileData buffer.length))).setSize
    (fileData.size + writeSize fileData buffer.length)

/-- The loop of `write_file`. Before it ends `pos` is 0, and the next address of the page
before a new one stays in memory. -/
def writeLoop (buffer : List UInt8) (offset : Nat) : Nat → Nat → Operation Unit
  | 0, _ => stop .nontermination
  | fuel + 1, dataAddr => do
      let fileData ← discRead dataAddr
      if offset < fileDataPageSize then
        if 0 < writeSize fileData buffer.length ∧
            fileDataPageSize < fileData.size + writeSize fileData buffer.length then stop .overrun
        else discWrite dataAddr (appended fileData buffer)
      else if fileData.word nextField = 0 then
        let next ← allocPage.orZero
        discWrite next (newDataPage dataAddr)
        writeLoop buffer offset fuel next
      else writeLoop buffer offset fuel (fileData.word nextField)

/-- `write_file`. -/
def writeFile (fuel file : Nat) (buffer : List UInt8) (offset : Nat) : Operation Nat := do
  let fileNode ← discRead file
  writeLoop buffer offset fuel (fileNode.word targetField)
  return buffer.length

/-! ## Deletion -/

/-- The first loop of `delete_file`, which ends with the least of `first_free` and the
pages it frees. -/
def freeLoop : Nat → Nat → Nat → Operation Nat
  | 0, _, _ => stop .nontermination
  | fuel + 1, addr, firstFree =>
      if addr = 0 then return firstFree
      else do
        let dataNode ← discRead addr
        discWrite addr (dataNode.setInUse false)
        freeLoop fuel (dataNode.word nextField) (min addr firstFree)

/-- The children from a slot on move up by one. -/
def shiftChildren (indexNode : Page) (index : Nat) : Page :=
  ((List.range' index (directoryIndexChildrenSize - 1 - index)).foldl
    (fun page slot => page.setWord (childField slot) (page.word (childField (slot + 1))))
    indexNode).setWord (childField (directoryIndexChildrenSize - 1)) 0

/-- The slot of an index page that holds a file. -/
def slotOf? (indexNode : Page) (file : Nat) : Option Nat :=
  (List.range directoryIndexChildrenSize).find? fun index => indexNode.word (childField index) = file

/-- The second loop of `delete_file`. -/
def unlinkLoop (file : Nat) : Nat → Nat → Operation Unit
  | 0, _ => stop .nontermination
  | fuel + 1, indexAddr =>
      if indexAddr = 0 then return ()
      else do
        let indexNode ← discRead indexAddr
        match slotOf? indexNode file with
        | some index => discWrite indexAddr (shiftChildren indexNode index)
        | none => unlinkLoop file fuel (indexNode.word nextField)

/-- `delete_file`. The node page of the file has its `in_use` bit cleared in memory only. -/
def deleteFile (fuel root file : Nat) : Operation Bool := do
  let rootPage ← discRead root
  let fileNode ← discRead file
  let firstFree ← freeLoop fuel (fileNode.word targetField) (rootPage.word firstFreeField)
  let dirNode ← discRead (fileNode.word nodeParentField)
  unlinkLoop file fuel (dirNode.word targetField)
  discWrite root (rootPage.setWord firstFreeField (min file firstFree))
  return true

/-! ## What the calls come to when they return -/

section Results

variable {device device' : Device}

theorem read?_eq_some {address : Nat} {page : Page} :
    device.read? address = some page ↔ address < device.size ∧ device.pages address = page := by
  unfold Device.read?
  split
  next hlt => simp [hlt]
  next hge => simp [hge]

theorem discRead_eq_ok {address : Nat} {page : Page} :
    discRead address device = .ok (some page, device') ↔
      address < device.size ∧ page = device.pages address ∧ device = device' := by
  simp only [discRead, Except.ok.injEq, Prod.mk.injEq, read?_eq_some]
  grind

theorem discWrite_eq_ok {address : Nat} {page : Page} {result : Unit} :
    discWrite address page device = .ok (some result, device') ↔
      address < device.size ∧ device' = device.set address page := by
  unfold discWrite
  split
  next hlt => simp [hlt, eq_comm]
  next hge => simp [hge]

theorem discRead_of_lt {address : Nat} (haddress : address < device.size) :
    discRead address device = .ok (some (device.pages address), device) :=
  discRead_eq_ok.mpr ⟨haddress, rfl, rfl⟩

theorem discRead_of_le {address : Nat} (haddress : device.size ≤ address) :
    discRead address device = .ok (none, device) := by
  rw [discRead, Device.read?, if_neg (Nat.not_lt.mpr haddress)]

theorem discWrite_of_lt {address : Nat} (haddress : address < device.size) (page : Page) :
    discWrite address page device = .ok (some (), device.set address page) :=
  discWrite_eq_ok.mpr ⟨haddress, rfl⟩

theorem nextFree_device {node : Nat} {result : Option Nat}
    (hcall : nextFree node device = .ok (result, device')) : device = device' := by
  simp only [nextFree, Except.ok.injEq, Prod.mk.injEq] at hcall
  exact hcall.2

/-- The next free page is the first one behind `node` that is not in use. -/
theorem nextFree_eq_ok {node free : Nat} (hnode : node < device.size) :
    nextFree node device = .ok (some free, device') ↔
      device' = device ∧ node < free ∧ free < device.size ∧ (device.pages free).inUse = false ∧
        ∀ page, node < page → page < free → (device.pages page).inUse = true := by
  have hnowrap : u64 (node + 1) = node + 1 := u64_eq_self (by have := device.size_lt; omega)
  simp only [nextFree, hnowrap, Except.ok.injEq, Prod.mk.injEq, List.find?_range'_eq_some,
    List.mem_range'_1, Bool.not_eq_eq_eq_not, Bool.not_true, Bool.not_not]
  constructor
  · rintro ⟨⟨hfree, ⟨hlower, hupper⟩, hused⟩, rfl⟩
    exact ⟨rfl, hlower, by omega, hfree, fun page hpage hlt => hused page hpage hlt⟩
  · rintro ⟨rfl, hlower, hupper, hfree, hused⟩
    exact ⟨⟨hfree, ⟨hlower, by omega⟩, fun page hpage hlt => hused page hpage hlt⟩, rfl⟩

end Results

end PKernel.Pkfs
