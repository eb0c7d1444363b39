import PKernel.Filesystem.DirectoryEntry
import PKernel.Pkfs.OwnershipRun

/-! # Creation and listing

`create` of `superblock_ops.c` makes a node on disc, enters it in the cached directory
and links it on disc. Whether a listing from disc has the new entry depends on the
first index page of the directory, the only one that `link_node` looks at.
-/

namespace PKernel.Pkfs

open Operation

/-- `create_file` or `create_dir`, for the types that `create` makes nodes of. -/
def createNode? : Vfs.FileType → Option (Operation Nat)
  | .regular => some createFile
  | .directory => some createDir
  | .device => none
  | .pipe => none
  | .socket => none

/-- How `create` ends without returning. -/
inductive CreateStop where
  | entries (stop : Vfs.Stop)
  | disc (stop : Stop)
deriving DecidableEq, Repr

/-- A step on the cached entries. -/
def onEntries {α : Type} (call : Except Vfs.Stop α) : Except CreateStop α :=
  call.mapError .entries

/-- A step on the disc, whose early return goes unnoticed. -/
def onDisc {α : Type} (operation : Operation α) (device : Device) :
    Except CreateStop (Option α × Device) :=
  (operation device).mapError .disc

/-- `create`. The result is the new node in the list of `parent`. Neither the early
return of `create_file` nor the result of `link_node` is looked at. -/
def create (state : Vfs.State) (device : Device) (parent : Nat) (name : Vfs.Name)
    (type : Vfs.FileType) : Except CreateStop (Option Vfs.EntryNode × Vfs.State × Device) := do
  match createNode? type with
  | none => return (none, state, device)
  | some createNode =>
      let parentEntry ← onEntries (state.entry parent)
      match parentEntry.node with
      | none => throw (.entries .badPointer)
      | some directory =>
          let (created, device) ← onDisc createNode device
          let page := created.getD 0
          match Vfs.addNode parentEntry.nodes name with
          -- the new entry is stored through the null pointer that stands for a taken name
          | none => throw (.entries .badPointer)
          | some nodes =>
              let (child, state) := Vfs.directoryEntryCreate state type (some parent) name (some page)
              let state ← onEntries (Vfs.addReference state child)
              let state := state.set parent
                ({ parentEntry with nodes }.setDirent name (some child))
              let (_, device) ← onDisc (linkNode directory page name) device
              return (some ⟨name, some child⟩, state, device)

theorem onEntries_eq_ok {α : Type} {call : Except Vfs.Stop α} {value : α} :
    onEntries call = .ok value ↔ call = .ok value := mapError_eq_ok

theorem onDisc_eq_ok {α : Type} {operation : Operation α} {device : Device}
    {result : Option α × Device} :
    onDisc operation device = .ok result ↔ operation device = .ok result := mapError_eq_ok

/-! ## Listings -/

/-- The handles that an iterator returns before its first `FS_DET_NONE`. -/
inductive Yields (device : Device) : DirectoryIterator → Nat → Prop
  | here {iterator next : DirectoryIterator} {type : EntryType} {handle : Nat}
      (hnext : directoryIteratorNext device iterator = (type, some handle, next))
      (htype : type ≠ .none) : Yields device iterator handle
  | later {iterator next : DirectoryIterator} {type : EntryType} {first handle : Nat}
      (hnext : directoryIteratorNext device iterator = (type, some first, next))
      (htype : type ≠ .none) (hlater : Yields device next handle) : Yields device iterator handle

/-- The handles in a listing of a directory from disc. -/
def Listed (device : Device) (directory handle : Nat) : Prop :=
  ∃ iterator, directoryIteratorInit directory device = .ok (some iterator, device) ∧
    Yields device iterator handle

/-- A listing has the new page under its name, and what was listed before. -/
structure Durable (device device' : Device) (directory page : Nat) (name : Vfs.Name) : Prop where
  listed : Listed device' directory page
  named : (device'.pages page).name = name
  kept : ∀ handle, Listed device directory handle →
    Listed device' directory handle ∧ (device'.pages handle).name = (device.pages handle).name

theorem directoryIteratorInit_eq_ok {device device' : Device} {directory : Nat}
    {iterator : DirectoryIterator} :
    directoryIteratorInit directory device = .ok (some iterator, device') ↔
      directory < device.size ∧ device.word directory targetField < device.size ∧
        device = device' ∧ iterator = ⟨device.pages directory,
          device.pages (device.word directory targetField), 0⟩ := by
  simp only [directoryIteratorInit, Operation.bind_eq_ok, discRead_eq_ok, pure_apply,
    Except.ok.injEq, Prod.mk.injEq, Option.some.injEq]
  constructor
  · rintro ⟨_, _, ⟨hdirectory, rfl, rfl⟩, _, _, ⟨hindex, rfl, rfl⟩, rfl, rfl⟩
    exact ⟨hdirectory, hindex, rfl, rfl⟩
  · rintro ⟨hdirectory, hindex, rfl, rfl⟩
    exact ⟨_, _, ⟨hdirectory, rfl, rfl⟩, _, _, ⟨hindex, rfl, rfl⟩, rfl, rfl⟩

section Iterator

variable {device : Device} {nodePage indexPage : Page} {location : Nat}

theorem directoryIteratorNext_child (hlocation : location < directoryIndexChildrenSize)
    (hchild : indexPage.word (childField location) ≠ 0) :
    directoryIteratorNext device ⟨nodePage, indexPage, location⟩ =
      (entryType device (indexPage.word (childField location)),
        some (indexPage.word (childField location)), ⟨nodePage, indexPage, location + 1⟩) := by
  rw [directoryIteratorNext, if_neg (Nat.not_le.mpr hlocation), DirectoryIterator.here,
    if_neg hchild]

theorem directoryIteratorNext_free (hlocation : location < directoryIndexChildrenSize)
    (hchild : indexPage.word (childField location) = 0) :
    directoryIteratorNext device ⟨nodePage, indexPage, location⟩ =
      (.none, none, ⟨nodePage, indexPage, location⟩) := by
  rw [directoryIteratorNext, if_neg (Nat.not_le.mpr hlocation), DirectoryIterator.here,
    if_pos hchild]

/-- The iterator comes to a child if all children up to it are entries. -/
theorem yields_of_children {index : Nat} (hlocation : location ≤ index)
    (hindex : index < directoryIndexChildrenSize)
    (hchildren : ∀ slot, location ≤ slot → slot ≤ index →
      indexPage.word (childField slot) ≠ 0 ∧
        entryType device (indexPage.word (childField slot)) ≠ .none) :
    Yields device ⟨nodePage, indexPage, location⟩ (indexPage.word (childField index)) := by
  obtain ⟨count, rfl⟩ := Nat.exists_eq_add_of_le hlocation
  induction count generalizing location with
  | zero =>
      obtain ⟨hne, htype⟩ := hchildren location le_rfl le_rfl
      exact .here (directoryIteratorNext_child hindex hne) htype
  | succ count ih =>
      obtain ⟨hne, htype⟩ := hchildren location le_rfl hlocation
      refine .later (directoryIteratorNext_child (by omega) hne) htype ?_
      rw [show location + (count + 1) = location + 1 + count by omega] at hindex hchildren ⊢
      exact ih (by omega) hindex fun slot hlower hupper => hchildren slot (by omega) hupper

/-- Before a free slot the iterator returns children only. -/
theorem children_of_yields {index handle : Nat} (hlocation : location ≤ index)
    (hindex : index < directoryIndexChildrenSize) (hfree : indexPage.word (childField index) = 0)
    (hyields : Yields device ⟨nodePage, indexPage, location⟩ handle) :
    ∃ slot, location ≤ slot ∧ slot < index ∧ indexPage.word (childField slot) = handle ∧
      ∀ place, location ≤ place → place ≤ slot → indexPage.word (childField place) ≠ 0 ∧
        entryType device (indexPage.word (childField place)) ≠ .none := by
  generalize hiterator : (⟨nodePage, indexPage, location⟩ : DirectoryIterator) = iterator at hyields
  -- what the iterator returns at a location is the child there
  have hchild {next : DirectoryIterator} {type : EntryType} {first : Nat} {location : Nat}
      (hlocation : location ≤ index)
      (hnext : directoryIteratorNext device ⟨nodePage, indexPage, location⟩ =
        (type, some first, next)) :
      location < index ∧ indexPage.word (childField location) ≠ 0 ∧
        indexPage.word (childField location) = first ∧
        type = entryType device (indexPage.word (childField location)) ∧
        next = ⟨nodePage, indexPage, location + 1⟩ := by
    have hlt : location < directoryIndexChildrenSize := by omega
    have hne : indexPage.word (childField location) ≠ 0 := by
      intro hzero
      rw [directoryIteratorNext_free hlt hzero] at hnext
      cases hnext
    rw [directoryIteratorNext_child hlt hne] at hnext
    simp only [Prod.mk.injEq, Option.some.injEq] at hnext
    obtain ⟨rfl, rfl, rfl⟩ := hnext
    refine ⟨lt_of_le_of_ne hlocation ?_, hne, rfl, rfl, rfl⟩
    rintro rfl
    exact hne hfree
  induction hyields generalizing location with
  | here hnext htype =>
      subst hiterator
      obtain ⟨hlt, hne, rfl, rfl, -⟩ := hchild hlocation hnext
      refine ⟨location, le_rfl, hlt, rfl, fun place hlower hupper => ?_⟩
      obtain rfl := le_antisymm hlower hupper
      exact ⟨hne, htype⟩
  | later hnext htype _ ih =>
      subst hiterator
      obtain ⟨hlt, hne, -, rfl, rfl⟩ := hchild hlocation hnext
      obtain ⟨slot, hslot, hbefore, hhandle, hentries⟩ := ih hlt rfl
      refine ⟨slot, by omega, hbefore, hhandle, fun place hlower hupper => ?_⟩
      rcases Nat.eq_or_lt_of_le hlower with rfl | hlower
      · exact ⟨hne, htype⟩
      · exact hentries place hlower hupper

end Iterator

/-! ## A node made and linked -/

/-- The children in the first index page of a directory are files and directories. -/
def TypedChildren (device : Device) (directory : Nat) : Prop :=
  ∀ index < directoryIndexChildrenSize,
    device.word (device.word directory targetField) (childField index) ≠ 0 →
      entryType device (device.word (device.word directory targetField) (childField index)) ≠ .none

/-- A page that is as before is the same entry. -/
theorem entryType_congr {device device' : Device} {handle : Nat} (hsize : device'.size = device.size)
    (hpage : device'.pages handle = device.pages handle) :
    entryType device' handle = entryType device handle := by
  unfold entryType Device.read?
  rw [hsize, hpage]

/-- What making and linking a node changes that a listing of the directory sees. -/
structure Entered (device device' : Device) (directory page index top : Nat) (name : Vfs.Name) :
    Prop where
  size : device'.size = device.size
  directory_lt : directory < device.size
  target : device.word directory targetField = page
  page_lt : page < device.size
  node : device'.pages directory = device.pages directory
  changed : device'.pages page = (device.pages page).setWord (childField index) top
  children : ∀ slot < index, device'.pages ((device.pages page).word (childField slot)) =
    device.pages ((device.pages page).word (childField slot))
  top_ne : top ≠ 0
  top_lt : top < 2 ^ 64
  type : entryType device' top ≠ .none
  named : (device'.pages top).name = name

section Listing

variable {device device' : Device} {directory page index top : Nat} {name : Vfs.Name}

theorem Entered.init (hentered : Entered device device' directory page index top name) :
    directoryIteratorInit directory device' = .ok (some ⟨device.pages directory,
      (device.pages page).setWord (childField index) top, 0⟩, device') := by
  have hword : device'.word directory targetField = page := by
    rw [Device.word, hentered.node, ← Device.word, hentered.target]
  refine directoryIteratorInit_eq_ok.mpr ⟨hentered.size ▸ hentered.directory_lt, ?_, rfl, ?_⟩
  · rw [hword]
    exact hentered.size ▸ hentered.page_lt
  · rw [hword, hentered.node, hentered.changed]

/-- The children before the new one are the old ones. -/
theorem Entered.child (hentered : Entered device device' directory page index top name) {slot : Nat}
    (hslot : slot < index) :
    ((device.pages page).setWord (childField index) top).word (childField slot) =
        (device.pages page).word (childField slot) ∧
      entryType device' ((device.pages page).word (childField slot)) =
        entryType device ((device.pages page).word (childField slot)) :=
  ⟨word_childField_setWord_of_ne _ hslot.ne,
    entryType_congr hentered.size (hentered.children slot hslot)⟩

theorem Entered.listed (hentered : Entered device device' directory page index top name)
    (hindex : index < directoryIndexChildrenSize)
    (hbefore : ∀ slot < index, (device.pages page).word (childField slot) ≠ 0 ∧
      entryType device ((device.pages page).word (childField slot)) ≠ .none) :
    Listed device' directory top := by
  have hnew : ((device.pages page).setWord (childField index) top).word (childField index) = top :=
    Page.word_setWord_same _ hentered.top_lt
  have hyields : Yields device' ⟨device.pages directory,
      (device.pages page).setWord (childField index) top, 0⟩
      (((device.pages page).setWord (childField index) top).word (childField index)) := by
    refine yields_of_children (Nat.zero_le index) hindex fun slot _ hupper => ?_
    rcases Nat.lt_or_eq_of_le hupper with hlt | rfl
    · rw [(hentered.child hlt).1, (hentered.child hlt).2]
      exact hbefore slot hlt
    · rw [hnew]
      exact ⟨hentered.top_ne, hentered.type⟩
  rw [hnew] at hyields
  exact ⟨_, hentered.init, hyields⟩

theorem Entered.kept (hentered : Entered device device' directory page index top name)
    (hindex : index < directoryIndexChildrenSize)
    (hfree : (device.pages page).word (childField index) = 0) {handle : Nat}
    (hlisted : Listed device directory handle) :
    Listed device' directory handle ∧ (device'.pages handle).name = (device.pages handle).name := by
  obtain ⟨iterator, hinit, hyields⟩ := hlisted
  obtain ⟨-, -, -, rfl⟩ := directoryIteratorInit_eq_ok.mp hinit
  rw [hentered.target] at hyields
  obtain ⟨slot, -, hslot, hhandle, hentries⟩ :=
    children_of_yields (Nat.zero_le index) hindex hfree hyields
  have hyields' : Yields device' ⟨device.pages directory,
      (device.pages page).setWord (childField index) top, 0⟩
      (((device.pages page).setWord (childField index) top).word (childField slot)) := by
    refine yields_of_children (Nat.zero_le slot) (hslot.trans hindex) fun place _ hupper => ?_
    have hplace : place < index := lt_of_le_of_lt hupper hslot
    rw [(hentered.child hplace).1, (hentered.child hplace).2]
    exact hentries place (Nat.zero_le place) hupper
  rw [(hentered.child hslot).1, hhandle] at hyields'
  refine ⟨⟨_, hentered.init, hyields'⟩, ?_⟩
  rw [← hhandle, hentered.children slot hslot]

theorem Entered.durable (hentered : Entered device device' directory page index top name)
    (hslot : freeSlot? (device.pages page) = some index) (hchildren : TypedChildren device directory) :
    Durable device device' directory top name := by
  obtain ⟨hindex, hfree, hbefore⟩ := freeSlot?_eq_some.mp hslot
  have hentries (slot : Nat) (hlt : slot < index) : (device.pages page).word (childField slot) ≠ 0 ∧
      entryType device ((device.pages page).word (childField slot)) ≠ .none := by
    have htyped := hchildren slot (hlt.trans hindex)
    rw [hentered.target] at htyped
    exact ⟨hbefore slot hlt, htyped (hbefore slot hlt)⟩
  exact ⟨hentered.listed hindex hentries, hentered.named,
    fun _ hlisted => hentered.kept hindex hfree hlisted⟩

end Listing

section Linking

variable {device : Device} {pending : List (Nat × Role)} {kind : Nat → Option Role}
  {directory top below free : Nat} {type : PageType} {bodyPage : Nat → Page} {name : List UInt8}

/-- Making a node leaves the pages that have roles as they were. -/
theorem Owned.created_pages (howned : Owned device pending kind) (htaken : Taken device top below free)
    {page : Nat} {pageRole : Role} (hpage : kind page = some pageRole) (nodePage : Nat → Page) :
    (Pkfs.created device nodePage bodyPage top below free).pages page = device.pages page := by
  obtain ⟨-, htop, hbelow, -⟩ := howned.taken htaken
  have hroot := (howned.placed hpage).1
  refine created_pages_of_ne (by omega) ?_ ?_
  · rintro rfl
    simp [htop] at hpage
  · rintro rfl
    simp [hbelow] at hpage

/-- A node made and linked into the first free slot is entered in the directory. -/
theorem Owned.entered (howned : Owned device pending kind)
    (hdirectory : kind directory = some .directory) (htaken : Taken device top below free)
    (htype : type = .file ∨ type = .directory) (hname : name.length < nameMaxSize) (hnul : 0 ∉ name)
    {index : Nat} (hslot : freeSlot? (device.pages (device.word directory targetField)) = some index) :
    Entered device (linkedTo (Pkfs.created device (newNodePage type) bodyPage top below free)
      directory top name index) directory (device.word directory targetField) index top name := by
  obtain ⟨hindex, -, hbefore⟩ := freeSlot?_eq_some.mp hslot
  obtain ⟨hroot, htopKind, -, -⟩ := howned.taken htaken
  have htopUpper : top < device.size := htaken.top_lt.trans (htaken.below_lt.trans htaken.free_lt)
  have hpageKind := howned.kind_target hdirectory
  have htarget : (Pkfs.created device (newNodePage type) bodyPage top below free).word directory
      targetField = device.word directory targetField := by
    rw [Device.word, howned.created_pages htaken hdirectory, ← Device.word]
  have hmadePages {other : Nat} {otherRole : Role} (hother : kind other = some otherRole) :
      (Pkfs.created device (newNodePage type) bodyPage top below free).pages other =
        device.pages other := howned.created_pages htaken hother _
  have hmadeTop : (Pkfs.created device (newNodePage type) bodyPage top below free).pages top =
      newNodePage type below := created_pages_top (by omega) htaken.top_lt.ne
  have hsize : (Pkfs.created device (newNodePage type) bodyPage top below free).size =
      device.size := rfl
  generalize Pkfs.created device (newNodePage type) bodyPage top below free = made at *
  have hneTop {other : Nat} {otherRole : Role} (hother : kind other = some otherRole) :
      other ≠ top := by
    rintro rfl
    simp [htopKind] at hother
  have hpages {other : Nat} {otherRole : Role} (hother : kind other = some otherRole)
      (hne : otherRole ≠ .index) : (linkedTo made directory top name index).pages other =
        device.pages other := by
    rw [linkedTo_pages_of_ne _ (hneTop hother), hmadePages hother]
    rw [htarget]
    rintro rfl
    exact hne (Option.some.inj (hother.symm.trans hpageKind))
  have hpagesTop : (linkedTo made directory top name index).pages top =
      namedPage (newNodePage type below) name directory := by
    rw [linkedTo_pages_node, hmadeTop]
    rw [htarget]
    exact (hneTop hpageKind).symm
  constructor
  case size => exact hsize
  case directory_lt => exact (howned.placed hdirectory).2.1
  case page_lt => exact (howned.placed hpageKind).2.1
  case node => exact hpages hdirectory (by decide)
  case target => rfl
  case changed => rw [← htarget, linkedTo_pages_index, htarget, hmadePages hpageKind]
  case children =>
    intro slot hslot
    have hchildKind := howned.child hpageKind (hslot.trans hindex) (hbefore slot hslot)
    refine hpages hchildKind fun hrole => ?_
    have hnode := nodeRole_isNode
      (device.pages (device.word (device.word directory targetField) (childField slot)))
    rw [hrole] at hnode
    cases hnode
  case top_ne => exact Nat.ne_zero_of_lt hroot
  case top_lt => exact htopUpper.trans device.size_lt
  case type =>
    have hread : (linkedTo made directory top name index).read? top =
        some (namedPage (newNodePage type below) name directory) :=
      read?_eq_some.mpr ⟨lt_of_lt_of_eq htopUpper hsize.symm, hpagesTop⟩
    unfold entryType
    simp only [hread, namedPage_type, newNodePage_type]
    rcases htype with rfl | rfl <;> decide
  case named => rw [hpagesTop, namedPage_name _ _ hname hnul]

end Linking

/-! ## The whole operation -/

/-- The `file_page` of the entry that a new node of a list stands for. -/
def NewPage (state : Vfs.State) (node : Vfs.EntryNode) (page : Nat) : Prop :=
  ∃ child entry, node.dirent = some child ∧ state.entries child = some entry ∧
    entry.node = some page

/-- There is a free slot in the first index page of a directory. -/
def FreeSlot (device : Device) (directory : Nat) : Prop :=
  ∃ index < directoryIndexChildrenSize,
    device.word (device.word directory targetField) (childField index) = 0

theorem freeSlot_iff {device : Device} {directory : Nat} :
    FreeSlot device directory ↔
      ∃ index, freeSlot? (device.pages (device.word directory targetField)) = some index := by
  constructor
  · rintro ⟨index, hindex, hfree⟩
    refine Option.ne_none_iff_exists'.mp fun hnone => ?_
    exact freeSlot?_eq_none.mp hnone index hindex hfree
  · rintro ⟨index, hslot⟩
    obtain ⟨hindex, hfree, -⟩ := freeSlot?_eq_some.mp hslot
    exact ⟨index, hindex, hfree⟩

section Create

variable {state state' : Vfs.State} {device device' : Device} {parent directory : Nat}
  {entry : Vfs.Entry} {name : Vfs.Name} {type : Vfs.FileType} {node : Vfs.EntryNode}

/-- A returned `create` has made a node, entered it in the cache and tried to link it. -/
theorem create_eq_ok (hfresh : state.entries state.next = none)
    (hentry : state.entries parent = some entry) (hnode : entry.node = some directory)
    (hcall : create state device parent name type = .ok (some node, state', device')) :
    ∃ createNode created made linked, createNode? type = some createNode ∧
      createNode device = .ok (created, made) ∧
      linkNode directory (created.getD 0) name made = .ok (linked, device') ∧
      NewPage state' node (created.getD 0) := by
  unfold create at hcall
  cases hmake : createNode? type with
  | none => simp [hmake] at hcall
  | some createNode =>
      simp only [hmake] at hcall
      obtain ⟨_, hparent, hcall⟩ := bind_eq_ok.mp hcall
      rw [onEntries_eq_ok, Vfs.State.entry, hentry] at hparent
      cases hparent
      simp only [hnode] at hcall
      obtain ⟨⟨created, made⟩, hcreated, hcall⟩ := bind_eq_ok.mp hcall
      rw [onDisc_eq_ok] at hcreated
      cases hnodes : Vfs.addNode entry.nodes name with
      | none => simp [hnodes] at hcall
      | some nodes =>
          simp only [hnodes] at hcall
          obtain ⟨referenced, hreferenced, hcall⟩ := bind_eq_ok.mp hcall
          obtain ⟨⟨linked, final⟩, hlinked, hcall⟩ := bind_eq_ok.mp hcall
          rw [onDisc_eq_ok] at hlinked
          rw [onEntries_eq_ok] at hreferenced
          simp only [pure_eq_ok, Except.ok.injEq, Prod.mk.injEq, Option.some.injEq] at hcall
          obtain ⟨rfl, rfl, rfl⟩ := hcall
          refine ⟨createNode, created, made, linked, rfl, hcreated, hlinked, state.next, ?_⟩
          have hne : state.next ≠ parent := by
            rintro rfl
            simp [hfresh] at hentry
          simp only [Vfs.addReference, Vfs.directoryEntryCreate, Vfs.State.entry, Vfs.State.set,
            Function.update_self, ok_bind, pure_eq_ok, Except.ok.injEq] at hreferenced
          refine ⟨⟨some parent, name, 2, type, some (created.getD 0), []⟩, rfl, ?_, rfl⟩
          rw [← hreferenced]
          simp [Vfs.State.set, Function.update_of_ne hne]

end Create

section Outcome

variable {device device' : Device} {pending : List (Nat × Role)} {kind : Nat → Option Role}
  {directory : Nat} {name : List UInt8}

/-- A node just made, whether or not its link was refused. -/
theorem Owned.durable_of_link (howned : Owned device pending kind) {top below free : Nat}
    {type : PageType} {bodyPage : Nat → Page} {role : Role} {linked : Option Bool}
    (hdirectory : kind directory = some .directory) (htaken : Taken device top below free)
    (hwrites : WritesNode role (newNodePage type) bodyPage) (htype : type = .file ∨ type = .directory)
    (hchildren : TypedChildren device directory) (hname : name.length < nameMaxSize) (hnul : 0 ∉ name)
    (hlink : linkNode directory top name (Pkfs.created device (newNodePage type) bodyPage top below
      free) = .ok (linked, device')) :
    (FreeSlot device directory → Durable device device' directory top name) ∧
      (Durable device device' directory top name → name ≠ [] → FreeSlot device directory) := by
  obtain ⟨hroot, -, -, -⟩ := howned.taken htaken
  have hmade := howned.created htaken hwrites
  have hpageKind := howned.kind_target hdirectory
  have htop : top < (Pkfs.created device (newNodePage type) bodyPage top below free).size :=
    htaken.top_lt.trans (htaken.below_lt.trans htaken.free_lt)
  have hdirectoryLt : directory < (Pkfs.created device (newNodePage type) bodyPage top below free).size :=
    (howned.placed hdirectory).2.1
  have htarget : (Pkfs.created device (newNodePage type) bodyPage top below free).word directory
      targetField = device.word directory targetField := by
    rw [Device.word, howned.created_pages htaken hdirectory, ← Device.word]
  have hpageLt : (Pkfs.created device (newNodePage type) bodyPage top below free).word directory
      targetField < (Pkfs.created device (newNodePage type) bodyPage top below free).size := by
    rw [htarget]
    exact (howned.placed hpageKind).2.1
  have hfits : 2 + name.length + 1 ≤ 512 := by
    unfold nameMaxSize at hname
    omega
  rw [linkNode_of_fits hdirectoryLt hpageLt htop hfits, htarget,
    howned.created_pages htaken hpageKind] at hlink
  cases hslot : freeSlot? (device.pages (device.word directory targetField)) with
  | none =>
      simp only [hslot, Except.ok.injEq, Prod.mk.injEq] at hlink
      obtain ⟨-, rfl⟩ := hlink
      constructor
      · intro hfree
        obtain ⟨index, hindex⟩ := freeSlot_iff.mp hfree
        rw [hslot] at hindex
        cases hindex
      · intro hdurable hnamed
        -- the node is on disc without its name
        refine absurd ?_ hnamed
        rw [← hdurable.named, created_pages_top (by omega) htaken.top_lt.ne, newNodePage_name]
  | some index =>
      simp only [hslot, Except.ok.injEq, Prod.mk.injEq] at hlink
      obtain ⟨-, rfl⟩ := hlink
      exact ⟨fun _ => (howned.entered hdirectory htaken htype hname hnul hslot).durable hslot hchildren,
        fun _ _ => freeSlot_iff.mpr ⟨index, hslot⟩⟩

theorem create_durable {state state' : Vfs.State} {parent : Nat} {entry : Vfs.Entry}
    {type : Vfs.FileType} {node : Vfs.EntryNode} (himage : WellFormed device)
    (hdirectory : Reach device (fromRoot device) directory .directory)
    (hchildren : TypedChildren device directory)
    (hpages : ∃ top below free, Taken device top below free) (hname : name.length < nameMaxSize)
    (hnul : 0 ∉ name) (hfresh : state.entries state.next = none)
    (hentry : state.entries parent = some entry) (hnode : entry.node = some directory)
    (hcall : create state device parent name type = .ok (some node, state', device')) :
    ∃ page, NewPage state' node page ∧
      (FreeSlot device directory → Durable device device' directory page name) ∧
      (Durable device device' directory page name → name ≠ [] → FreeSlot device directory) := by
  obtain ⟨kind, howned⟩ := himage
  obtain ⟨top, below, free, htaken⟩ := hpages
  obtain ⟨createNode, created, made, linked, hmake, hcreated, hlink, hnew⟩ :=
    create_eq_ok hfresh hentry hnode hcall
  have hkind := howned.of_fromRoot hdirectory
  refine ⟨_, hnew, ?_⟩
  cases type with
  | regular =>
      cases hmake
      obtain ⟨rfl, rfl⟩ := Prod.mk.inj (Except.ok.inj
        ((createWith_of_taken htaken (newNodePage .file) newFileData).symm.trans hcreated))
      exact howned.durable_of_link hkind htaken writesNode_file (.inl rfl) hchildren hname hnul hlink
  | directory =>
      cases hmake
      obtain ⟨rfl, rfl⟩ := Prod.mk.inj (Except.ok.inj
        ((createWith_of_taken htaken (newNodePage .directory) newDirectoryIndex).symm.trans hcreated))
      exact howned.durable_of_link hkind htaken writesNode_directory (.inr rfl) hchildren hname hnul
        hlink
  | device => cases hmake
  | pipe => cases hmake
  | socket => cases hmake

end Outcome

/-- The cache after the mount of a filesystem whose root directory is at a page. -/
def rootOnly (page : Nat) : Vfs.State :=
  ⟨Function.update (fun _ => none) Vfs.fsRoot (some ⟨none, [], 2, .directory, some page, []⟩), 1⟩

attribute [local semireducible] Page.word in
/-- A file made in an empty directory is listed. -/
theorem create_durable_in_empty : ∃ node state' device' page,
    create (rootOnly 65) emptyImage Vfs.fsRoot [97] .regular = .ok (some node, state', device') ∧
      NewPage state' node page ∧ Durable emptyImage device' 65 page [97] := by
  have hcall : ∃ node state' device',
      create (rootOnly 65) emptyImage Vfs.fsRoot [97] .regular = .ok (some node, state', device') :=
    ⟨_, _, _, rfl⟩
  obtain ⟨node, state', device', hcall⟩ := hcall
  have htarget : emptyImage.word 65 targetField = 66 := by decide
  have hempty (index : Nat) (hindex : index < directoryIndexChildrenSize) :
      emptyImage.word (emptyImage.word 65 targetField) (childField index) = 0 := by
    rw [htarget]
    exact emptyImage_index (mem_slots_index.mpr (.inr ⟨index, hindex, rfl⟩))
  have hroot : Reach emptyImage (fromRoot emptyImage) 65 .directory :=
    .start ⟨by decide, rfl⟩
  have htyped : TypedChildren emptyImage 65 := fun index hindex hne => absurd (hempty index hindex) hne
  have htaken : Taken emptyImage 67 68 69 :=
    ⟨by decide, by decide, by decide, by decide, by decide, by decide, by decide,
      fun page hlower hupper => by omega, fun page hlower hupper => by omega⟩
  obtain ⟨page, hnew, hdurable, -⟩ := create_durable ⟨emptyKind, emptyImage_owned⟩ hroot htyped
    ⟨_, _, _, htaken⟩ (by decide) (by decide) rfl rfl rfl hcall
  exact ⟨node, state', device', page, hcall, hnew, hdurable ⟨0, by decide, hempty 0 (by decide)⟩⟩

/-! ## A full directory -/

/-- The index page of a directory with 60 files, whose nodes are every second page
from page 67 on. -/
def fullIndex : Page :=
  (List.range directoryIndexChildrenSize).foldl
    (fun page index => page.setWord (childField index) (67 + 2 * index)) (newDirectoryIndex 65)

/-- An image whose root directory has 60 files. -/
def fullImage : Device where
  size := 300
  size_lt := by decide
  pages page :=
    if page = rootAddress then
      ((Page.zero.setInUse true).setWord rootDirectoryField 65).setWord firstFreeField 187
    else if page = 65 then newNodePage .directory 66
    else if page = 66 then fullIndex
    else if 67 ≤ page ∧ page < 187 then
      if page % 2 = 1 then (newNodePage .file (page + 1)).setWord nodeParentField 65
      else newFileData (page - 1)
    else Page.zero

/-- The roles in `fullImage`. -/
def fullKind (page : Nat) : Option Role :=
  if page = 65 then some .directory
  else if page = 66 then some .index
  else if 67 ≤ page ∧ page < 187 then if page % 2 = 1 then some .file else some .data
  else none

/-- Children stored one after the other are read back. -/
theorem foldl_children_child (page : Page) (address : Nat → Nat) {count : Nat}
    (haddress : ∀ index < count, address index < 2 ^ 64) {index : Nat} (hindex : index < count) :
    ((List.range count).foldl (fun page index => page.setWord (childField index) (address index))
      page).word (childField index) = address index := by
  induction count with
  | zero => omega
  | succ count ih =>
      rw [List.range_succ, List.foldl_append, List.foldl_cons, List.foldl_nil]
      by_cases hlast : index = count
      · rw [hlast, Page.word_setWord_same _ (haddress count (Nat.lt_succ_self count))]
      · rw [Page.word_setWord_of_disjoint _ (by unfold childField; omega)]
        exact ih (fun index hlt => haddress index (by omega)) (by omega)

/-- They leave what is in front of the children. -/
theorem foldl_children_bytes (page : Page) (address : Nat → Nat) (count : Nat) {place : Nat}
    (hplace : place < childField 0) :
    ((List.range count).foldl (fun page index => page.setWord (childField index) (address index))
      page).bytes place = page.bytes place := by
  induction count with
  | zero => rfl
  | succ count ih =>
      rw [List.range_succ, List.foldl_append, List.foldl_cons, List.foldl_nil, Page.bytes_setWord]
      · exact ih
      · unfold childField at *
        omega

theorem fullIndex_child (index : Nat) (hindex : index < directoryIndexChildrenSize) :
    fullIndex.word (childField index) = 67 + 2 * index := by
  refine foldl_children_child _ _ (fun index hindex => ?_) hindex
  unfold directoryIndexChildrenSize at hindex
  omega

theorem fullIndex_next : fullIndex.word nextField = 0 := by
  have hsame : fullIndex.word nextField = (newDirectoryIndex 65).word nextField :=
    Page.word_congr fun place _ hupper => foldl_children_bytes _ _ _ hupper
  rw [hsame]
  exact Page.ZeroFrom.word (newDirectoryIndex_zeroFrom 65) (by decide)

theorem fullIndex_inUse : fullIndex.inUse = true := by
  rw [fullIndex, Page.inUse_eq _ _ (foldl_children_bytes _ _ _ (by decide)), newDirectoryIndex_inUse]

theorem fullImage_root : fullImage.rootDirectory = 65 ∧ fullImage.firstFree = 187 ∧
    fullImage.word 65 targetField = 66 := by
  refine ⟨?_, Page.word_setWord_same _ (by decide), newNodePage_target _ (by decide)⟩
  rw [Device.rootDirectory, Device.word]
  change (((Page.zero.setInUse true).setWord rootDirectoryField 65).setWord firstFreeField 187).word
    rootDirectoryField = 65
  rw [Page.word_setWord_of_disjoint _ (.inl (by decide)), Page.word_setWord_same _ (by decide)]

/-- The links of `fullImage`. -/
def FullLink (page slot child : Nat) : Prop :=
  page = 65 ∧ slot = targetField ∧ child = 66 ∨
    ∃ index < directoryIndexChildrenSize,
      page = 66 ∧ slot = childField index ∧ child = 67 + 2 * index ∨
        page = 67 + 2 * index ∧ slot = targetField ∧ child = 68 + 2 * index

theorem fullKind_eq_some {page : Nat} {role : Role} (hpage : fullKind page = some role) :
    page = 65 ∧ role = .directory ∨ page = 66 ∧ role = .index ∨
      ∃ index < directoryIndexChildrenSize, page = 67 + 2 * index ∧ role = .file ∨
        page = 68 + 2 * index ∧ role = .data := by
  have hsize : directoryIndexChildrenSize = 60 := rfl
  unfold fullKind at hpage
  split at hpage
  next hroot => exact .inl ⟨hroot, (Option.some.inj hpage).symm⟩
  next =>
    split at hpage
    next hindex => exact .inr (.inl ⟨hindex, (Option.some.inj hpage).symm⟩)
    next =>
      split at hpage
      next hrange =>
        split at hpage
        next hodd =>
          exact .inr (.inr ⟨(page - 67) / 2, by omega, .inl ⟨by omega, (Option.some.inj hpage).symm⟩⟩)
        next heven =>
          exact .inr (.inr ⟨(page - 68) / 2, by omega, .inr ⟨by omega, (Option.some.inj hpage).symm⟩⟩)
      next => cases hpage

theorem fullKind_file {index : Nat} (hindex : index < directoryIndexChildrenSize) :
    fullKind (67 + 2 * index) = some .file ∧ fullKind (68 + 2 * index) = some .data := by
  have hsize : directoryIndexChildrenSize = 60 := rfl
  unfold fullKind
  constructor
  · rw [if_neg (by omega), if_neg (by omega), if_pos (by omega), if_pos (by omega)]
  · rw [if_neg (by omega), if_neg (by omega), if_pos (by omega), if_neg (by omega)]

theorem fullImage_pages {index : Nat} (hindex : index < directoryIndexChildrenSize) :
    fullImage.pages (67 + 2 * index) =
        (newNodePage .file (68 + 2 * index)).setWord nodeParentField 65 ∧
      fullImage.pages (68 + 2 * index) = newFileData (67 + 2 * index) := by
  have hsize : directoryIndexChildrenSize = 60 := rfl
  have hroot : rootAddress = 64 := rfl
  simp only [fullImage]
  constructor
  · rw [if_neg (by omega), if_neg (by omega), if_neg (by omega), if_pos (by omega),
      if_pos (by omega), show 67 + 2 * index + 1 = 68 + 2 * index by omega]
  · rw [if_neg (by omega), if_neg (by omega), if_neg (by omega), if_pos (by omega),
      if_neg (by omega), show 68 + 2 * index - 1 = 67 + 2 * index by omega]

theorem fullImage_word {index : Nat} (hindex : index < directoryIndexChildrenSize) :
    fullImage.word (67 + 2 * index) targetField = 68 + 2 * index ∧
      fullImage.word (67 + 2 * index) nodeParentField = 65 ∧
      fullImage.word (68 + 2 * index) nextField = 0 := by
  have hsize : directoryIndexChildrenSize = 60 := rfl
  obtain ⟨hnode, hdata⟩ := fullImage_pages hindex
  simp only [Device.word, hnode, hdata]
  refine ⟨?_, Page.word_setWord_same _ (by decide), newFileData_next _⟩
  rw [Page.word_setWord_of_disjoint _ (.inr (by decide)), newNodePage_target _ (by omega)]

theorem fullLink_of_link {page slot child : Nat} (hlink : Link fullImage fullKind page slot child) :
    FullLink page slot child := by
  obtain ⟨role, hkind, hslot, rfl, hne⟩ := hlink
  rcases fullKind_eq_some hkind with ⟨rfl, rfl⟩ | ⟨rfl, rfl⟩ | ⟨index, hindex, ⟨rfl, rfl⟩ | ⟨rfl, rfl⟩⟩
  · obtain rfl := List.mem_singleton.mp hslot
    exact .inl ⟨rfl, rfl, fullImage_root.2.2⟩
  · rcases mem_slots_index.mp hslot with rfl | ⟨index, hindex, rfl⟩
    · exact absurd fullIndex_next hne
    · have hchild : fullImage.word 66 (childField index) = 67 + 2 * index :=
        fullIndex_child index hindex
      exact .inr ⟨index, hindex, .inl ⟨rfl, rfl, hchild⟩⟩
  · obtain rfl := List.mem_singleton.mp hslot
    exact .inr ⟨index, hindex, .inr ⟨rfl, rfl, (fullImage_word hindex).1⟩⟩
  · obtain rfl := List.mem_singleton.mp hslot
    exact absurd (fullImage_word hindex).2.2 hne

theorem fullImage_owned : Owned fullImage [] fullKind := by
  have hsize : directoryIndexChildrenSize = 60 := rfl
  obtain ⟨hroot, hfree, hdirectory⟩ := fullImage_root
  have hnext : fullImage.word 66 nextField = 0 := fullIndex_next
  have hchild (index : Nat) (hindex : index < directoryIndexChildrenSize) :
      fullImage.word 66 (childField index) = 67 + 2 * index := fullIndex_child index hindex
  have hkind {index : Nat} (hindex : index < directoryIndexChildrenSize) := fullKind_file hindex
  constructor
  case root => rw [hroot]; rfl
  case placed =>
    intro page role hpage
    rcases fullKind_eq_some hpage with
      ⟨rfl, -⟩ | ⟨rfl, -⟩ | ⟨index, hindex, ⟨rfl, -⟩ | ⟨rfl, -⟩⟩
    · decide
    · exact ⟨by decide, by decide, fullIndex_inUse⟩
    · refine ⟨show 64 < _ by omega, show _ < 300 by omega, ?_⟩
      rw [(fullImage_pages hindex).1, Page.inUse_setWord _ (by decide), newNodePage_inUse]
    · refine ⟨show 64 < _ by omega, show _ < 300 by omega, ?_⟩
      rw [(fullImage_pages hindex).2, newFileData_inUse]
  case waiting => simp
  case linked =>
    constructor
    case source =>
      rintro page slot child ⟨role, hrole, -⟩
      exact hrole.trans_ne (Option.some_ne_none role)
    case target =>
      intro page slot child hlink
      rcases fullLink_of_link hlink with
        ⟨-, -, rfl⟩ | ⟨index, hindex, ⟨-, -, rfl⟩ | ⟨-, -, rfl⟩⟩
      · exact Option.some_ne_none _
      · exact (hkind hindex).1.trans_ne (Option.some_ne_none _)
      · exact (hkind hindex).2.trans_ne (Option.some_ne_none _)
    case unique =>
      intro page other slot place child hlink hother
      rcases fullLink_of_link hlink with
          ⟨rfl, rfl, rfl⟩ | ⟨index, hindex, ⟨rfl, rfl, rfl⟩ | ⟨rfl, rfl, rfl⟩⟩ <;>
        rcases fullLink_of_link hother with
          ⟨rfl, rfl, hsame⟩ | ⟨index', hindex', ⟨rfl, rfl, hsame⟩ | ⟨rfl, rfl, hsame⟩⟩ <;>
        first
        | omega
        | exact ⟨by omega, by congr 1; omega⟩
    case base_owned =>
      rintro page (rfl | hmem)
      · rw [hroot]
        exact Option.some_ne_none _
      · cases hmem
    case unlinked =>
      intro page slot child hlink
      rintro (rfl | hmem)
      · rw [hroot] at hlink
        rcases fullLink_of_link hlink with
          ⟨-, -, hsame⟩ | ⟨index, hindex, ⟨-, -, hsame⟩ | ⟨-, -, hsame⟩⟩ <;> omega
      · cases hmem
  case leads =>
    intro page slot role hpage hslot hne
    rcases fullKind_eq_some hpage with
      ⟨rfl, rfl⟩ | ⟨rfl, rfl⟩ | ⟨index, hindex, ⟨rfl, rfl⟩ | ⟨rfl, rfl⟩⟩
    · obtain rfl := List.mem_singleton.mp hslot
      rw [hdirectory]
      rfl
    · rcases mem_slots_index.mp hslot with rfl | ⟨index, hindex, rfl⟩
      · exact absurd hnext hne
      · rw [hchild index hindex, (hkind hindex).1, Role.leads_child, nodeRole,
          (fullImage_pages hindex).1, Page.type_setWord _ (by decide), newNodePage_type]
        rfl
    · obtain rfl := List.mem_singleton.mp hslot
      rw [(fullImage_word hindex).1, (hkind hindex).2]
      rfl
    · obtain rfl := List.mem_singleton.mp hslot
      exact absurd (fullImage_word hindex).2.2 hne
  case based =>
    intro page role hpage hnode
    rcases fullKind_eq_some hpage with
      ⟨rfl, rfl⟩ | ⟨rfl, rfl⟩ | ⟨index, hindex, ⟨rfl, rfl⟩ | ⟨rfl, rfl⟩⟩
    · rw [hdirectory]
      decide
    · cases hnode
    · rw [(fullImage_word hindex).1]
      omega
    · cases hnode
  case parent =>
    intro directory page index hdirectoryKind hpage hindex hne
    obtain rfl : directory = 65 := by
      rcases fullKind_eq_some hdirectoryKind with
        ⟨rfl, -⟩ | ⟨-, hrole⟩ | ⟨_, _, ⟨-, hrole⟩ | ⟨-, hrole⟩⟩
      · rfl
      · cases hrole
      · cases hrole
      · cases hrole
    have honly : page = 66 := by
      clear hne
      induction hpage with
      | refl => exact hdirectory
      | tail _ hlink ih =>
          rw [ih, hnext] at hlink
          exact absurd hlink.1.symm hlink.2
    rw [honly, hchild index hindex, (fullImage_word hindex).2.1]
  case free =>
    rw [hfree]
    decide

/-- The children of the full directory are files. -/
theorem fullImage_typed : TypedChildren fullImage 65 := by
  intro index hindex _
  have hsize : directoryIndexChildrenSize = 60 := rfl
  have hroot : fullImage.word 65 targetField = 66 := fullImage_root.2.2
  have hchild : fullImage.word 66 (childField index) = 67 + 2 * index := fullIndex_child index hindex
  have hread : fullImage.read? (67 + 2 * index) =
      some ((newNodePage .file (68 + 2 * index)).setWord nodeParentField 65) :=
    read?_eq_some.mpr ⟨show 67 + 2 * index < 300 by omega, (fullImage_pages hindex).1⟩
  unfold entryType
  simp only [hroot, hchild, hread]
  rw [Page.type_setWord _ (by decide), newNodePage_type]
  decide

/-- The iterator over the full index page, and then over the empty sector 0, only returns
the children. -/
theorem next_of_full {device : Device} (hsize : 0 < device.size) (hsector : device.pages 0 = Page.zero)
    {iterator next : DirectoryIterator} {type : EntryType} {handle : Nat}
    (hpage : iterator.indexPage = fullIndex ∨ iterator.indexPage = Page.zero)
    (hnext : directoryIteratorNext device iterator = (type, some handle, next)) :
    handle < 187 ∧ (next.indexPage = fullIndex ∨ next.indexPage = Page.zero) := by
  have hchildren : directoryIndexChildrenSize = 60 := rfl
  unfold directoryIteratorNext at hnext
  split at hnext
  next hend =>
    have hzero : iterator.indexPage.word nextField = 0 := by
      rcases hpage with hpage | hpage <;> rw [hpage]
      · exact fullIndex_next
      · exact Page.word_zero _
    have hread : device.read? 0 = some Page.zero := read?_eq_some.mpr ⟨hsize, hsector⟩
    simp [hzero, hread, DirectoryIterator.here] at hnext
  next hbefore =>
    unfold DirectoryIterator.here at hnext
    rcases hpage with hpage | hpage <;> rw [hpage] at hnext
    · rw [fullIndex_child _ (by omega)] at hnext
      simp only [Nat.add_eq_zero_iff, OfNat.ofNat_ne_zero, false_and, if_false, Prod.mk.injEq,
        Option.some.injEq] at hnext
      obtain ⟨-, rfl, rfl⟩ := hnext
      exact ⟨by omega, .inl rfl⟩
    · simp at hnext

attribute [local semireducible] Page.word in
/-- A file made in the full directory is not listed and has no name on disc. -/
theorem create_lost_in_full : ∃ node state' device' page,
    WellFormed fullImage ∧ Reach fullImage (fromRoot fullImage) 65 .directory ∧
      TypedChildren fullImage 65 ∧ Taken fullImage 187 188 189 ∧
      create (rootOnly 65) fullImage Vfs.fsRoot [97] .regular = .ok (some node, state', device') ∧
      NewPage state' node page ∧ ¬Listed device' 65 page ∧ (device'.pages page).name = [] := by
  have hcalls : ∃ node state' device',
      create (rootOnly 65) fullImage Vfs.fsRoot [97] .regular = .ok (some node, state', device') ∧
        NewPage state' node 187 ∧ device'.size = 300 ∧ device'.pages 0 = Page.zero ∧
        device'.word 65 targetField = 66 ∧ device'.pages 66 = fullIndex ∧
        device'.pages 187 = newNodePage .file 188 :=
    ⟨_, _, _, rfl, ⟨1, _, rfl, rfl, rfl⟩, rfl, rfl, by decide, rfl, rfl⟩
  obtain ⟨node, state', device', hcall, hnew, hsize, hsector, htarget, hindex, hpage⟩ := hcalls
  refine ⟨node, state', device', 187, ⟨fullKind, fullImage_owned⟩, .start ⟨by decide, rfl⟩, ?_, ?_,
    hcall, hnew, ?_, ?_⟩
  · exact fullImage_typed
  · exact ⟨by decide, by decide, by decide, by decide, by decide, by decide, by decide,
      fun page hlower hupper => by omega, fun page hlower hupper => by omega⟩
  · rintro ⟨iterator, hinit, hyields⟩
    obtain ⟨-, -, -, rfl⟩ := directoryIteratorInit_eq_ok.mp hinit
    rw [htarget, hindex] at hyields
    have hlt (iterator : DirectoryIterator) (handle : Nat)
        (hpage : iterator.indexPage = fullIndex ∨ iterator.indexPage = Page.zero)
        (hyields : Yields device' iterator handle) : handle < 187 := by
      induction hyields with
      | here hnext => exact (next_of_full (by omega) hsector hpage hnext).1
      | later hnext _ _ ih => exact ih (next_of_full (by omega) hsector hpage hnext).2
    exact absurd (hlt _ _ (.inl rfl) hyields) (lt_irrefl 187)
  · rw [hpage, newNodePage_name]

end PKernel.Pkfs
