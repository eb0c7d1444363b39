import PKernel.Pkfs.Ownership

/-! # Making, linking and writing

What a completed call of `create_file`, `create_dir`, `link_node` or `write_file` has
done to the device, and that an image in order stays in order.
-/

namespace PKernel.Pkfs

open Operation

variable {device device' : Device}

/-! ## New nodes -/

/-- The pages that `create_file` and `create_dir` take, and the one they leave free. -/
structure Taken (device : Device) (top below free : Nat) : Prop where
  size : rootAddress < device.size
  first : top = device.firstFree
  top_lt : top < below
  below_lt : below < free
  free_lt : free < device.size
  below_free : (device.pages below).inUse = false
  free_free : (device.pages free).inUse = false
  used_below : ∀ page, top < page → page < below → (device.pages page).inUse = true
  used_free : ∀ page, below < page → page < free → (device.pages page).inUse = true

/-- The device after a completed `create_file` or `create_dir`. -/
def created (device : Device) (nodePage bodyPage : Nat → Page) (top below free : Nat) : Device :=
  ((device.set top (nodePage below)).set below (bodyPage top)).set rootAddress
    ((device.pages rootAddress).setWord firstFreeField free)

theorem createWith_eq_ok {nodePage bodyPage : Nat → Page} {top : Nat}
    (hcall : createWith nodePage bodyPage device = .ok (some top, device')) :
    ∃ below free, Taken device top below free ∧
      device' = created device nodePage bodyPage top below free := by
  simp only [createWith, Operation.bind_eq_ok, discRead_eq_ok, discWrite_eq_ok, pure_apply,
    Except.ok.injEq, Prod.mk.injEq, Option.some.injEq] at hcall
  obtain ⟨root, _, ⟨hsize, rfl, rfl⟩, below, _, hbelow, _, _, ⟨htop, rfl⟩, _, _, ⟨_, rfl⟩,
    free, _, hfree, _, _, ⟨_, rfl⟩, hfirst, rfl⟩ := hcall
  rw [hfirst] at htop hbelow hfree
  obtain rfl := nextFree_device hbelow
  obtain rfl := nextFree_device hfree
  obtain ⟨-, hbelowLower, hbelowUpper, hbelowFree, hbelowUsed⟩ := (nextFree_eq_ok htop).mp hbelow
  have hbelowUpper' : below < ((device.set top (nodePage below)).set below (bodyPage top)).size :=
    hbelowUpper
  obtain ⟨-, hfreeLower, hfreeUpper, hfreeFree, hfreeUsed⟩ := (nextFree_eq_ok hbelowUpper').mp hfree
  have hold {page : Nat} (hpage : below < page) :
      ((device.set top (nodePage below)).set below (bodyPage top)).pages page =
        device.pages page := by
    rw [Device.set_pages_of_ne _ _ (by omega), Device.set_pages_of_ne _ _ (by omega)]
  rw [hold hfreeLower] at hfreeFree
  refine ⟨below, free, ⟨hsize, hfirst.symm, hbelowLower, hfreeLower, hfreeUpper, hbelowFree,
    hfreeFree, hbelowUsed, fun page hlower hupper => ?_⟩, rfl⟩
  rw [← hold hlower]
  exact hfreeUsed page hlower hupper

/-- With enough free pages the call completes. -/
theorem createWith_of_taken {top below free : Nat} (htaken : Taken device top below free)
    (nodePage bodyPage : Nat → Page) :
    createWith nodePage bodyPage device =
      .ok (some top, created device nodePage bodyPage top below free) := by
  have htopLt := htaken.top_lt
  have hbelowLt := htaken.below_lt
  have hfreeLt := htaken.free_lt
  have hbelow : nextFree top device = .ok (some below, device) :=
    (nextFree_eq_ok (by omega)).mpr
      ⟨rfl, htopLt, by omega, htaken.below_free, htaken.used_below⟩
  have hold {page : Nat} (hpage : below < page) :
      ((device.set top (nodePage below)).set below (bodyPage top)).pages page =
        device.pages page := by
    rw [Device.set_pages_of_ne _ _ (by omega), Device.set_pages_of_ne _ _ (by omega)]
  have hupper : below < ((device.set top (nodePage below)).set below (bodyPage top)).size := by
    rw [Device.set_size, Device.set_size]
    omega
  have hfree : nextFree below ((device.set top (nodePage below)).set below (bodyPage top)) =
      .ok (some free, (device.set top (nodePage below)).set below (bodyPage top)) := by
    refine (nextFree_eq_ok hupper).mpr ⟨rfl, hbelowLt, hfreeLt, ?_, fun page hlower hlt => ?_⟩
    · rw [hold hbelowLt, htaken.free_free]
    · rw [hold hlower]
      exact htaken.used_free page hlower hlt
  have hfirst : (device.pages rootAddress).word firstFreeField = top := htaken.first.symm
  have hbelowSize : below < (device.set top (nodePage below)).size := by
    rw [Device.set_size]
    omega
  have hrootSize : rootAddress < ((device.set top (nodePage below)).set below (bodyPage top)).size :=
    htaken.size
  rw [createWith, Operation.bind_of_some (discRead_of_lt htaken.size)]
  simp only [hfirst]
  rw [Operation.bind_of_some hbelow, Operation.bind_of_some (discWrite_of_lt (by omega) _),
    Operation.bind_of_some (discWrite_of_lt hbelowSize _), Operation.bind_of_some hfree,
    Operation.bind_of_some (discWrite_of_lt hrootSize _)]
  rfl

/-- Setting `first_free` in the root page. -/
def Device.setFirstFree (device : Device) (free : Nat) : Device :=
  device.set rootAddress ((device.pages rootAddress).setWord firstFreeField free)

@[simp]
theorem Device.setFirstFree_rootDirectory (device : Device) (free : Nat) :
    (device.setFirstFree free).rootDirectory = device.rootDirectory := by
  rw [Device.rootDirectory, Device.word, Device.setFirstFree, Device.set_pages_self,
    Page.word_setWord_of_disjoint _ (.inl (by decide))]
  rfl

theorem Device.setFirstFree_firstFree (device : Device) {free : Nat} (hfree : free < 2 ^ 64) :
    (device.setFirstFree free).firstFree = free := by
  rw [Device.firstFree, Device.word, Device.setFirstFree, Device.set_pages_self,
    Page.word_setWord_same _ hfree]

/-- A write behind the root page leaves the root page alone. -/
theorem Device.set_rootDirectory (device : Device) {address : Nat} (page : Page)
    (haddress : address ≠ rootAddress) :
    (device.set address page).rootDirectory = device.rootDirectory := by
  rw [Device.rootDirectory, Device.word, Device.set_pages_of_ne _ _ haddress.symm]
  rfl

theorem Device.set_firstFree (device : Device) {address : Nat} (page : Page)
    (haddress : address ≠ rootAddress) :
    (device.set address page).firstFree = device.firstFree := by
  rw [Device.firstFree, Device.word, Device.set_pages_of_ne _ _ haddress.symm]
  rfl

section Created

variable {nodePage bodyPage : Nat → Page} {top below free : Nat}

theorem created_eq (htop : top ≠ rootAddress) (hbelow : below ≠ rootAddress) :
    created device nodePage bodyPage top below free =
      ((device.set top (nodePage below)).set below (bodyPage top)).setFirstFree free := by
  rw [created, Device.setFirstFree, Device.set_pages_of_ne _ _ hbelow.symm,
    Device.set_pages_of_ne _ _ htop.symm]

theorem created_pages_of_ne {page : Nat} (hroot : page ≠ rootAddress) (htop : page ≠ top)
    (hbelow : page ≠ below) :
    (created device nodePage bodyPage top below free).pages page = device.pages page := by
  rw [created, Device.set_pages_of_ne _ _ hroot, Device.set_pages_of_ne _ _ hbelow,
    Device.set_pages_of_ne _ _ htop]

theorem created_pages_top (hroot : top ≠ rootAddress) (hne : top ≠ below) :
    (created device nodePage bodyPage top below free).pages top = nodePage below := by
  rw [created, Device.set_pages_of_ne _ _ hroot, Device.set_pages_of_ne _ _ hne,
    Device.set_pages_self]

theorem created_pages_below (hroot : below ≠ rootAddress) :
    (created device nodePage bodyPage top below free).pages below = bodyPage top := by
  rw [created, Device.set_pages_of_ne _ _ hroot, Device.set_pages_self]

end Created

/-- The pages written for a new node of a role. -/
structure WritesNode (role : Role) (nodePage bodyPage : Nat → Page) : Prop where
  node : role.isNode = true
  nodeUse : ∀ below, (nodePage below).inUse = true
  bodyUse : ∀ top, (bodyPage top).inUse = true
  type : ∀ below, nodeRole (nodePage below) = role
  target : ∀ below < 2 ^ 64, (nodePage below).word targetField = below
  empty : ∀ top, ∀ slot ∈ role.body.slots, (bodyPage top).word slot = 0

theorem writesNode_file : WritesNode .file (newNodePage .file) newFileData where
  node := rfl
  nodeUse below := newNodePage_inUse .file below
  bodyUse top := newFileData_inUse top
  type below := by
    rw [nodeRole, newNodePage_type]
    decide
  target below hbelow := newNodePage_target .file hbelow
  empty top slot hslot := by
    obtain rfl := List.mem_singleton.mp hslot
    exact newFileData_next top

theorem writesNode_directory : WritesNode .directory (newNodePage .directory) newDirectoryIndex where
  node := rfl
  nodeUse below := newNodePage_inUse .directory below
  bodyUse top := newDirectoryIndex_inUse top
  type below := by
    rw [nodeRole, newNodePage_type, if_pos rfl]
  target below hbelow := newNodePage_target .directory hbelow
  empty top slot hslot := by
    refine (newDirectoryIndex_zeroFrom top).word ?_
    rcases mem_slots_index.mp hslot with rfl | ⟨index, -, rfl⟩
    · decide
    · unfold prevField childField
      omega

namespace Owned

variable {pending : List (Nat × Role)} {kind : Nat → Option Role}

/-- A page that is not in use has no role. -/
theorem kind_eq_none (howned : Owned device pending kind) {page : Nat}
    (hfree : (device.pages page).inUse = false) : kind page = none := by
  by_contra hkind
  obtain ⟨role, hrole⟩ := Option.ne_none_iff_exists'.mp hkind
  have hused := (howned.placed hrole).2.2
  rw [hfree] at hused
  cases hused

/-- The pages that a new node takes have no roles before. -/
theorem taken (howned : Owned device pending kind) {top below free : Nat}
    (htaken : Taken device top below free) :
    rootAddress < top ∧ kind top = none ∧ kind below = none ∧ kind free = none :=
  ⟨htaken.first ▸ howned.free.2, htaken.first ▸ howned.free.1,
    howned.kind_eq_none htaken.below_free, howned.kind_eq_none htaken.free_free⟩

theorem created (howned : Owned device pending kind) {top below free : Nat}
    (htaken : Taken device top below free) {role : Role} {nodePage bodyPage : Nat → Page}
    (hwrites : WritesNode role nodePage bodyPage) :
    Owned (created device nodePage bodyPage top below free) ((top, role) :: pending)
      (withNode kind top below role) := by
  obtain ⟨hroot, htopKind, hbelowKind, hfreeKind⟩ := howned.taken htaken
  have htopLt := htaken.top_lt
  have hbelowLt := htaken.below_lt
  have hfreeLt := htaken.free_lt
  have hsizeLt := device.size_lt
  have hpagesTop : (Pkfs.created device nodePage bodyPage top below free).pages top =
      nodePage below := created_pages_top (by omega) (by omega)
  have hpagesBelow : (Pkfs.created device nodePage bodyPage top below free).pages below =
      bodyPage top := created_pages_below (by omega)
  have hfirst : (Pkfs.created device nodePage bodyPage top below free).firstFree = free := by
    rw [created_eq (by omega) (by omega), Device.setFirstFree_firstFree _ (by omega)]
  have hkept : Owned (Pkfs.created device nodePage bodyPage top below free) pending kind := by
    refine howned.congr rfl ?_ ?_ ?_
    · rw [created_eq (by omega) (by omega), Device.setFirstFree_rootDirectory,
        Device.set_rootDirectory _ _ (by omega), Device.set_rootDirectory _ _ (by omega)]
    · intro page other hpage
      have hlower := (howned.placed hpage).1
      rw [created_pages_of_ne (by omega) (by rintro rfl; simp [htopKind] at hpage)
        (by rintro rfl; simp [hbelowKind] at hpage)]
      exact .refl other _
    · rw [hfirst]
      exact ⟨hfreeKind, by omega⟩
  refine hkept.adopt ?_ htopKind hbelowKind ⟨by omega, by omega⟩
  exact {
    node := hwrites.node
    ne := by omega
    placed := by
      rintro page (rfl | rfl)
      · rw [hpagesTop]
        exact ⟨hroot, show page < device.size by omega, hwrites.nodeUse below⟩
      · rw [hpagesBelow]
        exact ⟨by omega, show page < device.size by omega, hwrites.bodyUse top⟩
    type := by rw [hpagesTop, hwrites.type]
    target := by rw [Device.word, hpagesTop, hwrites.target below (by omega)]
    empty := fun slot hslot => by rw [Device.word, hpagesBelow, hwrites.empty top slot hslot] }

end Owned

/-! ## Links -/

/-- The device after a `link_node` that found a free slot. -/
def linkedTo (device : Device) (directory node : Nat) (name : List UInt8) (index : Nat) : Device :=
  let page := device.word directory targetField
  (device.set node (namedPage (device.pages node) name directory)).set page
    ((device.pages page).setWord (childField index) node)

theorem linkNode_eq_ok {directory node : Nat} {name : List UInt8} {result : Bool}
    (hcall : linkNode directory node name device = .ok (some result, device')) :
    directory < device.size ∧
      ((result = false ∧ freeSlot? (device.pages (device.word directory targetField)) = none ∧
          device' = device) ∨
        result = true ∧ ∃ index,
          freeSlot? (device.pages (device.word directory targetField)) = some index ∧
            node < device.size ∧ device' = linkedTo device directory node name index) := by
  simp only [linkNode, Operation.bind_eq_ok, discRead_eq_ok] at hcall
  obtain ⟨nodePage, _, ⟨hdirectory, rfl, rfl⟩, indexPage, _, ⟨-, rfl, rfl⟩, hcall⟩ := hcall
  refine ⟨hdirectory, ?_⟩
  have htarget : (device.pages directory).word targetField = device.word directory targetField := rfl
  rw [htarget] at hcall
  cases hslot : freeSlot? (device.pages (device.word directory targetField)) with
  | none =>
      simp only [hslot, pure_apply, Except.ok.injEq, Prod.mk.injEq, Option.some.injEq] at hcall
      exact .inl ⟨hcall.1.symm, rfl, hcall.2.symm⟩
  | some index =>
      simp only [hslot, Operation.bind_eq_ok, discRead_eq_ok] at hcall
      obtain ⟨filePage, _, ⟨hnode, rfl, rfl⟩, hcall⟩ := hcall
      by_cases hlong : 512 < 2 + name.length + 1
      · simp [hlong, Operation.bind_eq_ok] at hcall
      · simp only [hlong, if_false, Operation.bind_eq_ok, discWrite_eq_ok, pure_apply,
          Except.ok.injEq, Prod.mk.injEq, Option.some.injEq] at hcall
        obtain ⟨_, _, ⟨-, rfl⟩, _, _, ⟨-, rfl⟩, rfl, rfl⟩ := hcall
        exact .inr ⟨rfl, index, rfl, hnode, rfl⟩

/-- A link of pages that the device has, under a name that fits in the page, completes. -/
theorem linkNode_of_fits {directory node : Nat} {name : List UInt8}
    (hdirectory : directory < device.size)
    (hindex : device.word directory targetField < device.size) (hnode : node < device.size)
    (hname : 2 + name.length + 1 ≤ 512) :
    linkNode directory node name device =
      match freeSlot? (device.pages (device.word directory targetField)) with
      | none => .ok (some false, device)
      | some index => .ok (some true, linkedTo device directory node name index) := by
  have htarget : (device.pages directory).word targetField = device.word directory targetField := rfl
  rw [linkNode, Operation.bind_of_some (discRead_of_lt hdirectory)]
  simp only [htarget]
  rw [Operation.bind_of_some (discRead_of_lt hindex)]
  cases hslot : freeSlot? (device.pages (device.word directory targetField)) with
  | none => rfl
  | some index =>
      have hindexSize : device.word directory targetField <
          (device.set node (namedPage (device.pages node) name directory)).size := hindex
      simp only
      rw [Operation.bind_of_some (discRead_of_lt hnode), if_neg (Nat.not_lt.mpr hname),
        Operation.bind_of_some (discWrite_of_lt hnode _),
        Operation.bind_of_some (discWrite_of_lt hindexSize _)]
      rfl

/-- A name that does not fit in the page goes behind its end. -/
theorem linkNode_long {directory node index : Nat} {name : List UInt8}
    (hdirectory : directory < device.size)
    (hindex : device.word directory targetField < device.size) (hnode : node < device.size)
    (hslot : freeSlot? (device.pages (device.word directory targetField)) = some index)
    (hname : 512 < 2 + name.length + 1) :
    linkNode directory node name device = .error .overrun := by
  have htarget : (device.pages directory).word targetField = device.word directory targetField := rfl
  rw [linkNode, Operation.bind_of_some (discRead_of_lt hdirectory)]
  simp only [htarget]
  rw [Operation.bind_of_some (discRead_of_lt hindex)]
  simp only [hslot]
  rw [Operation.bind_of_some (discRead_of_lt hnode), if_pos hname]
  simp only [bind, stop_apply]

section Linked

variable {directory node index : Nat} {name : List UInt8}

theorem linkedTo_pages_node (hne : node ≠ device.word directory targetField) :
    (linkedTo device directory node name index).pages node =
      namedPage (device.pages node) name directory := by
  rw [linkedTo, Device.set_pages_of_ne _ _ hne, Device.set_pages_self]

theorem linkedTo_pages_index :
    (linkedTo device directory node name index).pages (device.word directory targetField) =
      (device.pages (device.word directory targetField)).setWord (childField index) node := by
  rw [linkedTo, Device.set_pages_self]

theorem linkedTo_pages_of_ne {page : Nat} (hindex : page ≠ device.word directory targetField)
    (hnode : page ≠ node) :
    (linkedTo device directory node name index).pages page = device.pages page := by
  rw [linkedTo, Device.set_pages_of_ne _ _ hindex, Device.set_pages_of_ne _ _ hnode]

end Linked

namespace Owned

variable {pending : List (Nat × Role)} {kind : Nat → Option Role}

/-- The first index page of a directory. -/
theorem kind_target (howned : Owned device pending kind) {directory : Nat}
    (hdirectory : kind directory = some .directory) :
    kind (device.word directory targetField) = some .index :=
  howned.of_indexChain hdirectory .refl

theorem linkedNode (howned : Owned device pending kind) {directory node index : Nat}
    {name : List UInt8} {role : Role} (hdirectory : kind directory = some .directory)
    (hnode : kind node = some role) (hisNode : role.isNode = true)
    (hslot : freeSlot? (device.pages (device.word directory targetField)) = some index)
    (hname : name.length < targetField - 2) :
    LinkedNode device (linkedTo device directory node name index) kind directory
      (device.word directory targetField) index node := by
  obtain ⟨hindex, hfree, -⟩ := freeSlot?_eq_some.mp hslot
  have htargetKind := howned.kind_target hdirectory
  obtain ⟨hpageLower, hpageUpper, -⟩ := howned.placed htargetKind
  obtain ⟨hnodeLower, hnodeUpper, -⟩ := howned.placed hnode
  have hdirectoryUpper := (howned.placed hdirectory).2.1
  have hsize := device.size_lt
  have hne : node ≠ device.word directory targetField := by
    intro hsame
    rw [← hsame, hnode, Option.some.injEq] at htargetKind
    exact absurd hisNode (by simp [htargetKind, Role.isNode])
  have hpagesRoot : (linkedTo device directory node name index).pages rootAddress =
      device.pages rootAddress := linkedTo_pages_of_ne (by omega) (by omega)
  generalize hpage : device.word directory targetField = page at *
  have hpagesIndex : (linkedTo device directory node name index).pages page =
      (device.pages page).setWord (childField index) node := by
    rw [← hpage, linkedTo_pages_index]
  have hpagesNode : (linkedTo device directory node name index).pages node =
      namedPage (device.pages node) name directory := linkedTo_pages_node (hpage ▸ hne)
  exact {
    size := rfl
    root := by rw [Device.rootDirectory, Device.word, hpagesRoot]; rfl
    first := by rw [Device.firstFree, Device.word, hpagesRoot]; rfl
    slot := hfree
    child := by rw [Device.word, hpagesIndex, Page.word_setWord_same _ (by omega)]
    children := fun other _ hother => by
      rw [Device.word, hpagesIndex, word_childField_setWord_of_ne _ hother]
      rfl
    next := by
      rw [Device.word, hpagesIndex, Page.word_setWord_of_disjoint _ (.inl (by unfold childField nextField; omega))]
      rfl
    pageUse := by rw [hpagesIndex, Page.inUse_setWord _ (by unfold childField; omega)]
    nodeUse := by rw [hpagesNode, namedPage_inUse]
    nodeType := by rw [hpagesNode, nodeRole, namedPage_type]; rfl
    target := by rw [Device.word, hpagesNode, namedPage_target _ _ hname]; rfl
    parent := by rw [Device.word, hpagesNode, namedPage_parent _ _ (by omega)]
    others := fun other hother hother' _ => linkedTo_pages_of_ne (hpage ▸ hother) hother' }

/-- A completed `link_node` of a node that waits for it. -/
theorem link (howned : Owned device pending kind) {directory node : Nat} {name : List UInt8}
    {result : Bool} (hdirectory : kind directory = some .directory)
    (hnode : node ∈ pending.map Prod.fst) (hname : name.length < targetField - 2)
    (hcall : linkNode directory node name device = .ok (some result, device')) :
    Owned device' (if result then pending.filter fun entry => entry.1 ≠ node else pending) kind := by
  obtain ⟨-, ⟨rfl, -, rfl⟩ | ⟨rfl, index, hslot, -, rfl⟩⟩ := linkNode_eq_ok hcall
  · exact howned
  · obtain ⟨⟨_, role⟩, hmem, rfl⟩ := List.mem_map.mp hnode
    obtain ⟨hkind, hisNode, -⟩ := howned.waiting hmem
    exact howned.attach (howned.linkedNode hdirectory hkind hisNode hslot hname) hdirectory .refl
      (freeSlot?_eq_some.mp hslot).1 hnode

end Owned

/-! ## Writing at the front of a file -/

theorem writeLoop_eq_ok {buffer : List UInt8} {offset fuel dataAddr : Nat} {result : Unit}
    (hoffset : offset < fileDataPageSize)
    (hcall : writeLoop buffer offset fuel dataAddr device = .ok (some result, device')) :
    dataAddr < device.size ∧
      device' = device.set dataAddr (appended (device.pages dataAddr) buffer) := by
  cases fuel with
  | zero => simp [writeLoop] at hcall
  | succ fuel =>
      simp only [writeLoop, Operation.bind_eq_ok, discRead_eq_ok, hoffset, if_true] at hcall
      obtain ⟨fileData, _, ⟨hread, rfl, rfl⟩, hcall⟩ := hcall
      split at hcall
      next hover => simp at hcall
      next hover => exact discWrite_eq_ok.mp hcall

theorem writeFile_eq_ok {fuel file offset wrote : Nat} {buffer : List UInt8}
    (hoffset : offset < fileDataPageSize)
    (hcall : writeFile fuel file buffer offset device = .ok (some wrote, device')) :
    wrote = buffer.length ∧ file < device.size ∧ device.word file targetField < device.size ∧
      device' = device.set (device.word file targetField)
        (appended (device.pages (device.word file targetField)) buffer) := by
  simp only [writeFile, Operation.bind_eq_ok, discRead_eq_ok, pure_apply, Except.ok.injEq,
    Prod.mk.injEq, Option.some.injEq] at hcall
  obtain ⟨fileNode, _, ⟨hfile, rfl, rfl⟩, _, _, hloop, rfl, rfl⟩ := hcall
  obtain ⟨hdata, rfl⟩ := writeLoop_eq_ok hoffset hloop
  exact ⟨rfl, hfile, hdata, rfl⟩

theorem appended_inUse (fileData : Page) (buffer : List UInt8) :
    (appended fileData buffer).inUse = fileData.inUse := by
  rw [appended, Page.inUse_setSize, Page.inUse_copy _ _ (by omega)]

theorem appended_next (fileData : Page) (buffer : List UInt8) :
    (appended fileData buffer).word nextField = fileData.word nextField := by
  rw [appended, Page.word_setSize _ _ (by decide), Page.word_copy _ (.inl (by unfold nextField; omega))]

/-- A completed `write_file` at an offset in the first page. -/
theorem Owned.write {pending : List (Nat × Role)} {kind : Nat → Option Role}
    (howned : Owned device pending kind) {fuel file offset wrote : Nat} {buffer : List UInt8}
    (hfile : kind file = some .file) (hoffset : offset < fileDataPageSize)
    (hcall : writeFile fuel file buffer offset device = .ok (some wrote, device')) :
    Owned device' pending kind := by
  obtain ⟨-, -, -, rfl⟩ := writeFile_eq_ok hoffset hcall
  have hdata : kind (device.word file targetField) = some .data :=
    howned.leads hfile (by simp [Role.slots]) (howned.based hfile rfl)
  have hroot := (howned.placed hdata).1
  refine howned.congr rfl (Device.set_rootDirectory _ _ (by omega)) ?_ ?_
  · intro page role hpage
    by_cases hsame : page = device.word file targetField
    · subst hsame
      rw [hdata] at hpage
      cases hpage
      rw [Device.set_pages_self]
      exact {
        inUse := appended_inUse _ _
        slots := fun slot hslot => by
          obtain rfl := List.mem_singleton.mp hslot
          exact appended_next _ _
        node := fun hnode => absurd hnode (by decide)
        parent := fun hnode => absurd hnode (by decide) }
    · rw [Device.set_pages_of_ne _ _ hsame]
      exact .refl role _
  · rw [Device.set_firstFree _ _ (by omega)]
    exact howned.free

end PKernel.Pkfs
