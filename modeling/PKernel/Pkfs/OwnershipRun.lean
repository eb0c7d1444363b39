import PKernel.Library.Transition
import PKernel.Pkfs.Deletion

/-! # Runs on an image

A run makes nodes, links them, writes to files and deletes linked files. Starting from
an image in order, every page that the root directory leads to stays in use, in one
role and with one parent link, and `first_free` stays apart from these pages. Without
deletions `first_free` also stays the lowest free page.
-/

namespace PKernel.Pkfs

open Library.Transition

/-- An image and the nodes that were made and are not linked. -/
structure World where
  device : Device
  pending : List (Nat × Role)

/-- The root directory. -/
def fromRoot (device : Device) (page : Nat) (role : Role) : Prop :=
  page = device.rootDirectory ∧ role = .directory

/-- The root directory and the nodes that are not linked. -/
def World.start (world : World) (page : Nat) (role : Role) : Prop :=
  fromRoot world.device page role ∨ (page, role) ∈ world.pending

inductive Op where
  | createFile
  | createDir
  | link (directory node : Nat) (name : List UInt8)
  | write (file : Nat) (buffer : List UInt8) (offset : Nat)
  | delete (file : Nat)
deriving Repr

/-- Links are of nodes just made into directories, writes start in the first page of a
file, and only linked files are deleted. -/
def Op.Permitted (world : World) : Op → Prop
  | createFile => True
  | createDir => True
  | link directory node _ =>
      Reach world.device world.start directory .directory ∧ node ∈ world.pending.map Prod.fst
  | write file _ offset =>
      Reach world.device world.start file .file ∧ offset < fileDataPageSize
  | delete file =>
      Reach world.device world.start file .file ∧ file ∉ world.pending.map Prod.fst

/-- The calls that return without a failed transfer. -/
inductive Op.Completes : World → Op → World → Prop
  | createFile {world : World} {node : Nat} {device : Device}
      (hcall : Pkfs.createFile world.device = .ok (some node, device)) :
      Completes world .createFile ⟨device, (node, .file) :: world.pending⟩
  | createDir {world : World} {node : Nat} {device : Device}
      (hcall : Pkfs.createDir world.device = .ok (some node, device)) :
      Completes world .createDir ⟨device, (node, .directory) :: world.pending⟩
  | link {world : World} {directory node : Nat} {name : List UInt8} {linked : Bool}
      {device : Device} (hcall : linkNode directory node name world.device = .ok (some linked, device)) :
      Completes world (.link directory node name)
        ⟨device, if linked then world.pending.filter fun entry => entry.1 ≠ node else world.pending⟩
  | write {world : World} {fuel file offset wrote : Nat} {buffer : List UInt8} {device : Device}
      (hcall : writeFile fuel file buffer offset world.device = .ok (some wrote, device)) :
      Completes world (.write file buffer offset) ⟨device, world.pending⟩
  | delete {world : World} {fuel file : Nat} {result : Bool} {device : Device}
      (hcall : deleteFile fuel rootAddress file world.device = .ok (some result, device)) :
      Completes world (.delete file) ⟨device, world.pending⟩

/-- A `link_node` that returns `true`. -/
theorem Op.Completes.linked {world : World} {directory node : Nat} {name : List UInt8}
    {device : Device} {rest : List (Nat × Role)}
    (hcall : linkNode directory node name world.device = .ok (some true, device))
    (hrest : world.pending.filter (fun entry => entry.1 ≠ node) = rest) :
    Op.Completes world (.link directory node name) ⟨device, rest⟩ := by
  have hcompletes := Op.Completes.link hcall
  rwa [if_pos rfl, hrest] at hcompletes

/-- The system whose first state is an image of some kind with no node waiting. -/
def pkfs (image : Device → Prop) : System World Op where
  init world := image world.device ∧ world.pending = []
  step world op next := op.Permitted world ∧ op.Completes world next

/-- The steps that link no name of a length or longer. -/
def Op.NamesBelow (bound : Nat) : Op → Prop
  | link _ _ name => name.length < bound
  | _ => True

/-- An image whose pages can be given roles. -/
def WellFormed (device : Device) : Prop := ∃ kind, Owned device [] kind

/-- A slot of a page that the root directory leads to. -/
def ParentLink (device : Device) (page : Nat) (parent : Nat × Nat) : Prop :=
  ∃ role, Reach device (fromRoot device) parent.1 role ∧ parent.2 ∈ role.slots ∧
    device.word parent.1 parent.2 = page

/-- No page that the root directory leads to is shared or free. -/
structure Exclusive (device : Device) : Prop where
  inUse : ∀ {page role}, Reach device (fromRoot device) page role →
    (device.pages page).inUse = true
  role : ∀ {page role other}, Reach device (fromRoot device) page role →
    Reach device (fromRoot device) page other → role = other
  parent : ∀ {page role}, Reach device (fromRoot device) page role →
    page ≠ device.rootDirectory → ∃! parent, ParentLink device page parent
  root : ∀ parent, ¬ParentLink device device.rootDirectory parent
  free : ∀ {role}, ¬Reach device (fromRoot device) device.firstFree role

namespace Owned

variable {world next : World} {device : Device} {pending : List (Nat × Role)}
  {kind : Nat → Option Role}

theorem of_fromRoot (howned : Owned device pending kind) {page : Nat} {role : Role}
    (hreach : Reach device (fromRoot device) page role) : kind page = some role := by
  refine howned.of_reach ?_ hreach
  rintro page role ⟨rfl, rfl⟩
  exact howned.root

theorem of_start (howned : Owned world.device world.pending kind) {page : Nat} {role : Role}
    (hreach : Reach world.device world.start page role) : kind page = some role := by
  refine howned.of_reach ?_ hreach
  rintro page role (⟨rfl, rfl⟩ | hwaiting)
  · exact howned.root
  · exact (howned.waiting hwaiting).1

end Owned

theorem Reach.mono {device : Device} {start start' : Nat → Role → Prop} {page : Nat} {role : Role}
    (hreach : Reach device start page role) (hstart : ∀ page role, start page role → start' page role) :
    Reach device start' page role := by
  induction hreach with
  | start h => exact .start (hstart _ _ h)
  | link _ hslot hlink ih => exact ih.link hslot hlink

/-- What is reached is a start, or a slot of something reached leads to it. -/
theorem Reach.inv {device : Device} {start : Nat → Role → Prop} {page : Nat} {role : Role}
    (hreach : Reach device start page role) :
    start page role ∨ ∃ before slot beforeRole, Reach device start before beforeRole ∧
      slot ∈ beforeRole.slots ∧ device.word before slot = page ∧ page ≠ 0 ∧
        beforeRole.leads slot (device.pages page) = role := by
  cases hreach with
  | start hstart => exact .inl hstart
  | link hbefore hslot hne => exact .inr ⟨_, _, _, hbefore, hslot, rfl, hne, rfl⟩

namespace Owned

variable {world next : World} {device : Device} {pending : List (Nat × Role)}
  {kind : Nat → Option Role}

/-- An index page that is reached from nodes belongs to a directory that is reached. -/
theorem directory_of_index (howned : Owned world.device world.pending kind) {page : Nat}
    {role : Role} (hreach : Reach world.device world.start page role) (hrole : role = .index) :
    ∃ directory, kind directory = some .directory ∧ IndexChain world.device directory page := by
  induction hreach with
  | start hstart =>
      rcases hstart with ⟨-, rfl⟩ | hwaiting
      · cases hrole
      · exact absurd (howned.waiting hwaiting).2.1 (by simp [hrole, Role.isNode])
  | @link before slot beforeRole hbefore hslot hne ih =>
      have hbeforeKind := howned.of_start hbefore
      cases beforeRole with
      | directory =>
          obtain rfl := List.mem_singleton.mp hslot
          exact ⟨before, hbeforeKind, .refl⟩
      | index =>
          obtain ⟨directory, hdirectory, hchain⟩ := ih rfl
          rcases mem_slots_index.mp hslot with rfl | ⟨index, -, rfl⟩
          · exact ⟨directory, hdirectory, hchain.tail ⟨rfl, hne⟩⟩
          · rw [Role.leads_child] at hrole
            have hnode := nodeRole_isNode (world.device.pages (world.device.word before (childField index)))
            rw [hrole] at hnode
            cases hnode
      | file => simp [Role.body] at hrole
      | data => simp [Role.body] at hrole

/-- A file that is linked is a child in an index page of a directory. -/
theorem directory_of_file (howned : Owned world.device world.pending kind) {file : Nat}
    (hreach : Reach world.device world.start file .file)
    (hwaiting : file ∉ world.pending.map Prod.fst) :
    ∃ directory page index, kind directory = some .directory ∧
      IndexChain world.device directory page ∧ index < directoryIndexChildrenSize ∧
        world.device.word page (childField index) = file := by
  rcases hreach.inv with (⟨-, hrole⟩ | hmem) | ⟨page, slot, role, hpage, hslot, hword, -, hleads⟩
  · cases hrole
  · exact absurd (List.mem_map.mpr ⟨_, hmem, rfl⟩) hwaiting
  · cases role with
    | directory => simp [Role.body] at hleads
    | index =>
        obtain ⟨directory, hdirectory, hchain⟩ := howned.directory_of_index hpage rfl
        rcases mem_slots_index.mp hslot with rfl | ⟨index, hindex, rfl⟩
        · simp [Role.body] at hleads
        · exact ⟨directory, page, index, hdirectory, hchain, hindex, hword⟩
    | file => simp [Role.body] at hleads
    | data => simp [Role.body] at hleads

/-- A step that links no name into the address behind it keeps the image in order. -/
theorem step (howned : Owned world.device world.pending kind) {op : Op}
    (hpermitted : op.Permitted world) (hnames : op.NamesBelow (targetField - 2))
    (hcompletes : op.Completes world next) : ∃ kind, Owned next.device next.pending kind := by
  cases hcompletes with
  | createFile hcall =>
      obtain ⟨below, free, htaken, rfl⟩ := createWith_eq_ok hcall
      exact ⟨_, howned.created htaken writesNode_file⟩
  | createDir hcall =>
      obtain ⟨below, free, htaken, rfl⟩ := createWith_eq_ok hcall
      exact ⟨_, howned.created htaken writesNode_directory⟩
  | link hcall =>
      exact ⟨kind, howned.link (howned.of_start hpermitted.1) hpermitted.2 hnames hcall⟩
  | write hcall => exact ⟨kind, howned.write (howned.of_start hpermitted.1) hpermitted.2 hcall⟩
  | delete hcall =>
      obtain ⟨directory, page, index, hdirectory, hchain, hindex, hchild⟩ :=
        howned.directory_of_file hpermitted.1 hpermitted.2
      exact howned.deleted (howned.of_start hpermitted.1) hdirectory hchain hindex hchild
        hpermitted.2 hcall

/-- What an image in order says about the pages that the root directory leads to. -/
theorem exclusive (howned : Owned device pending kind) : Exclusive device := by
  have hlink {page : Nat} {parent : Nat × Nat} (hparent : ParentLink device page parent)
      (hne : page ≠ 0) : Link device kind parent.1 parent.2 page := by
    obtain ⟨role, hreach, hslot, hword⟩ := hparent
    exact ⟨role, howned.of_fromRoot hreach, hslot, hword, hne⟩
  constructor
  case inUse =>
    intro page role hreach
    exact (howned.placed (howned.of_fromRoot hreach)).2.2
  case role =>
    intro page role other hreach hother
    exact Option.some.inj ((howned.of_fromRoot hreach).symm.trans (howned.of_fromRoot hother))
  case parent =>
    intro page role hreach hroot
    rcases hreach.inv with ⟨hsame, -⟩ | ⟨before, slot, beforeRole, hbefore, hslot, hword, hne, -⟩
    · exact absurd hsame hroot
    · have hparent : ParentLink device page (before, slot) := ⟨beforeRole, hbefore, hslot, hword⟩
      refine ⟨(before, slot), hparent, ?_⟩
      rintro ⟨other, place⟩ hother
      obtain ⟨rfl, rfl⟩ := howned.linked.unique (hlink hparent hne) (hlink hother hne)
      rfl
  case root =>
    intro parent hparent
    have hroot := (howned.placed howned.root).1
    exact howned.linked.unlinked (hlink hparent (by omega)) (.inl rfl)
  case free =>
    intro role hreach
    have hkind := howned.of_fromRoot hreach
    rw [howned.free.1] at hkind
    cases hkind

end Owned

/-- In every run whose names are short the image stays in order. -/
theorem owned_of_reachable {image : Device → Prop} (himage : ∀ device, image device → WellFormed device)
    {condition : World → Op → Prop}
    (hnames : ∀ world op, condition world op → op.NamesBelow (targetField - 2)) {world : World}
    (hreach : ((pkfs image).restrict condition).Reachable world) :
    ∃ kind, Owned world.device world.pending kind := by
  have hinductive : ((pkfs image).restrict condition).Inductive fun world =>
      ∃ kind, Owned world.device world.pending kind := by
    constructor
    case init =>
      rintro world ⟨hdevice, hpending⟩
      rw [hpending]
      exact himage _ hdevice
    case step =>
      rintro world op next ⟨kind, howned⟩ ⟨hcondition, hpermitted, hcompletes⟩
      exact howned.step hpermitted (hnames world op hcondition) hcompletes
  exact hreach.invariant hinductive

theorem Op.NamesBelow.mono {op : Op} {bound longer : Nat} (hop : op.NamesBelow bound)
    (hbound : bound ≤ longer) : op.NamesBelow longer := by
  cases op with
  | link directory node name => exact lt_of_lt_of_le hop hbound
  | createFile => trivial
  | createDir => trivial
  | write file buffer offset => trivial
  | delete file => trivial

/-- In every run every page that the root directory leads to is in use and has one
parent link, and `first_free` is not one of them. -/
theorem pages_exclusive {world : World}
    (hreach : ((pkfs WellFormed).restrict fun _ op => op.NamesBelow nameMaxSize).Reachable world) :
    Exclusive world.device := by
  obtain ⟨kind, howned⟩ := owned_of_reachable (fun _ hdevice => hdevice)
    (fun _ op hop => hop.mono (by decide)) hreach
  exact howned.exclusive

/-! ### An image with an empty root directory -/

/-- An image whose root directory at page 65 is empty. -/
def emptyImage : Device where
  size := 80
  size_lt := by decide
  pages page :=
    if page = rootAddress then
      ((Page.zero.setInUse true).setWord rootDirectoryField 65).setWord firstFreeField 67
    else if page = 65 then newNodePage .directory 66
    else if page = 66 then newDirectoryIndex 65
    else Page.zero

/-- The roles in `emptyImage`. -/
def emptyKind (page : Nat) : Option Role :=
  if page = 65 then some .directory else if page = 66 then some .index else none

theorem emptyKind_eq_some {page : Nat} {role : Role} (hpage : emptyKind page = some role) :
    page = 65 ∧ role = .directory ∨ page = 66 ∧ role = .index := by
  unfold emptyKind at hpage
  split at hpage
  next hroot => exact .inl ⟨hroot, (Option.some.inj hpage).symm⟩
  next =>
    split at hpage
    next hindex => exact .inr ⟨hindex, (Option.some.inj hpage).symm⟩
    next => cases hpage

theorem emptyImage_index {slot : Nat} (hslot : slot ∈ Role.index.slots) :
    emptyImage.word 66 slot = 0 :=
  writesNode_directory.empty 65 slot hslot

attribute [local semireducible] Page.word in
theorem emptyImage_owned : Owned emptyImage [] emptyKind := by
  have htarget : emptyImage.word 65 targetField = 66 := by decide
  have hroot : emptyImage.rootDirectory = 65 := by decide
  have hlink {page slot child : Nat} (hlink : Link emptyImage emptyKind page slot child) :
      page = 65 ∧ slot = targetField ∧ child = 66 := by
    obtain ⟨role, hkind, hslot, rfl, hne⟩ := hlink
    rcases emptyKind_eq_some hkind with ⟨rfl, rfl⟩ | ⟨rfl, rfl⟩
    · obtain rfl := List.mem_singleton.mp hslot
      exact ⟨rfl, rfl, htarget⟩
    · exact absurd (emptyImage_index hslot) hne
  constructor
  case root => rw [hroot]; rfl
  case placed =>
    intro page role hpage
    rcases emptyKind_eq_some hpage with ⟨rfl, -⟩ | ⟨rfl, -⟩
    · decide
    · exact ⟨by decide, by decide, newDirectoryIndex_inUse 65⟩
  case waiting => simp
  case linked =>
    constructor
    case source =>
      intro page slot child hchild
      obtain ⟨rfl, -, -⟩ := hlink hchild
      exact Option.some_ne_none _
    case target =>
      intro page slot child hchild
      obtain ⟨-, -, rfl⟩ := hlink hchild
      exact Option.some_ne_none _
    case unique =>
      intro page other slot place child hchild hother
      obtain ⟨rfl, rfl, -⟩ := hlink hchild
      obtain ⟨rfl, rfl, -⟩ := hlink hother
      exact ⟨rfl, rfl⟩
    case base_owned =>
      rintro page (rfl | hmem)
      · rw [hroot]
        exact Option.some_ne_none _
      · cases hmem
    case unlinked =>
      intro page slot child hchild
      obtain ⟨-, -, rfl⟩ := hlink hchild
      rintro (hsame | hmem)
      · rw [hroot] at hsame
        cases hsame
      · cases hmem
  case leads =>
    intro page slot role hpage hslot hne
    rcases emptyKind_eq_some hpage with ⟨rfl, rfl⟩ | ⟨rfl, rfl⟩
    · obtain rfl := List.mem_singleton.mp hslot
      rw [htarget]
      rfl
    · exact absurd (emptyImage_index hslot) hne
  case based =>
    intro page role hpage hnode
    rcases emptyKind_eq_some hpage with ⟨rfl, rfl⟩ | ⟨rfl, rfl⟩
    · decide
    · cases hnode
  case parent =>
    intro directory page index hdirectory hpage hindex hchild
    have hslot : childField index ∈ Role.index.slots :=
      mem_slots_index.mpr (.inr ⟨index, hindex, rfl⟩)
    rcases emptyKind_eq_some hdirectory with ⟨rfl, -⟩ | ⟨-, hrole⟩
    · have honly : page = 66 := by
        clear hchild
        induction hpage with
        | refl => exact htarget
        | tail _ hnext ih =>
            rw [ih, emptyImage_index (by simp)] at hnext
            exact absurd hnext.1.symm hnext.2
      rw [honly] at hchild
      exact absurd (emptyImage_index hslot) hchild
    · cases hrole
  case free => decide

attribute [local semireducible] Page.word in
/-- The run that makes a file in the empty image and links it, and what deleting the
file would do then. -/
theorem reachable_linked (image : Device → Prop) (condition : World → Op → Prop)
    (himage : image emptyImage) (hcreate : condition ⟨emptyImage, []⟩ .createFile)
    (hlink : ∀ world, condition world (.link 65 67 [97])) :
    ∃ linked gone, ((pkfs image).restrict condition).Reachable ⟨linked, []⟩ ∧
      Reach linked (fromRoot linked) 67 .file ∧ linked.firstFree = 69 ∧
      deleteFile 5 rootAddress 67 linked = .ok (some true, gone) ∧ gone.firstFree = 67 ∧
      (gone.pages 67).inUse = true := by
  have hcalls : ∃ made linked gone, createFile emptyImage = .ok (some 67, made) ∧
      linkNode 65 67 [97] made = .ok (some true, linked) ∧ made.rootDirectory = 65 ∧
      linked.rootDirectory = 65 ∧ linked.word 65 targetField = 66 ∧
      linked.word 66 (childField 0) = 67 ∧ nodeRole (linked.pages 67) = .file ∧
      linked.firstFree = 69 ∧ deleteFile 5 rootAddress 67 linked = .ok (some true, gone) ∧
      gone.firstFree = 67 ∧ (gone.pages 67).inUse = true :=
    ⟨_, _, _, rfl, rfl, by decide, by decide, by decide, by decide, by decide, by decide, rfl,
      by decide, by decide⟩
  obtain ⟨made, linked, gone, hmake, hcall, hmadeRoot, hroot, htarget, hchild, hrole, hfirst,
    hdelete⟩ := hcalls
  have hinit : ((pkfs image).restrict condition).Reachable ⟨emptyImage, []⟩ := .init ⟨himage, rfl⟩
  have hmakes : Op.createFile.Permitted ⟨emptyImage, []⟩ := trivial
  have hmade : ((pkfs image).restrict condition).Reachable ⟨made, [(67, .file)]⟩ :=
    hinit.step ⟨hcreate, hmakes, .createFile hmake⟩
  have hlinks : (Op.link 65 67 [97]).Permitted ⟨made, [(67, .file)]⟩ :=
    ⟨.start (.inl ⟨hmadeRoot.symm, rfl⟩), List.mem_singleton.mpr rfl⟩
  have hlinked : ((pkfs image).restrict condition).Reachable ⟨linked, []⟩ :=
    hmade.step ⟨hlink _, hlinks, .linked hcall rfl⟩
  have hdirectory : Reach linked (fromRoot linked) 65 .directory := .start ⟨hroot.symm, rfl⟩
  have hindex : Reach linked (fromRoot linked) 66 .index := by
    have hreach := hdirectory.link (List.mem_singleton.mpr rfl) (by simp [htarget])
    rwa [htarget] at hreach
  have hfile : Reach linked (fromRoot linked) 67 .file := by
    have hslot : childField 0 ∈ Role.index.slots := mem_slots_index.mpr (.inr ⟨0, by decide, rfl⟩)
    have hreach := hindex.link hslot (by simp [hchild])
    rwa [hchild, Role.leads_child, hrole] at hreach
  exact ⟨linked, gone, hlinked, hfile, hfirst, hdelete⟩

/-- A file that is made and linked in the empty image is reached and owned by one link. -/
theorem pages_exclusive_after_link : ∃ world : World,
    ((pkfs WellFormed).restrict fun _ op => op.NamesBelow nameMaxSize).Reachable world ∧
      Reach world.device (fromRoot world.device) 67 .file ∧ Exclusive world.device := by
  have hname : (1 : Nat) < nameMaxSize := by decide
  obtain ⟨linked, gone, hreach, hfile, -⟩ := reachable_linked WellFormed
    (fun _ op => op.NamesBelow nameMaxSize) ⟨emptyKind, emptyImage_owned⟩ trivial fun _ => hname
  exact ⟨_, hreach, hfile, pages_exclusive hreach⟩

/-! ## The lowest free page -/

/-- `first_free` is the lowest page behind the root page that is not in use. -/
def LowestFree (device : Device) : Prop :=
  rootAddress < device.firstFree ∧ (device.pages device.firstFree).inUse = false ∧
    ∀ page, rootAddress < page → page < device.firstFree → (device.pages page).inUse = true

namespace LowestFree

variable {device device' : Device}

/-- Changes that set no `in_use` bit and clear none. -/
theorem congr (hlowest : LowestFree device) (hfirst : device'.firstFree = device.firstFree)
    (hused : ∀ page, (device'.pages page).inUse = (device.pages page).inUse) :
    LowestFree device' := by
  obtain ⟨hroot, hfree, hbelow⟩ := hlowest
  refine ⟨hfirst ▸ hroot, by rw [hfirst, hused, hfree], fun page hlower hupper => ?_⟩
  rw [hused]
  exact hbelow page hlower (hfirst ▸ hupper)

theorem created (hlowest : LowestFree device) {nodePage bodyPage : Nat → Page} {top below free : Nat}
    (htaken : Taken device top below free) {role : Role} (hwrites : WritesNode role nodePage bodyPage) :
    LowestFree (created device nodePage bodyPage top below free) := by
  obtain ⟨hroot, -, hbelow⟩ := hlowest
  rw [← htaken.first] at hroot hbelow
  have htopLt := htaken.top_lt
  have hbelowLt := htaken.below_lt
  have hfreeLt := htaken.free_lt
  have hsize := device.size_lt
  have hfirst : (Pkfs.created device nodePage bodyPage top below free).firstFree = free := by
    rw [created_eq (by omega) (by omega), Device.setFirstFree_firstFree _ (by omega)]
  unfold LowestFree
  rw [hfirst]
  refine ⟨by omega, ?_, fun page hlower hupper => ?_⟩
  · rw [created_pages_of_ne (by omega) (by omega) (by omega), htaken.free_free]
  · by_cases htop : page = top
    · rw [htop, created_pages_top (by omega) (by omega), hwrites.nodeUse]
    · by_cases hsecond : page = below
      · rw [hsecond, created_pages_below (by omega), hwrites.bodyUse]
      · rw [created_pages_of_ne (by omega) htop hsecond]
        rcases lt_trichotomy page top with hlt | heq | hgt
        · exact hbelow page hlower hlt
        · exact absurd heq htop
        · rcases lt_trichotomy page below with hlt | heq | hgt'
          · exact htaken.used_below page hgt hlt
          · exact absurd heq hsecond
          · exact htaken.used_free page hgt' hupper

/-- Linking a node changes no `in_use` bit. -/
theorem linkedTo_inUse (device : Device) (directory node : Nat) (name : List UInt8) (index page : Nat)
    (hne : node ≠ device.word directory targetField) :
    ((linkedTo device directory node name index).pages page).inUse = (device.pages page).inUse := by
  by_cases hindex : page = device.word directory targetField
  · rw [hindex, linkedTo_pages_index, Page.inUse_setWord _ (by unfold childField; omega)]
  · by_cases hnode : page = node
    · rw [hnode, linkedTo_pages_node hne, namedPage_inUse]
    · rw [linkedTo_pages_of_ne hindex hnode]

theorem step {world next : World} {kind : Nat → Option Role} (hlowest : LowestFree world.device)
    (howned : Owned world.device world.pending kind) {op : Op} (hpermitted : op.Permitted world)
    (hnames : op.NamesBelow (targetField - 2)) (hop : ∀ file, op ≠ .delete file)
    (hcompletes : op.Completes world next) : LowestFree next.device := by
  cases hcompletes with
  | createFile hcall =>
      obtain ⟨below, free, htaken, rfl⟩ := createWith_eq_ok hcall
      exact hlowest.created htaken writesNode_file
  | createDir hcall =>
      obtain ⟨below, free, htaken, rfl⟩ := createWith_eq_ok hcall
      exact hlowest.created htaken writesNode_directory
  | @link directory node name _ _ hcall =>
      obtain ⟨-, ⟨-, -, rfl⟩ | ⟨-, index, hslot, -, rfl⟩⟩ := linkNode_eq_ok hcall
      · exact hlowest
      · have hdirectory := howned.of_start hpermitted.1
        obtain ⟨⟨_, role⟩, hmem, rfl⟩ := List.mem_map.mp hpermitted.2
        obtain ⟨hkind, hisNode, -⟩ := howned.waiting hmem
        have hlinked := howned.linkedNode hdirectory hkind hisNode hslot hnames
        refine hlowest.congr hlinked.first fun page => linkedTo_inUse _ _ _ _ _ _ fun hsame => ?_
        have htarget := howned.kind_target hdirectory
        rw [← hsame, hkind, Option.some.injEq] at htarget
        exact absurd hisNode (by simp [htarget, Role.isNode])
  | @write _ file _ _ _ _ hcall =>
      obtain ⟨-, -, -, rfl⟩ := writeFile_eq_ok hpermitted.2 hcall
      have hdata := howned.kind_data (howned.of_start hpermitted.1)
      have hroot := (howned.placed hdata).1
      refine hlowest.congr (Device.set_firstFree _ _ (by omega)) fun page => ?_
      by_cases hsame : page = world.device.word file targetField
      · rw [hsame, Device.set_pages_self, appended_inUse]
      · rw [Device.set_pages_of_ne _ _ hsame]
  | @delete _ file _ _ hcall => exact absurd rfl (hop file)

end LowestFree

/-- An image in order whose `first_free` is the lowest free page. -/
def Accounted (device : Device) : Prop := WellFormed device ∧ LowestFree device

/-- As long as no file is deleted `first_free` is the lowest free page. The node page of
the first file that is deleted stays in use on disc. -/
theorem lowestFree_until_delete {world : World}
    (hreach : ((pkfs Accounted).restrict fun _ op =>
      op.NamesBelow (targetField - 2) ∧ ∀ file, op ≠ .delete file).Reachable world) :
    LowestFree world.device ∧ ∀ file next, (pkfs Accounted).step world (.delete file) next →
      (next.device.pages file).inUse = true := by
  have howned := owned_of_reachable (fun _ hdevice => hdevice.1) (fun _ _ hop => hop.1) hreach
  constructor
  · have hinductive : ((pkfs Accounted).restrict fun _ op =>
        op.NamesBelow (targetField - 2) ∧ ∀ file, op ≠ .delete file).Inductive fun world =>
          (∃ kind, Owned world.device world.pending kind) ∧ LowestFree world.device := by
      constructor
      case init =>
        rintro world ⟨⟨hdevice, hlowest⟩, hpending⟩
        rw [hpending]
        exact ⟨hdevice, hlowest⟩
      case step =>
        rintro world op next ⟨⟨kind, howned⟩, hlowest⟩ ⟨⟨hnames, hop⟩, hpermitted, hcompletes⟩
        exact ⟨howned.step hpermitted hnames hcompletes,
          hlowest.step howned hpermitted hnames hop hcompletes⟩
    exact (hreach.invariant hinductive).2
  · rintro file next ⟨hpermitted, hcompletes⟩
    obtain ⟨kind, howned⟩ := howned
    cases hcompletes with
    | delete hcall =>
        have hfile := howned.of_start hpermitted.1
        obtain ⟨directory, page, index, hdirectory, hchain, hindex, hchild⟩ :=
          howned.directory_of_file hpermitted.1 hpermitted.2
        rw [howned.deleted_node hfile hdirectory hchain hindex hchild hcall]
        exact (howned.placed hfile).2.2

attribute [local semireducible] Page.word in
theorem emptyImage_accounted : Accounted emptyImage :=
  ⟨⟨emptyKind, emptyImage_owned⟩, by decide, by decide, by
    intro page hlower hupper
    have hfirst : emptyImage.firstFree = 67 := by decide
    have hroot : rootAddress = 64 := rfl
    have hpage : page = 65 ∨ page = 66 := by omega
    rcases hpage with rfl | rfl <;> decide⟩

/-- With a file made and linked, `first_free` is the page behind its two. -/
theorem lowestFree_after_link : ∃ world : World,
    ((pkfs Accounted).restrict fun _ op =>
      op.NamesBelow (targetField - 2) ∧ ∀ file, op ≠ .delete file).Reachable world ∧
      world.device.firstFree = 69 ∧ LowestFree world.device := by
  have hname : (1 : Nat) < targetField - 2 := by decide
  obtain ⟨linked, gone, hreach, -, hfirst, -⟩ := reachable_linked Accounted
    (fun _ op => op.NamesBelow (targetField - 2) ∧ ∀ file, op ≠ .delete file)
    emptyImage_accounted ⟨trivial, by simp⟩ fun _ => ⟨hname, by simp⟩
  exact ⟨_, hreach, hfirst, (lowestFree_until_delete hreach).1⟩

/-- Deleting the file makes its node page `first_free`, which is in use. -/
theorem lowestFree_lost_by_delete : ∃ world next : World,
    ((pkfs Accounted).restrict fun _ op => op.NamesBelow nameMaxSize).Reachable world ∧
      (pkfs Accounted).step world (.delete 67) next ∧ next.device.firstFree = 67 ∧
      (next.device.pages 67).inUse = true ∧ ¬LowestFree next.device := by
  have hname : (1 : Nat) < nameMaxSize := by decide
  obtain ⟨linked, gone, hreach, hfile, -, hdelete, hfirst, hused⟩ := reachable_linked
    Accounted (fun _ op => op.NamesBelow nameMaxSize) emptyImage_accounted trivial fun _ => hname
  have hstart : Reach linked (World.start ⟨linked, []⟩) 67 .file := by
    refine hfile.mono fun page role hroot => ?_
    exact .inl hroot
  refine ⟨_, ⟨gone, []⟩, hreach, ⟨⟨hstart, by simp⟩, .delete hdelete⟩, hfirst, hused, ?_⟩
  rintro ⟨-, hfree, -⟩
  rw [hfirst, hused] at hfree
  cases hfree

end PKernel.Pkfs
