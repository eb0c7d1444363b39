import PKernel.Library.Ownership
import PKernel.Pkfs.PageContents
import Mathlib.Logic.Relation

/-! # Who owns which page

The pages of an image have roles: directory nodes lead to index pages, which lead to
nodes, and file nodes lead to data pages. In an image in order every page with a role
is in use, no two links lead to one page, and `first_free` has no role.
-/

namespace PKernel.Pkfs

open Library.Ownership Relation
open Function (update update_of_ne update_self)

/-- What a page is used for. -/
inductive Role where
  | directory
  | index
  | file
  | data
deriving DecidableEq, Repr

namespace Role

/-- The offsets of the addresses in a page that lead on to others. -/
def slots : Role → List Nat
  | directory => [targetField]
  | index => nextField :: (List.range directoryIndexChildrenSize).map childField
  | file => [targetField]
  | data => [nextField]

/-- Whether pages with the role are linked into directories. -/
def isNode : Role → Bool
  | directory => true
  | index => false
  | file => true
  | data => false

/-- The role of the page that a new node leads to. -/
def body : Role → Role
  | directory => index
  | index => index
  | file => data
  | data => data

end Role

/-- The role that the type of a node page gives it. -/
def nodeRole (page : Page) : Role :=
  if page.type = PageType.directory.code then .directory else .file

/-- The role of the page that a slot leads to. -/
def Role.leads (role : Role) (slot : Nat) (target : Page) : Role :=
  if role = .index ∧ slot ≠ nextField then nodeRole target else role.body

/-- The pages reached from some starting pages, with the roles they are reached in. -/
inductive Reach (device : Device) (start : Nat → Role → Prop) : Nat → Role → Prop
  | start {page : Nat} {role : Role} (hstart : start page role) : Reach device start page role
  | link {page slot : Nat} {role : Role} (hreach : Reach device start page role)
      (hslot : slot ∈ role.slots) (hlink : device.word page slot ≠ 0) :
      Reach device start (device.word page slot)
        (role.leads slot (device.pages (device.word page slot)))

/-- The index pages of a directory, one behind the other. -/
def IndexChain (device : Device) (directory : Nat) : Nat → Prop :=
  ReflTransGen (fun page next => device.word page nextField = next ∧ next ≠ 0)
    (device.word directory targetField)

/-- The links from the pages that have a role. -/
def Link (device : Device) (kind : Nat → Option Role) (page slot target : Nat) : Prop :=
  ∃ role, kind page = some role ∧ slot ∈ role.slots ∧ device.word page slot = target ∧ target ≠ 0

/-- The pages that have a role. -/
def owned (kind : Nat → Option Role) : Set Nat := {page | kind page ≠ none}

/-- The root directory and the nodes made but not linked. -/
def bases (device : Device) (pending : List (Nat × Role)) : Set Nat :=
  {page | page = device.rootDirectory ∨ page ∈ pending.map Prod.fst}

/-- An image in order, for the roles of its pages and the nodes that are not linked. -/
structure Owned (device : Device) (pending : List (Nat × Role)) (kind : Nat → Option Role) :
    Prop where
  root : kind device.rootDirectory = some .directory
  placed : ∀ {page role}, kind page = some role →
    rootAddress < page ∧ page < device.size ∧ (device.pages page).inUse = true
  waiting : ∀ {node role}, (node, role) ∈ pending →
    kind node = some role ∧ role.isNode = true ∧ nodeRole (device.pages node) = role ∧
      node ≠ device.rootDirectory
  linked : Linked (Link device kind) (owned kind) (bases device pending)
  leads : ∀ {page slot role}, kind page = some role → slot ∈ role.slots →
    device.word page slot ≠ 0 → kind (device.word page slot) =
      some (role.leads slot (device.pages (device.word page slot)))
  based : ∀ {page role}, kind page = some role → role.isNode = true →
    device.word page targetField ≠ 0
  parent : ∀ {directory page index}, kind directory = some .directory →
    IndexChain device directory page → index < directoryIndexChildrenSize →
    device.word page (childField index) ≠ 0 →
    device.word (device.word page (childField index)) nodeParentField = directory
  free : kind device.firstFree = none ∧ rootAddress < device.firstFree

/-! ## Slots -/

@[simp]
theorem mem_slots_index {slot : Nat} : slot ∈ Role.index.slots ↔
    slot = nextField ∨ ∃ index < directoryIndexChildrenSize, childField index = slot := by
  simp [Role.slots]

theorem childField_ne_nextField (index : Nat) : childField index ≠ nextField := by
  unfold childField nextField
  omega

theorem childField_injective : Function.Injective childField := by
  intro index other hsame
  unfold childField at hsame
  omega

theorem Role.slots_of_isNode {role : Role} (hnode : role.isNode = true) :
    role.slots = [targetField] := by
  cases role with
  | directory => rfl
  | index => cases hnode
  | file => rfl
  | data => cases hnode

@[simp]
theorem Role.leads_of_ne_index {role : Role} (hrole : role ≠ .index) (slot : Nat) (target : Page) :
    role.leads slot target = role.body := by
  rw [Role.leads, if_neg (fun h => hrole h.1)]

@[simp]
theorem Role.leads_next (role : Role) (target : Page) : role.leads nextField target = role.body := by
  rw [Role.leads, if_neg (fun h => h.2 rfl)]

@[simp]
theorem Role.leads_child (index : Nat) (target : Page) :
    Role.index.leads (childField index) target = nodeRole target := by
  rw [Role.leads, if_pos ⟨rfl, childField_ne_nextField index⟩]

theorem nodeRole_isNode (page : Page) : (nodeRole page).isNode = true := by
  unfold nodeRole
  split <;> rfl

namespace Owned

variable {device device' : Device} {pending : List (Nat × Role)} {kind : Nat → Option Role}

/-! ## What is reached -/

theorem of_reach (howned : Owned device pending kind) {start : Nat → Role → Prop}
    (hstart : ∀ page role, start page role → kind page = some role) {page : Nat} {role : Role}
    (hreach : Reach device start page role) : kind page = some role := by
  induction hreach with
  | start h => exact hstart _ _ h
  | link _ hslot hlink ih => exact howned.leads ih hslot hlink

theorem of_indexChain (howned : Owned device pending kind) {directory page : Nat}
    (hdirectory : kind directory = some .directory) (hchain : IndexChain device directory page) :
    kind page = some .index := by
  induction hchain with
  | refl => exact howned.leads hdirectory (by simp [Role.slots]) (howned.based hdirectory rfl)
  | tail _ hnext ih =>
      obtain ⟨rfl, hne⟩ := hnext
      exact howned.leads ih (by simp) hne

/-- A child of an index page has the role that its type says. -/
theorem child (howned : Owned device pending kind) {page index : Nat}
    (hpage : kind page = some .index) (hindex : index < directoryIndexChildrenSize)
    (hchild : device.word page (childField index) ≠ 0) :
    kind (device.word page (childField index)) =
      some (nodeRole (device.pages (device.word page (childField index)))) := by
  have hslot : childField index ∈ Role.index.slots := mem_slots_index.mpr (.inr ⟨index, hindex, rfl⟩)
  have hleads := howned.leads hpage hslot hchild
  rwa [Role.leads_child] at hleads

end Owned

/-! ## Changes that no role sees -/

/-- Two contents of a page that are the same for what its role says about it. -/
structure SameRole (role : Role) (page page' : Page) : Prop where
  inUse : page'.inUse = page.inUse
  slots : ∀ slot ∈ role.slots, page'.word slot = page.word slot
  node : role.isNode = true → nodeRole page' = nodeRole page
  parent : role.isNode = true → page'.word nodeParentField = page.word nodeParentField

theorem SameRole.refl (role : Role) (page : Page) : SameRole role page page :=
  ⟨rfl, fun _ _ => rfl, fun _ => rfl, fun _ => rfl⟩

/-- What a link says of its target only depends on a type where the target is a node. -/
theorem Role.leads_congr {role target : Role} {slot : Nat} {page page' : Page}
    (hleads : role.leads slot page = target)
    (hnode : target.isNode = true → nodeRole page' = nodeRole page) :
    role.leads slot page' = target := by
  unfold Role.leads at *
  split at hleads
  next hchild =>
    rw [if_pos hchild, hnode (hleads ▸ nodeRole_isNode page), hleads]
  next hchild => rw [if_neg hchild, hleads]

/-- Directories whose pages lead on alike have the same index pages. -/
theorem IndexChain.congr {device device' : Device} {directory : Nat}
    (htarget : device'.word directory targetField = device.word directory targetField)
    (hnext : ∀ page, IndexChain device directory page →
      device'.word page nextField = device.word page nextField) {page : Nat} :
    IndexChain device' directory page ↔ IndexChain device directory page := by
  constructor
  · intro hchain
    induction hchain with
    | refl =>
        rw [htarget]
        exact .refl
    | tail _ hlink ih => exact .tail ih ⟨by rw [← hnext _ ih, hlink.1], hlink.2⟩
  · intro hchain
    have hstart : IndexChain device' directory (device.word directory targetField) := by
      rw [← htarget]
      exact .refl
    induction hchain with
    | refl => exact hstart
    | tail hprefix hlink ih => exact .tail ih ⟨by rw [hnext _ hprefix, hlink.1], hlink.2⟩

namespace Owned

variable {device device' : Device} {pending : List (Nat × Role)} {kind : Nat → Option Role}

theorem congr (howned : Owned device pending kind) (hsize : device'.size = device.size)
    (hroot : device'.rootDirectory = device.rootDirectory)
    (hsame : ∀ {page role}, kind page = some role →
      SameRole role (device.pages page) (device'.pages page))
    (hfree : kind device'.firstFree = none ∧ rootAddress < device'.firstFree) :
    Owned device' pending kind := by
  have hword {page slot : Nat} {role : Role} (hpage : kind page = some role)
      (hslot : slot ∈ role.slots) : device'.word page slot = device.word page slot :=
    (hsame hpage).slots slot hslot
  have hchain {directory page : Nat} (hdirectory : kind directory = some .directory) :
      IndexChain device' directory page ↔ IndexChain device directory page := by
    refine IndexChain.congr (hword hdirectory (by simp [Role.slots])) fun next hnext => ?_
    exact hword (howned.of_indexChain hdirectory hnext) (by simp)
  constructor
  case root => rw [hroot]; exact howned.root
  case placed =>
    intro page role hpage
    obtain ⟨hlower, hupper, hused⟩ := howned.placed hpage
    exact ⟨hlower, hsize ▸ hupper, (hsame hpage).inUse ▸ hused⟩
  case waiting =>
    intro node role hnode
    obtain ⟨hkind, hisNode, hrole, hne⟩ := howned.waiting hnode
    exact ⟨hkind, hisNode, by rw [(hsame hkind).node hisNode, hrole], hroot ▸ hne⟩
  case linked =>
    refine howned.linked.congr (fun parent slot child => ?_) (fun node => by rw [bases, hroot]; rfl)
    refine exists_congr fun role => and_congr_right fun hkind => and_congr_right fun hslot => ?_
    rw [hword hkind hslot]
  case leads =>
    intro page slot role hpage hslot hlink
    rw [hword hpage hslot] at hlink ⊢
    have hold := howned.leads hpage hslot hlink
    rw [hold, Role.leads_congr rfl (hsame hold).node]
  case based =>
    intro page role hpage hnode
    rw [hword hpage (by simp [Role.slots_of_isNode hnode])]
    exact howned.based hpage hnode
  case parent =>
    intro directory page index hdirectory hpage hindex hchild
    rw [hchain hdirectory] at hpage
    have hkind := howned.of_indexChain hdirectory hpage
    have hslot : childField index ∈ Role.index.slots :=
      mem_slots_index.mpr (.inr ⟨index, hindex, rfl⟩)
    rw [hword hkind hslot] at hchild ⊢
    have hnode := howned.child hkind hindex hchild
    rw [← howned.parent hdirectory hpage hindex hchild]
    exact (hsame hnode).parent (nodeRole_isNode _)
  case free => exact hfree

/-! ## A new node -/

end Owned

/-- The roles with a new node and the page it leads to. -/
def withNode (kind : Nat → Option Role) (top below : Nat) (role : Role) : Nat → Option Role :=
  update (update kind below (some role.body)) top (some role)

theorem withNode_of_ne {kind : Nat → Option Role} {top below page : Nat} {role : Role}
    (htop : page ≠ top) (hbelow : page ≠ below) : withNode kind top below role page = kind page := by
  rw [withNode, update_of_ne htop, update_of_ne hbelow]

theorem withNode_eq_some {kind : Nat → Option Role} {top below page : Nat} {role other : Role}
    (hpage : withNode kind top below role page = some other) :
    page = top ∧ other = role ∨ page = below ∧ page ≠ top ∧ other = role.body ∨
      page ≠ top ∧ page ≠ below ∧ kind page = some other := by
  unfold withNode at hpage
  by_cases htop : page = top
  · subst htop
    rw [update_self] at hpage
    exact .inl ⟨rfl, (Option.some.inj hpage).symm⟩
  · rw [update_of_ne htop] at hpage
    by_cases hbelow : page = below
    · subst hbelow
      rw [update_self] at hpage
      exact .inr (.inl ⟨rfl, htop, (Option.some.inj hpage).symm⟩)
    · rw [update_of_ne hbelow] at hpage
      exact .inr (.inr ⟨htop, hbelow, hpage⟩)

theorem owned_withNode (kind : Nat → Option Role) (top below : Nat) (role : Role) :
    owned (withNode kind top below role) = insert top (insert below (owned kind)) := by
  ext page
  by_cases htop : page = top
  · simp [owned, withNode, htop]
  · by_cases hbelow : page = below
    · subst hbelow
      simp [owned, withNode, htop]
    · simp [owned, withNode, htop, hbelow]

theorem bases_cons (device : Device) (pending : List (Nat × Role)) (top : Nat) (role : Role) :
    bases device ((top, role) :: pending) = insert top (bases device pending) := by
  ext page
  change page = device.rootDirectory ∨ page ∈ top :: pending.map Prod.fst ↔
    page = top ∨ page = device.rootDirectory ∨ page ∈ pending.map Prod.fst
  rw [List.mem_cons, or_left_comm]

/-- What `create_file` and `create_dir` leave on the device for a new node. -/
structure NewNode (device : Device) (role : Role) (top below : Nat) : Prop where
  node : role.isNode = true
  ne : top ≠ below
  placed : ∀ page, page = top ∨ page = below →
    rootAddress < page ∧ page < device.size ∧ (device.pages page).inUse = true
  type : nodeRole (device.pages top) = role
  target : device.word top targetField = below
  empty : ∀ slot ∈ role.body.slots, device.word below slot = 0

namespace Owned

variable {device device' : Device} {pending : List (Nat × Role)} {kind : Nat → Option Role}

theorem adopt (howned : Owned device pending kind) {role : Role} {top below : Nat}
    (hnew : NewNode device role top below) (htop : kind top = none) (hbelow : kind below = none)
    (hfree : device.firstFree ≠ top ∧ device.firstFree ≠ below) :
    Owned device ((top, role) :: pending) (withNode kind top below role) := by
  have hkept {page : Nat} {other : Role} (hpage : kind page = some other) :
      withNode kind top below role page = some other := by
    rw [withNode_of_ne _ _, hpage]
    · rintro rfl
      simp [htop] at hpage
    · rintro rfl
      simp [hbelow] at hpage
  have hkindBelow : withNode kind top below role below = some role.body := by
    rw [withNode, update_of_ne hnew.ne.symm, update_self]
  have hkindTop : withNode kind top below role top = some role := by
    rw [withNode, update_self]
  have hbelowPos : below ≠ 0 := by
    have hplaced := (hnew.placed below (.inr rfl)).1
    omega
  constructor
  case root => exact hkept howned.root
  case placed =>
    intro page other hpage
    rcases withNode_eq_some hpage with ⟨rfl, -⟩ | ⟨rfl, -, -⟩ | ⟨-, -, hold⟩
    · exact hnew.placed page (.inl rfl)
    · exact hnew.placed page (.inr rfl)
    · exact howned.placed hold
  case waiting =>
    intro node other hnode
    rcases List.mem_cons.mp hnode with hsame | hold
    · cases hsame
      refine ⟨hkindTop, hnew.node, hnew.type, ?_⟩
      rintro rfl
      exact absurd howned.root (by simp [htop])
    · obtain ⟨hkind, hrest⟩ := howned.waiting hold
      exact ⟨hkept hkind, hrest⟩
  case linked =>
    rw [owned_withNode, bases_cons]
    refine howned.linked.grow targetField (by simp [owned, htop]) (by simp [owned, hbelow])
      hnew.ne fun parent slot child => ?_
    constructor
    · rintro ⟨other, hpage, hslot, hword, hne⟩
      rcases withNode_eq_some hpage with ⟨rfl, rfl⟩ | ⟨rfl, -, rfl⟩ | ⟨-, -, hold⟩
      · rw [Role.slots_of_isNode hnew.node, List.mem_singleton] at hslot
        subst hslot
        exact .inr ⟨rfl, rfl, hword.symm.trans hnew.target⟩
      · exact absurd (hword.symm.trans (hnew.empty slot hslot)) hne
      · exact .inl ⟨other, hold, hslot, hword, hne⟩
    · rintro (⟨other, hold, hslot, hword, hne⟩ | ⟨rfl, rfl, rfl⟩)
      · exact ⟨other, hkept hold, hslot, hword, hne⟩
      · exact ⟨role, hkindTop, by simp [Role.slots_of_isNode hnew.node], hnew.target, hbelowPos⟩
  case leads =>
    intro page slot other hpage hslot hlink
    rcases withNode_eq_some hpage with ⟨rfl, rfl⟩ | ⟨rfl, -, rfl⟩ | ⟨-, -, hold⟩
    · rw [Role.slots_of_isNode hnew.node, List.mem_singleton] at hslot
      subst hslot
      rw [hnew.target, hkindBelow, Role.leads_of_ne_index]
      rintro rfl
      exact absurd hnew.node (by decide)
    · exact absurd (hnew.empty slot hslot) hlink
    · exact hkept (howned.leads hold hslot hlink)
  case based =>
    intro page other hpage hnode
    rcases withNode_eq_some hpage with ⟨rfl, rfl⟩ | ⟨rfl, -, rfl⟩ | ⟨-, -, hold⟩
    · rw [hnew.target]
      exact hbelowPos
    · exact absurd hnode (by cases role <;> decide)
    · exact howned.based hold hnode
  case parent =>
    intro directory page index hdirectory hpage hindex hchild
    rcases withNode_eq_some hdirectory with ⟨rfl, rfl⟩ | ⟨rfl, -, hrole⟩ | ⟨-, -, hold⟩
    · -- the one index page of a new directory is empty
      have honly : page = below := by
        clear hchild
        induction hpage with
        | refl => exact hnew.target
        | tail _ hlink ih =>
            rw [ih, hnew.empty nextField (by simp [Role.body])] at hlink
            exact absurd hlink.1.symm hlink.2
      have hslot : childField index ∈ Role.index.slots :=
        mem_slots_index.mpr (.inr ⟨index, hindex, rfl⟩)
      rw [honly] at hchild
      exact absurd (hnew.empty _ hslot) hchild
    · exact absurd hrole (by cases role <;> decide)
    · exact howned.parent hold hpage hindex hchild
  case free =>
    rw [withNode_of_ne hfree.1 hfree.2]
    exact howned.free

/-! ## Index pages and their directories -/

/-- The links along the index pages of a directory. -/
theorem link_of_indexChain (howned : Owned device pending kind) {directory page : Nat}
    (hdirectory : kind directory = some .directory) (hchain : IndexChain device directory page) :
    Link device kind directory targetField page ∨
      ∃ before, IndexChain device directory before ∧ Link device kind before nextField page := by
  cases hchain with
  | refl => exact .inl ⟨_, hdirectory, by simp [Role.slots], rfl, howned.based hdirectory rfl⟩
  | tail hbefore hnext =>
      obtain ⟨rfl, hne⟩ := hnext
      exact .inr ⟨_, hbefore, _, howned.of_indexChain hdirectory hbefore, by simp, rfl, hne⟩

/-- An index page belongs to one directory. -/
theorem indexChain_unique (howned : Owned device pending kind) {directory other page : Nat}
    (hdirectory : kind directory = some .directory) (hother : kind other = some .directory)
    (hchain : IndexChain device directory page) (hchain' : IndexChain device other page) :
    directory = other := by
  induction hchain with
  | refl =>
      have hlink : Link device kind directory targetField (device.word directory targetField) :=
        ⟨_, hdirectory, by simp [Role.slots], rfl, howned.based hdirectory rfl⟩
      rcases howned.link_of_indexChain hother hchain' with hlink' | ⟨before, -, hlink'⟩
      · exact (howned.linked.unique hlink hlink').1
      · exact absurd (howned.linked.unique hlink hlink').2 (by decide)
  | @tail before page hbefore hnext ih =>
      have hlink : Link device kind before nextField page :=
        ⟨_, howned.of_indexChain hdirectory hbefore, by simp, hnext⟩
      rcases howned.link_of_indexChain hother hchain' with hlink' | ⟨before', hbefore', hlink'⟩
      · exact absurd (howned.linked.unique hlink hlink').2 (by decide)
      · obtain ⟨rfl, -⟩ := howned.linked.unique hlink hlink'
        exact ih hbefore'

/-- A child in an index page is a link from it. -/
theorem link_child (howned : Owned device pending kind) {directory page index : Nat}
    (hdirectory : kind directory = some .directory) (hchain : IndexChain device directory page)
    (hindex : index < directoryIndexChildrenSize)
    (hchild : device.word page (childField index) ≠ 0) :
    Link device kind page (childField index) (device.word page (childField index)) :=
  ⟨_, howned.of_indexChain hdirectory hchain, mem_slots_index.mpr (.inr ⟨index, hindex, rfl⟩), rfl,
    hchild⟩

end Owned

/-! ## Linking a node -/

/-- A node is not an index page. -/
theorem ne_of_isNode {kind : Nat → Option Role} {page other : Nat} {role : Role}
    (hpage : kind page = some .index) (hother : kind other = some role)
    (hrole : role.isNode = true) : other ≠ page := by
  rintro rfl
  rw [hpage, Option.some.injEq] at hother
  exact absurd hrole (by simp [← hother, Role.isNode])

theorem bases_filter {device device' : Device} {pending : List (Nat × Role)} {node : Nat}
    (hroot : device'.rootDirectory = device.rootDirectory) (hnode : node ≠ device.rootDirectory) :
    bases device' (pending.filter fun entry => entry.1 ≠ node) = bases device pending \ {node} := by
  ext page
  constructor
  · rintro (rfl | hpage)
    · exact ⟨.inl hroot, fun hsame => hnode (hroot ▸ hsame.symm)⟩
    · obtain ⟨entry, hentry, rfl⟩ := List.mem_map.mp hpage
      rw [List.mem_filter, decide_eq_true_eq] at hentry
      exact ⟨.inr (List.mem_map.mpr ⟨entry, hentry.1, rfl⟩), hentry.2⟩
  · rintro ⟨rfl | hpage, hne⟩
    · exact .inl hroot.symm
    · obtain ⟨entry, hentry, rfl⟩ := List.mem_map.mp hpage
      exact .inr (List.mem_map.mpr ⟨entry, List.mem_filter.mpr ⟨hentry, by simpa using hne⟩, rfl⟩)

/-- What `link_node` changes: a slot of an index page and the parent of the node. -/
structure LinkedNode (device device' : Device) (kind : Nat → Option Role)
    (directory page index node : Nat) : Prop where
  size : device'.size = device.size
  root : device'.rootDirectory = device.rootDirectory
  first : device'.firstFree = device.firstFree
  slot : device.word page (childField index) = 0
  child : device'.word page (childField index) = node
  children : ∀ other < directoryIndexChildrenSize, other ≠ index →
    device'.word page (childField other) = device.word page (childField other)
  next : device'.word page nextField = device.word page nextField
  pageUse : (device'.pages page).inUse = (device.pages page).inUse
  nodeUse : (device'.pages node).inUse = (device.pages node).inUse
  nodeType : nodeRole (device'.pages node) = nodeRole (device.pages node)
  target : device'.word node targetField = device.word node targetField
  parent : device'.word node nodeParentField = directory
  others : ∀ other, other ≠ page → other ≠ node → kind other ≠ none →
    device'.pages other = device.pages other

namespace LinkedNode

variable {device device' : Device} {pending : List (Nat × Role)} {kind : Nat → Option Role}
  {directory page index node other slot : Nat} {role nodeKind : Role}

theorem use_eq (hlinked : LinkedNode device device' kind directory page index node)
    (hother : kind other = some role) :
    (device'.pages other).inUse = (device.pages other).inUse := by
  by_cases hpage : other = page
  · rw [hpage, hlinked.pageUse]
  · by_cases hsame : other = node
    · rw [hsame, hlinked.nodeUse]
    · rw [hlinked.others other hpage hsame (by simp [hother])]

theorem role_eq (hlinked : LinkedNode device device' kind directory page index node)
    (hpageKind : kind page = some .index) (hother : kind other = some role)
    (hotherNode : role.isNode = true) :
    nodeRole (device'.pages other) = nodeRole (device.pages other) := by
  by_cases hsame : other = node
  · rw [hsame, hlinked.nodeType]
  · rw [hlinked.others other (ne_of_isNode hpageKind hother hotherNode) hsame (by simp [hother])]

/-- Every slot of a page with a role is as before, but for the new child. -/
theorem word_eq (hlinked : LinkedNode device device' kind directory page index node)
    (hpageKind : kind page = some .index) (hnodeKind : kind node = some nodeKind)
    (hisNode : nodeKind.isNode = true) (hother : kind other = some role)
    (hslot : slot ∈ role.slots) (hne : ¬(other = page ∧ slot = childField index)) :
    device'.word other slot = device.word other slot := by
  by_cases hpage : other = page
  · subst hpage
    rw [hpageKind] at hother
    cases hother
    rcases mem_slots_index.mp hslot with rfl | ⟨place, hplace, rfl⟩
    · exact hlinked.next
    · exact hlinked.children place hplace fun hsame => hne ⟨rfl, by rw [hsame]⟩
  · by_cases hsame : other = node
    · subst hsame
      rw [hnodeKind] at hother
      cases hother
      rw [Role.slots_of_isNode hisNode, List.mem_singleton] at hslot
      rw [hslot, hlinked.target]
    · rw [Device.word, hlinked.others other hpage hsame (by simp [hother]), ← Device.word]

theorem indexChain (hlinked : LinkedNode device device' kind directory page index node)
    (howned : Owned device pending kind) (hpageKind : kind page = some .index)
    (hnodeKind : kind node = some nodeKind) (hisNode : nodeKind.isNode = true)
    (hother : kind other = some .directory) {next : Nat} :
    IndexChain device' other next ↔ IndexChain device other next := by
  refine IndexChain.congr (hlinked.word_eq hpageKind hnodeKind hisNode hother
    (by simp [Role.slots]) ?_) fun next hnext => ?_
  · exact fun h => ne_of_isNode hpageKind hother rfl h.1
  · exact hlinked.word_eq hpageKind hnodeKind hisNode (howned.of_indexChain hother hnext) (by simp)
      fun h => childField_ne_nextField index h.2.symm

end LinkedNode

namespace Owned

variable {device device' : Device} {pending : List (Nat × Role)} {kind : Nat → Option Role}

theorem attach (howned : Owned device pending kind) {directory page index node : Nat}
    (hlinked : LinkedNode device device' kind directory page index node)
    (hdirectory : kind directory = some .directory) (hchain : IndexChain device directory page)
    (hindex : index < directoryIndexChildrenSize) (hnode : node ∈ pending.map Prod.fst) :
    Owned device' (pending.filter fun entry => entry.1 ≠ node) kind := by
  obtain ⟨nodeKind, hwaiting⟩ : ∃ role, (node, role) ∈ pending := by
    obtain ⟨⟨_, role⟩, hmem, rfl⟩ := List.mem_map.mp hnode
    exact ⟨role, hmem⟩
  obtain ⟨hnodeKind, hisNode, hnodeRole, hnotRoot⟩ := howned.waiting hwaiting
  have hpageKind := howned.of_indexChain hdirectory hchain
  have hslotMem : childField index ∈ Role.index.slots :=
    mem_slots_index.mpr (.inr ⟨index, hindex, rfl⟩)
  have hword {other slot : Nat} {role : Role} (hother : kind other = some role)
      (hslot : slot ∈ role.slots) (hne : ¬(other = page ∧ slot = childField index)) :
      device'.word other slot = device.word other slot :=
    hlinked.word_eq hpageKind hnodeKind hisNode hother hslot hne
  constructor
  case root => rw [hlinked.root]; exact howned.root
  case placed =>
    intro other role hother
    obtain ⟨hlower, hupper, hused⟩ := howned.placed hother
    exact ⟨hlower, hlinked.size ▸ hupper, (hlinked.use_eq hother).trans hused⟩
  case waiting =>
    intro other role hother
    obtain ⟨hkind, hisNode', hrole', hne⟩ := howned.waiting (List.mem_filter.mp hother).1
    exact ⟨hkind, hisNode', (hlinked.role_eq hpageKind hkind hisNode').trans hrole',
      hlinked.root ▸ hne⟩
  case linked =>
    rw [bases_filter hlinked.root hnotRoot]
    have hpageOwned : page ∈ owned kind := by simp [owned, hpageKind]
    refine howned.linked.attach (childField index) hpageOwned (.inr hnode)
      fun parent slot child => ?_
    constructor
    · rintro ⟨role, hparent, hslot, hchild, hne⟩
      by_cases hnew : parent = page ∧ slot = childField index
      · obtain ⟨rfl, rfl⟩ := hnew
        exact .inr ⟨rfl, rfl, hchild.symm.trans hlinked.child⟩
      · rw [hword hparent hslot hnew] at hchild
        exact .inl ⟨role, hparent, hslot, hchild, hne⟩
    · rintro (⟨role, hparent, hslot, hchild, hne⟩ | ⟨rfl, rfl, rfl⟩)
      · refine ⟨role, hparent, hslot, ?_, hne⟩
        rw [hword hparent hslot ?_, hchild]
        rintro ⟨rfl, rfl⟩
        exact hne (hchild.symm.trans hlinked.slot)
      · have hplaced := (howned.placed hnodeKind).1
        exact ⟨_, hpageKind, hslotMem, hlinked.child, by omega⟩
  case leads =>
    intro other slot role hother hslot hlink
    by_cases hnew : other = page ∧ slot = childField index
    · obtain ⟨rfl, rfl⟩ := hnew
      rw [hpageKind] at hother
      cases hother
      rw [hlinked.child, Role.leads_child, hlinked.nodeType, hnodeRole, hnodeKind]
    · rw [hword hother hslot hnew] at hlink ⊢
      have hold := howned.leads hother hslot hlink
      rw [hold, Role.leads_congr rfl (hlinked.role_eq hpageKind hold)]
  case based =>
    intro other role hother hotherNode
    rw [hword hother (by simp [Role.slots_of_isNode hotherNode])
      fun h => ne_of_isNode hpageKind hother hotherNode h.1]
    exact howned.based hother hotherNode
  case parent =>
    intro start other place hstart hother hplace hchild
    rw [hlinked.indexChain howned hpageKind hnodeKind hisNode hstart] at hother
    by_cases hnew : other = page ∧ place = index
    · obtain ⟨rfl, rfl⟩ := hnew
      rw [hlinked.child, hlinked.parent]
      exact howned.indexChain_unique hdirectory hstart hchain hother
    · have hotherKind := howned.of_indexChain hstart hother
      have hplaceMem : childField place ∈ Role.index.slots :=
        mem_slots_index.mpr (.inr ⟨place, hplace, rfl⟩)
      rw [hword hotherKind hplaceMem
        fun h => hnew ⟨h.1, childField_injective h.2⟩] at hchild ⊢
      have hchildKind := howned.child hotherKind hplace hchild
      have hold := howned.link_child hstart hother hplace hchild
      have hnotNode : device.word other (childField place) ≠ node := by
        intro hsame
        exact howned.linked.unlinked hold (.inr (hsame ▸ hnode))
      have hsame := hlinked.others _ (ne_of_isNode hpageKind hchildKind (nodeRole_isNode _))
        hnotNode (by simp [hchildKind])
      rw [Device.word, hsame, ← Device.word]
      exact howned.parent hstart hother hplace hchild
  case free =>
    rw [hlinked.first]
    exact howned.free

end Owned

/-! ## Unlinking a node -/

/-- What `delete_file` changes in an index page: the children behind the file move up. -/
structure UnlinkedNode (device device' : Device) (kind : Nat → Option Role) (page index : Nat) :
    Prop where
  size : device'.size = device.size
  root : device'.rootDirectory = device.rootDirectory
  first : device'.firstFree = device.firstFree
  children : ∀ slot < directoryIndexChildrenSize, device'.word page (childField slot) ≠ 0 →
    device'.word page (childField slot) =
        device.word page (childField (if index ≤ slot then slot + 1 else slot)) ∧
      slot + 1 < directoryIndexChildrenSize
  next : device'.word page nextField = device.word page nextField
  pageUse : (device'.pages page).inUse = (device.pages page).inUse
  others : ∀ other, other ≠ page → kind other ≠ none → device'.pages other = device.pages other

/-- The slot that a child was in before the children from a slot on moved up. -/
def slotBefore (index slot : Nat) : Nat :=
  if childField index ≤ slot then slot + 8 else slot

theorem slotBefore_injective (index : Nat) : Function.Injective (slotBefore index) := by
  intro slot other hsame
  unfold slotBefore at hsame
  split at hsame <;> split at hsame <;> omega

theorem slotBefore_ne (index slot : Nat) : slotBefore index slot ≠ childField index := by
  unfold slotBefore
  split <;> omega

theorem slotBefore_childField (index slot : Nat) :
    slotBefore index (childField slot) = childField (if index ≤ slot then slot + 1 else slot) := by
  unfold slotBefore childField
  split <;> split <;> omega

theorem slotBefore_next (index : Nat) : slotBefore index nextField = nextField := by
  unfold slotBefore childField nextField
  rw [if_neg (by omega)]

theorem slotBefore_eq_next (index slot : Nat) :
    slotBefore index slot = nextField ↔ slot = nextField := by
  constructor
  · intro hsame
    exact slotBefore_injective index (hsame.trans (slotBefore_next index).symm)
  · rintro rfl
    exact slotBefore_next index

namespace UnlinkedNode

variable {device device' : Device} {pending : List (Nat × Role)} {kind : Nat → Option Role}
  {page index other slot : Nat} {role : Role}

theorem use_eq (hunlinked : UnlinkedNode device device' kind page index)
    (hother : kind other = some role) :
    (device'.pages other).inUse = (device.pages other).inUse := by
  by_cases hpage : other = page
  · rw [hpage, hunlinked.pageUse]
  · rw [hunlinked.others other hpage (by simp [hother])]

theorem pages_eq (hunlinked : UnlinkedNode device device' kind page index)
    (hpageKind : kind page = some .index) (hother : kind other = some role)
    (hotherNode : role.isNode = true) : device'.pages other = device.pages other :=
  hunlinked.others other (ne_of_isNode hpageKind hother hotherNode) (by simp [hother])

/-- A link of the new image is a link of the old one, at the slot from before. -/
theorem link_eq (hunlinked : UnlinkedNode device device' kind page index)
    (hpageKind : kind page = some .index) (hother : kind other = some role)
    (hslot : slot ∈ role.slots) (hne : device'.word other slot ≠ 0) :
    device'.word other slot =
        device.word other (if other = page then slotBefore index slot else slot) ∧
      (if other = page then slotBefore index slot else slot) ∈ role.slots := by
  by_cases hpage : other = page
  · subst hpage
    rw [hpageKind] at hother
    cases hother
    rw [if_pos rfl]
    rcases mem_slots_index.mp hslot with rfl | ⟨place, hplace, rfl⟩
    · rw [slotBefore_next]
      exact ⟨hunlinked.next, hslot⟩
    · obtain ⟨hword, hlast⟩ := hunlinked.children place hplace hne
      rw [slotBefore_childField]
      exact ⟨hword, mem_slots_index.mpr (.inr ⟨_, by split <;> omega, rfl⟩)⟩
  · rw [if_neg hpage, Device.word, hunlinked.others other hpage (by simp [hother])]
    exact ⟨rfl, hslot⟩

/-- A child of an index page was one before, at some slot. -/
theorem child_eq (hunlinked : UnlinkedNode device device' kind page index)
    (hother : kind other = some .index) {place : Nat} (hplace : place < directoryIndexChildrenSize)
    (hne : device'.word other (childField place) ≠ 0) :
    ∃ place' < directoryIndexChildrenSize,
      device'.word other (childField place) = device.word other (childField place') := by
  by_cases hpage : other = page
  · subst hpage
    obtain ⟨hword, hlast⟩ := hunlinked.children place hplace hne
    exact ⟨_, by split <;> omega, hword⟩
  · refine ⟨place, hplace, ?_⟩
    rw [Device.word, hunlinked.others other hpage (by simp [hother]), ← Device.word]

theorem indexChain (hunlinked : UnlinkedNode device device' kind page index)
    (howned : Owned device pending kind) (hpageKind : kind page = some .index)
    (hother : kind other = some .directory) {next : Nat} :
    IndexChain device' other next ↔ IndexChain device other next := by
  refine IndexChain.congr ?_ fun next hnext => ?_
  · rw [Device.word, hunlinked.pages_eq hpageKind hother rfl, ← Device.word]
  · by_cases hpage : next = page
    · rw [hpage, hunlinked.next]
    · have hnextKind := howned.of_indexChain hother hnext
      rw [Device.word, hunlinked.others next hpage (by simp [hnextKind]), ← Device.word]

end UnlinkedNode

namespace Owned

variable {device device' : Device} {pending : List (Nat × Role)} {kind : Nat → Option Role}

theorem detach (howned : Owned device pending kind) {page index node : Nat}
    (hunlinked : UnlinkedNode device device' kind page index)
    (hpageKind : kind page = some .index) (hindex : index < directoryIndexChildrenSize)
    (hchild : device.word page (childField index) = node) (hnode : node ≠ 0)
    (hnotRoot : node ≠ device.rootDirectory) :
    Owned device' ((node, nodeRole (device.pages node)) :: pending) kind := by
  have hslotMem : childField index ∈ Role.index.slots :=
    mem_slots_index.mpr (.inr ⟨index, hindex, rfl⟩)
  have hnodeKind : kind node = some (nodeRole (device.pages node)) := by
    rw [← hchild]
    exact howned.child hpageKind hindex (hchild ▸ hnode)
  constructor
  case root => rw [hunlinked.root]; exact howned.root
  case placed =>
    intro other role hother
    obtain ⟨hlower, hupper, hused⟩ := howned.placed hother
    exact ⟨hlower, hunlinked.size ▸ hupper, (hunlinked.use_eq hother).trans hused⟩
  case waiting =>
    intro other role hother
    rcases List.mem_cons.mp hother with hsame | hold
    · cases hsame
      refine ⟨hnodeKind, nodeRole_isNode _, ?_, hunlinked.root ▸ hnotRoot⟩
      rw [hunlinked.pages_eq hpageKind hnodeKind (nodeRole_isNode _)]
    · obtain ⟨hkind, hisNode, hrole, hne⟩ := howned.waiting hold
      exact ⟨hkind, hisNode, by rw [hunlinked.pages_eq hpageKind hkind hisNode, hrole],
        hunlinked.root ▸ hne⟩
  case linked =>
    have hbases : bases device' ((node, nodeRole (device.pages node)) :: pending) =
        insert node (bases device pending) := by
      rw [bases_cons, bases, hunlinked.root]
      rfl
    rw [hbases]
    refine howned.linked.detach ⟨_, hpageKind, hslotMem, hchild, hnode⟩
      (fun parent slot => if parent = page then slotBefore index slot else slot) ?_ ?_ ?_
    · intro parent slot other hsame
      by_cases hpage : parent = page
      · simp only [hpage, if_true] at hsame
        exact slotBefore_injective index hsame
      · simpa only [hpage, if_false] using hsame
    · rintro parent slot child ⟨role, hparent, hslot, rfl, hne⟩
      obtain ⟨hword, hmem⟩ := hunlinked.link_eq hpageKind hparent hslot hne
      exact ⟨role, hparent, hmem, hword.symm, hne⟩
    · intro slot
      simp only [if_true]
      exact slotBefore_ne index slot
  case leads =>
    intro other slot role hother hslot hne
    obtain ⟨hword, hmem⟩ := hunlinked.link_eq hpageKind hother hslot hne
    have hold := howned.leads hother hmem (hword ▸ hne)
    rw [← hword] at hold
    have hsame : role.leads slot (device.pages (device'.word other slot)) =
        role.leads (if other = page then slotBefore index slot else slot)
          (device.pages (device'.word other slot)) := by
      split
      next => simp only [Role.leads, ne_eq, slotBefore_eq_next]
      next => rfl
    have htarget : role.leads slot (device'.pages (device'.word other slot)) =
        role.leads slot (device.pages (device'.word other slot)) := by
      refine Role.leads_congr rfl fun hisNode => ?_
      rw [hunlinked.pages_eq hpageKind (hold.trans (congrArg some hsame.symm)) hisNode]
    rw [hold, htarget, hsame]
  case based =>
    intro other role hother hotherNode
    rw [Device.word, hunlinked.pages_eq hpageKind hother hotherNode]
    exact howned.based hother hotherNode
  case parent =>
    intro start other place hstart hother hplace hne
    rw [hunlinked.indexChain howned hpageKind hstart] at hother
    have hotherKind := howned.of_indexChain hstart hother
    obtain ⟨place', hplace', hword⟩ := hunlinked.child_eq hotherKind hplace hne
    rw [hword] at hne ⊢
    have hkind := howned.child hotherKind hplace' hne
    rw [Device.word, hunlinked.pages_eq hpageKind hkind (nodeRole_isNode _), ← Device.word]
    exact howned.parent hstart hother hplace' hne
  case free =>
    rw [hunlinked.first]
    exact howned.free

end Owned

/-! ## Giving up a node -/

/-- The roles without those of some pages. -/
def without (kind : Nat → Option Role) (gone : List Nat) (page : Nat) : Option Role :=
  if page ∈ gone then none else kind page

theorem without_eq_some {kind : Nat → Option Role} {gone : List Nat} {page : Nat} {role : Role} :
    without kind gone page = some role ↔ kind page = some role ∧ page ∉ gone := by
  unfold without
  split
  next hgone => simp [hgone]
  next hgone => simp [hgone]

theorem owned_without (kind : Nat → Option Role) (gone : List Nat) :
    owned (without kind gone) = owned kind \ {page | page ∈ gone} := by
  ext page
  simp only [owned, without]
  constructor
  · intro hpage
    by_cases hgone : page ∈ gone
    · exact absurd (if_pos hgone) hpage
    · exact ⟨fun hnone => hpage (by rw [if_neg hgone, hnone]), hgone⟩
  · rintro ⟨hpage, hgone⟩ hnone
    have hnot : page ∉ gone := hgone
    rw [if_neg hnot] at hnone
    exact hpage hnone

theorem bases_without {device : Device} {gone : List Nat} (pending : List (Nat × Role))
    (hroot : device.rootDirectory ∉ gone) :
    bases device (pending.filter fun entry => entry.1 ∉ gone) =
      bases device pending \ {page | page ∈ gone} := by
  ext page
  constructor
  · rintro (rfl | hpage)
    · exact ⟨.inl rfl, hroot⟩
    · obtain ⟨entry, hentry, rfl⟩ := List.mem_map.mp hpage
      rw [List.mem_filter, decide_eq_true_eq] at hentry
      exact ⟨.inr (List.mem_map.mpr ⟨entry, hentry.1, rfl⟩), hentry.2⟩
  · rintro ⟨rfl | hpage, hne⟩
    · exact .inl rfl
    · obtain ⟨entry, hentry, rfl⟩ := List.mem_map.mp hpage
      exact .inr (List.mem_map.mpr ⟨entry, List.mem_filter.mpr ⟨hentry, decide_eq_true hne⟩, rfl⟩)

namespace Owned

variable {device device' : Device} {pending : List (Nat × Role)} {kind : Nat → Option Role}

/-- Pages that are led to only from each other lose their roles. -/
theorem drop (howned : Owned device pending kind) {gone : List Nat}
    (hgone : ∀ page slot child, Link device kind page slot child → child ∈ gone → page ∈ gone)
    (hroot : device.rootDirectory ∉ gone) :
    Owned device (pending.filter fun entry => entry.1 ∉ gone) (without kind gone) := by
  have hkept {page slot child : Nat} {role : Role} (hpage : kind page = some role)
      (hslot : slot ∈ role.slots) (hchild : device.word page slot = child) (hne : child ≠ 0)
      (hnot : page ∉ gone) : child ∉ gone := fun hmem =>
    hnot (hgone page slot child ⟨role, hpage, hslot, hchild, hne⟩ hmem)
  constructor
  case root => exact without_eq_some.mpr ⟨howned.root, hroot⟩
  case placed =>
    intro page role hpage
    exact howned.placed (without_eq_some.mp hpage).1
  case waiting =>
    intro node role hnode
    obtain ⟨hmem, hnot⟩ := List.mem_filter.mp hnode
    obtain ⟨hkind, hrest⟩ := howned.waiting hmem
    exact ⟨without_eq_some.mpr ⟨hkind, by simpa using hnot⟩, hrest⟩
  case linked =>
    rw [owned_without, bases_without pending hroot]
    refine howned.linked.drop hgone fun parent slot child => ?_
    constructor
    · rintro ⟨role, hparent, hslot⟩
      exact ⟨⟨role, (without_eq_some.mp hparent).1, hslot⟩, (without_eq_some.mp hparent).2⟩
    · rintro ⟨⟨role, hparent, hslot⟩, hnot⟩
      exact ⟨role, without_eq_some.mpr ⟨hparent, hnot⟩, hslot⟩
  case leads =>
    intro page slot role hpage hslot hlink
    obtain ⟨hkind, hnot⟩ := without_eq_some.mp hpage
    exact without_eq_some.mpr ⟨howned.leads hkind hslot hlink, hkept hkind hslot rfl hlink hnot⟩
  case based =>
    intro page role hpage hnode
    exact howned.based (without_eq_some.mp hpage).1 hnode
  case parent =>
    intro directory page index hdirectory
    exact howned.parent (without_eq_some.mp hdirectory).1
  case free =>
    refine ⟨?_, howned.free.2⟩
    unfold without
    split
    next => rfl
    next => exact howned.free.1

end Owned

end PKernel.Pkfs
