import PKernel.Pkfs.Linking

/-! # The types of pages

Every page that the root directory leads to should have the type of what it is reached as, and a data
page the address of its file. A change of the device keeps this if it only adjusts the pages that are
reached.
-/

namespace PKernel.Pkfs

/-! ## Pages of the right type -/

/-- The type of the pages with a role. -/
def Role.pageType : Role → PageType
  | directory => .directory
  | index => .directoryIndex
  | file => .file
  | data => .fileData

/-- The pages of the data chain of a file. -/
inductive DataPage (device : Device) (file : Nat) : Nat → Prop
  | first (hne : device.word file targetField ≠ 0) :
      DataPage device file (device.word file targetField)
  | next {page : Nat} (hpage : DataPage device file page) (hne : device.word page nextField ≠ 0) :
      DataPage device file (device.word page nextField)

/-- What is reached has its type, and data pages have the address of their file. -/
structure Typed (device : Device) (start : Nat → Role → Prop) : Prop where
  type : ∀ {page role}, Reach device start page role →
    (device.pages page).type = role.pageType.code
  parent : ∀ {file page}, Reach device start file .file → DataPage device file page →
    device.word page parentField = file

/-- One node to start from. -/
def alone (node : Nat) (role : Role) (page : Nat) (pageRole : Role) : Prop :=
  page = node ∧ pageRole = role

/-- Two contents of a page with a role that have the same type and lead on alike, but for children
of an index page that were taken out or put in. -/
structure Adjusted (device : Device) (start : Nat → Role → Prop) (role : Role) (page page' : Page) :
    Prop where
  type : page'.type = page.type
  parent : role = .data → page'.word parentField = page.word parentField
  slots : ∀ slot ∈ role.slots, page'.word slot = page.word slot ∨
    role = .index ∧ slot ≠ nextField ∧ (page'.word slot = 0 ∨
      Reach device start (page'.word slot) (nodeRole (device.pages (page'.word slot))))

section Reached

variable {device : Device} {start other : Nat → Role → Prop} {node page file : Nat} {role pageRole : Role}

theorem Role.pageType_injective {role other : Role}
    (hsame : role.pageType.code = other.pageType.code) : role = other := by
  revert hsame
  cases role <;> cases other <;> decide

theorem Role.slot_pos (role : Role) {slot : Nat} (hslot : slot ∈ role.slots) : 0 < slot := by
  cases role with
  | directory => exact List.mem_singleton.mp hslot ▸ by decide
  | index =>
      rcases mem_slots_index.mp hslot with rfl | ⟨index, -, rfl⟩
      · decide
      · unfold childField
        omega
  | file => exact List.mem_singleton.mp hslot ▸ by decide
  | data => exact List.mem_singleton.mp hslot ▸ by decide

theorem nodeRole_congr {page page' : Page} (htype : page'.type = page.type) :
    nodeRole page' = nodeRole page := by
  rw [nodeRole, nodeRole, htype]

theorem Role.leads_of_type {page page' : Page} (role : Role) (slot : Nat)
    (htype : page'.type = page.type) : role.leads slot page' = role.leads slot page := by
  rw [Role.leads, Role.leads, nodeRole_congr htype]

/-- What is reached from two kinds of places is reached from one of them. -/
theorem Reach.of_union (hreach : Reach device (fun page role => start page role ∨ other page role) page role) :
    Reach device start page role ∨ Reach device other page role := by
  induction hreach with
  | start hstart => exact hstart.imp .start .start
  | link _ hslot hlink ih => exact ih.imp (·.link hslot hlink) (·.link hslot hlink)

theorem Reach.trans (hnode : Reach device start node role)
    (hreach : Reach device (alone node role) page pageRole) : Reach device start page pageRole := by
  induction hreach with
  | start hstart =>
      obtain ⟨rfl, rfl⟩ := hstart
      exact hnode
  | link _ hslot hlink ih => exact ih.link hslot hlink

theorem DataPage.reach (hpage : DataPage device file page) (hfile : Reach device start file .file) :
    Reach device start page .data := by
  induction hpage with
  | first hne => exact hfile.link (List.mem_singleton.mpr rfl) hne
  | next _ hne ih => exact ih.link (List.mem_singleton.mpr rfl) hne

namespace Typed

/-- The types are right from every node on that is reached. -/
theorem alone (htyped : Typed device start) (hnode : Reach device start node role) :
    Typed device (Pkfs.alone node role) :=
  ⟨fun hreach => htyped.type (hnode.trans hreach), fun hfile => htyped.parent (hnode.trans hfile)⟩

theorem union (htyped : Typed device start) (hother : Typed device other) :
    Typed device fun page role => start page role ∨ other page role :=
  ⟨fun hreach => hreach.of_union.elim htyped.type hother.type,
    fun hfile => hfile.of_union.elim htyped.parent hother.parent⟩

/-- A page is reached in one role. -/
theorem role_eq (htyped : Typed device start) (hother : Typed device other)
    (hreach : Reach device start page role) (hreach' : Reach device other page pageRole) :
    role = pageRole :=
  Role.pageType_injective ((htyped.type hreach).symm.trans (hother.type hreach'))

/-- A change that only adjusts the pages that are reached keeps their types right. -/
theorem change {device' : Device} {start' : Nat → Role → Prop} (htyped : Typed device start)
    (hstart : ∀ page role, start' page role → start page role)
    (hpages : ∀ page role, Reach device start page role →
      Adjusted device start role (device.pages page) (device'.pages page)) :
    Typed device' start' := by
  have hreached : ∀ {page role}, Reach device' start' page role → Reach device start page role := by
    intro page role hreach
    induction hreach with
    | start hstart' => exact .start (hstart _ _ hstart')
    | @link page slot role _ hslot hlink ih =>
        have htarget : Reach device start (device'.word page slot)
            (role.leads slot (device.pages (device'.word page slot))) := by
          rcases (hpages page role ih).slots slot hslot with hsame | ⟨rfl, hchild, hzero | hnew⟩
          · have hword : device'.word page slot = device.word page slot := hsame
            rw [hword] at hlink ⊢
            exact ih.link hslot hlink
          · exact absurd hzero hlink
          · rw [Role.leads, if_pos ⟨rfl, hchild⟩]
            exact hnew
        rwa [Role.leads_of_type role slot (hpages _ _ htarget).type]
  have hkept : ∀ {page role slot}, Reach device start page role → slot ∈ role.slots →
      role ≠ .index → device'.word page slot = device.word page slot := by
    intro page role slot hreach hslot hne
    exact ((hpages page role hreach).slots slot hslot).resolve_right fun hindex => hne hindex.1
  have hdata : ∀ {file page}, Reach device start file .file → DataPage device' file page →
      DataPage device file page := by
    intro file page hfile hpage
    induction hpage with
    | first hne =>
        have hsame := hkept hfile (List.mem_singleton.mpr rfl) (by decide)
        rw [hsame] at hne ⊢
        exact .first hne
    | next _ hne ih =>
        have hsame := hkept (ih.reach hfile) (List.mem_singleton.mpr rfl) (by decide)
        rw [hsame] at hne ⊢
        exact ih.next hne
  constructor
  case type =>
    intro page role hreach
    rw [(hpages _ _ (hreached hreach)).type, htyped.type (hreached hreach)]
  case parent =>
    intro file page hfile hpage
    have hold := hdata (hreached hfile) hpage
    have hsame : device'.word page parentField = device.word page parentField :=
      (hpages _ _ (hold.reach (hreached hfile))).parent rfl
    rw [hsame, htyped.parent (hreached hfile) hold]

end Typed

namespace Adjusted

variable {page' : Page} {contents : Page}

theorem refl (role : Role) (contents : Page) : Adjusted device start role contents contents :=
  ⟨rfl, fun _ => rfl, fun _ _ => .inl rfl⟩

/-- The first byte has nothing that counts. -/
theorem of_bytes (role : Role)
    (hbytes : ∀ place, 0 < place → page'.bytes place = contents.bytes place) :
    Adjusted device start role contents page' := by
  have hword {offset : Nat} (hoffset : 0 < offset) : page'.word offset = contents.word offset :=
    Page.word_congr fun place hplace _ => hbytes place (by omega)
  exact ⟨hbytes 1 (by decide), fun _ => hword (by decide),
    fun slot hslot => .inl (hword (role.slot_pos hslot))⟩

/-- A node keeps its address when it gets a name that ends in front of it. -/
theorem named (hnode : role.isNode = true) (contents : Page) (directory : Nat) {name : List UInt8}
    (hname : name.length < targetField - 2) :
    Adjusted device start role contents (namedPage contents name directory) := by
  refine ⟨namedPage_type contents directory, fun hdata => ?_, fun slot hslot => ?_⟩
  · rw [hdata] at hnode
    cases hnode
  · rw [Role.slots_of_isNode hnode] at hslot
    obtain rfl := List.mem_singleton.mp hslot
    exact .inl (namedPage_target contents directory hname)

/-- A new child that is reached. -/
theorem child (contents : Page) (index : Nat) (hnode : node < 2 ^ 64)
    (hreach : Reach device start node (nodeRole (device.pages node))) :
    Adjusted device start .index contents (contents.setWord (childField index) node) := by
  refine ⟨Page.type_setWord _ (by unfold childField; omega), nofun, fun slot hslot => ?_⟩
  rcases mem_slots_index.mp hslot with rfl | ⟨other, -, rfl⟩
  · exact .inl (Page.word_setWord_of_disjoint _ (.inl (by unfold childField nextField; omega)))
  · by_cases hsame : other = index
    · subst hsame
      rw [Page.word_setWord_same _ hnode]
      exact .inr ⟨rfl, childField_ne_nextField other, .inr hreach⟩
    · exact .inl (word_childField_setWord_of_ne _ hsame)

/-- The children behind a slot that move up are still children. -/
theorem shifted (hreach : Reach device start page .index) (index : Nat) :
    Adjusted device start .index (device.pages page) (shiftChildren (device.pages page) index) := by
  refine ⟨shiftChildren_bytes _ index (by decide), nofun, fun slot hslot => ?_⟩
  rcases mem_slots_index.mp hslot with rfl | ⟨other, hother, rfl⟩
  · exact .inl (shiftChildren_next _ index)
  · refine .inr ⟨rfl, childField_ne_nextField other, ?_⟩
    by_cases hzero : (shiftChildren (device.pages page) index).word (childField other) = 0
    · exact .inl hzero
    · right
      obtain ⟨hmoved, hbehind⟩ := shiftChildren_child (device.pages page) index hother hzero
      rw [hmoved] at hzero ⊢
      have hold := hreach.link
        (mem_slots_index.mpr (.inr ⟨if index ≤ other then other + 1 else other, by grind, rfl⟩)) hzero
      rwa [Role.leads_child] at hold

/-- New data change neither the addresses in a data page nor its type. -/
theorem appended (contents : Page) (buffer : List UInt8) :
    Adjusted device start .data contents (Pkfs.appended contents buffer) := by
  refine ⟨?_, fun _ => ?_, fun slot hslot => ?_⟩
  · rw [Pkfs.appended, Page.type_setSize, Page.type_copy _ _ (by omega)]
  · rw [Pkfs.appended, Page.word_setSize _ _ (by decide),
      Page.word_copy _ (.inl (by unfold parentField; omega))]
  · obtain rfl := List.mem_singleton.mp hslot
    exact .inl (appended_next contents buffer)

end Adjusted

end Reached

/-! ## Images -/

/-- `FILESYSTEM_ROOT_SIGNATURE` in the root page, without which `open_filesystem` halts. -/
def Signed (device : Device) : Prop :=
  (List.range 4).map (fun index => (device.pages rootAddress).bytes (1 + index)) = [80, 75, 70, 83]

instance (device : Device) : Decidable (Signed device) := inferInstanceAs (Decidable (_ = _))

/-- An image whose root directory leads to pages of the right types. -/
structure TypedImage (device : Device) : Prop where
  signed : Signed device
  typed : Typed device (fromRoot device)

/-- A page behind the root page that the root directory leads to in some roles only. -/
structure OnlyAs (device : Device) (allowed : Role → Prop) (page : Nat) : Prop where
  ne : page ≠ rootAddress
  role : ∀ {role}, Reach device (fromRoot device) page role → allowed role

section Images

variable {device device' : Device} {start : Nat → Role → Prop} {page : Nat} {role : Role}

/-- The signature is no type. -/
theorem Signed.ne_root (hsigned : Signed device) (htyped : Typed device start)
    (hreach : Reach device start page role) : page ≠ rootAddress := by
  rintro rfl
  have hletter : (device.pages rootAddress).type = 80 := (List.cons.inj hsigned).1
  have htype := htyped.type hreach
  rw [hletter] at htype
  cases role <;> cases htype

/-- The root page is the same up to `first_free`. -/
def SameRoot (device device' : Device) : Prop :=
  ∀ place, 0 < place → place < firstFreeField →
    (device'.pages rootAddress).bytes place = (device.pages rootAddress).bytes place

namespace SameRoot

theorem refl (device : Device) : SameRoot device device := fun _ _ _ => rfl

theorem symm (hroot : SameRoot device device') : SameRoot device' device :=
  fun place hlower hupper => (hroot place hlower hupper).symm

theorem trans {last : Device} (hroot : SameRoot device device') (hlast : SameRoot device' last) :
    SameRoot device last :=
  fun place hlower hupper => (hlast place hlower hupper).trans (hroot place hlower hupper)

theorem signed (hroot : SameRoot device device') (hsigned : Signed device) : Signed device' := by
  rw [Signed, ← hsigned]
  refine List.map_congr_left fun index hindex => hroot _ (by omega) ?_
  have hlt := List.mem_range.mp hindex
  unfold firstFreeField
  omega

theorem rootDirectory (hroot : SameRoot device device') :
    device'.rootDirectory = device.rootDirectory := by
  refine Page.word_congr fun place hlower hupper => hroot place ?_ hupper
  unfold rootDirectoryField at hlower
  omega

theorem set (hroot : SameRoot device device') (contents : Page) (hpage : page ≠ rootAddress) :
    SameRoot device (device'.set page contents) := by
  intro place hlower hupper
  rw [Device.set_pages_of_ne _ _ hpage.symm]
  exact hroot place hlower hupper

/-- Where the root page is written with another `first_free`. -/
theorem setFirstFree (device device' : Device) (free : Nat) :
    SameRoot device
      (device'.set rootAddress ((device.pages rootAddress).setWord firstFreeField free)) := by
  intro place _ hupper
  rw [Device.set_pages_self, Page.bytes_setWord _ (.inl hupper)]

end SameRoot

namespace TypedImage

theorem change (himage : TypedImage device) (htyped : Typed device start)
    (hstart : ∀ page role, fromRoot device page role → start page role)
    (hroot : SameRoot device device')
    (hpages : ∀ page role, page ≠ rootAddress → Reach device start page role →
      Adjusted device start role (device.pages page) (device'.pages page)) :
    TypedImage device' := by
  refine ⟨hroot.signed himage.signed, htyped.change ?_ fun page role hreach => ?_⟩
  · intro page role hfrom
    rw [fromRoot, hroot.rootDirectory] at hfrom
    exact hstart page role hfrom
  · exact hpages page role (himage.signed.ne_root htyped hreach) hreach

/-- Writes that only adjust what the root directory leads to. -/
theorem adjust (himage : TypedImage device) (hroot : SameRoot device device')
    (hpages : ∀ page role, page ≠ rootAddress → Reach device (fromRoot device) page role →
      Adjusted device (fromRoot device) role (device.pages page) (device'.pages page)) :
    TypedImage device' :=
  himage.change himage.typed (fun _ _ hfrom => hfrom) hroot hpages

end TypedImage

end Images

end PKernel.Pkfs
