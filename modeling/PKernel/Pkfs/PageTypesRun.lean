import PKernel.Pkfs.PageTypes

/-! # Runs and the types of pages

`create_file` gives the data page of a new file the type of a file, so that a link of the file
loses the types. Runs of calls that take pages for what they are, and that link only nodes whose
pages are right, keep them. A call may end with a failed transfer.
-/

namespace PKernel.Pkfs

open Library.Transition Library.ByteMemory Operation

section Calls

variable {device device' : Device} {start : Nat → Role → Prop} {page : Nat} {role : Role}

/-! ## Making a node -/

/-- The pages that `create_file` and `create_dir` may take. -/
def FreePage (device : Device) (page : Nat) : Prop :=
  page = device.firstFree ∨ device.firstFree < page ∧ (device.pages page).inUse = false

theorem discRead_device {address : Nat} {result : Option Page}
    (hcall : discRead address device = .ok (result, device')) : device = device' :=
  (Prod.mk.inj (Except.ok.inj hcall)).2

theorem discWrite_of_none {address : Nat} {contents : Page}
    (hcall : discWrite address contents device = .ok (none, device')) : device = device' := by
  unfold discWrite at hcall
  split at hcall
  next => cases hcall
  next => exact (Prod.mk.inj (Except.ok.inj hcall)).2

/-- However making a node ends, only free pages and `first_free` were written. -/
theorem createWith_writes {nodePage bodyPage : Nat → Page} {result : Option Nat}
    (hcall : createWith nodePage bodyPage device = .ok (result, device')) :
    ∃ middle : Device, (∀ page, ¬FreePage device page → middle.pages page = device.pages page) ∧
      (device' = middle ∨ ∃ free, device' =
        middle.set rootAddress ((device.pages rootAddress).setWord firstFreeField free)) := by
  have hsame : ∀ page, ¬FreePage device page → device.pages page = device.pages page :=
    fun _ _ => rfl
  unfold createWith at hcall
  rcases bind_cases hcall with hread | ⟨rootNode, _, hread, hcall⟩
  · exact ⟨device, hsame, .inl (discRead_device hread).symm⟩
  obtain ⟨-, rfl, rfl⟩ := discRead_eq_ok.mp hread
  have hfirst : (device.pages rootAddress).word firstFreeField = device.firstFree := rfl
  simp only [hfirst] at hcall
  rcases bind_cases hcall with hnext | ⟨below, _, hnext, hcall⟩
  · exact ⟨device, hsame, .inl (nextFree_device hnext).symm⟩
  obtain rfl := nextFree_device hnext
  rcases bind_cases hcall with hwrite | ⟨_, _, hwrite, hcall⟩
  · exact ⟨device, hsame, .inl (discWrite_of_none hwrite).symm⟩
  obtain ⟨htop, rfl⟩ := discWrite_eq_ok.mp hwrite
  obtain ⟨-, hbehind, -, hbelow, -⟩ := (nextFree_eq_ok htop).mp hnext
  have hnode : ∀ page, ¬FreePage device page →
      (device.set device.firstFree (nodePage below)).pages page = device.pages page :=
    fun page hpage => Device.set_pages_of_ne _ _ fun hsame => hpage (.inl hsame)
  rcases bind_cases hcall with hwrite | ⟨_, _, hwrite, hcall⟩
  · exact ⟨_, hnode, .inl (discWrite_of_none hwrite).symm⟩
  obtain ⟨-, rfl⟩ := discWrite_eq_ok.mp hwrite
  have hbody : ∀ page, ¬FreePage device page →
      ((device.set device.firstFree (nodePage below)).set below
        (bodyPage device.firstFree)).pages page = device.pages page := by
    intro page hpage
    rw [Device.set_pages_of_ne, hnode page hpage]
    rintro rfl
    exact hpage (.inr ⟨hbehind, hbelow⟩)
  rcases bind_cases hcall with hnext | ⟨free, _, hnext, hcall⟩
  · exact ⟨_, hbody, .inl (nextFree_device hnext).symm⟩
  obtain rfl := nextFree_device hnext
  rcases bind_cases hcall with hwrite | ⟨_, _, hwrite, hcall⟩
  · exact ⟨_, hbody, .inl (discWrite_of_none hwrite).symm⟩
  obtain ⟨-, rfl⟩ := discWrite_eq_ok.mp hwrite
  exact ⟨_, hbody, .inr ⟨free, (Prod.mk.inj (Except.ok.inj hcall)).2.symm⟩⟩

theorem TypedImage.created (himage : TypedImage device)
    (hfree : ∀ page, FreePage device page → OnlyAs device (fun _ => False) page)
    {nodePage bodyPage : Nat → Page} {result : Option Nat}
    (hcall : createWith nodePage bodyPage device = .ok (result, device')) : TypedImage device' := by
  obtain ⟨middle, hmiddle, hdevice⟩ := createWith_writes hcall
  have hkept : ∀ page role, page ≠ rootAddress → Reach device (fromRoot device) page role →
      device'.pages page = device.pages page := by
    intro page role hne hreach
    have hpage := hmiddle page fun hpage => (hfree page hpage).role hreach
    rcases hdevice with rfl | ⟨free, rfl⟩
    · exact hpage
    · rwa [Device.set_pages_of_ne _ _ hne]
  have hroot : SameRoot device device' := by
    rcases hdevice with rfl | ⟨free, rfl⟩
    · intro place _ _
      rw [hmiddle rootAddress fun hpage => (hfree rootAddress hpage).ne rfl]
    · exact .setFirstFree device middle free
  refine himage.adjust hroot fun page role hne hreach => ?_
  rw [hkept page role hne hreach]
  exact .refl role _

/-! ## Linking a node -/

/-- A link adjusts nodes and index pages, if what it links is reached. -/
theorem linkedTo_adjusted {directory node index : Nat} {name : List UInt8}
    (hname : name.length < targetField - 2) (hnode : node < device.size)
    (hnodeRole : ∀ role, Reach device start node role → role.isNode = true)
    (hindexRole : ∀ role, Reach device start (device.word directory targetField) role →
      role = .index ∧ Reach device start node (nodeRole (device.pages node)))
    (hreach : Reach device start page role) :
    Adjusted device start role (device.pages page)
      ((linkedTo device directory node name index).pages page) := by
  have hsize := device.size_lt
  by_cases hindex : page = device.word directory targetField
  · subst hindex
    obtain ⟨rfl, hchild⟩ := hindexRole role hreach
    rw [linkedTo_pages_index]
    exact .child _ index (by omega) hchild
  · by_cases hsame : page = node
    · subst hsame
      rw [linkedTo_pages_node hindex]
      exact .named (hnodeRole role hreach) _ directory hname
    · rw [linkedTo_pages_of_ne hindex hsame]
      exact .refl role _

/-- What `link_node` may link: it has an address in its page behind the name, pages are written as
what they are reached as, and a node that gets reached has pages of the right types. -/
structure Linkable (device : Device) (directory node : Nat) (name : List UInt8) : Prop where
  fits : name.length < targetField - 2
  asNode : OnlyAs device (fun role => role.isNode = true) node
  asIndex : OnlyAs device (fun role => role = .index) (device.word directory targetField)
  typed : Reach device (fromRoot device) (device.word directory targetField) .index →
    Typed device (alone node (nodeRole (device.pages node)))

theorem TypedImage.linkedTo (himage : TypedImage device) {directory node : Nat} (index : Nat)
    {name : List UInt8} (hlinkable : Linkable device directory node name)
    (hnode : node < device.size) : TypedImage (linkedTo device directory node name index) := by
  have hroot : SameRoot device (Pkfs.linkedTo device directory node name index) :=
    ((SameRoot.refl device).set _ hlinkable.asNode.ne).set _ hlinkable.asIndex.ne
  by_cases hindex : Reach device (fromRoot device) (device.word directory targetField) .index
  · have htyped := himage.typed.union (hlinkable.typed hindex)
    have hstart : Reach device (fun page role => fromRoot device page role ∨
        alone node (nodeRole (device.pages node)) page role) node (nodeRole (device.pages node)) :=
      .start (.inr ⟨rfl, rfl⟩)
    refine himage.change htyped (fun _ _ hfrom => .inl hfrom) hroot fun page role _ hreach => ?_
    refine linkedTo_adjusted hlinkable.fits hnode (fun role hrole => ?_) (fun role hrole => ?_) hreach
    · rw [htyped.role_eq htyped hrole hstart]
      exact nodeRole_isNode _
    · exact ⟨htyped.role_eq himage.typed hrole hindex, hstart⟩
  · refine himage.adjust hroot fun page role _ hreach => ?_
    refine linkedTo_adjusted hlinkable.fits hnode (fun role hrole => hlinkable.asNode.role hrole)
      (fun role hrole => ?_) hreach
    obtain rfl := hlinkable.asIndex.role hrole
    exact absurd hrole hindex

theorem linkedTo_type (directory node index : Nat) (name : List UInt8) (page : Nat) :
    ((linkedTo device directory node name index).pages page).type = (device.pages page).type := by
  by_cases hindex : page = device.word directory targetField
  · rw [hindex, linkedTo_pages_index, Page.type_setWord _ (by unfold childField; omega)]
  · by_cases hsame : page = node
    · rw [hsame, linkedTo_pages_node (hsame ▸ hindex), namedPage_type]
    · rw [linkedTo_pages_of_ne hindex hsame]

/-- What was reached before a link still is. -/
theorem linkedTo_reach {directory node index : Nat} {name : List UInt8}
    (hname : name.length < targetField - 2)
    (hnodeRole : ∀ role, Reach device start node role → role.isNode = true)
    (hindexRole : ∀ role, Reach device start (device.word directory targetField) role → role = .index)
    (hslot : device.word (device.word directory targetField) (childField index) = 0)
    (hreach : Reach device start page role) :
    Reach (linkedTo device directory node name index) start page role := by
  induction hreach with
  | start hstart => exact .start hstart
  | @link page slot role hpage hpageSlot hlink ih =>
      have hword : (linkedTo device directory node name index).word page slot =
          device.word page slot := by
        by_cases hindex : page = device.word directory targetField
        · subst hindex
          obtain rfl := hindexRole role hpage
          rw [Device.word, linkedTo_pages_index]
          rcases mem_slots_index.mp hpageSlot with rfl | ⟨other, -, rfl⟩
          · exact Page.word_setWord_of_disjoint _ (.inl (by unfold childField nextField; omega))
          · refine word_childField_setWord_of_ne _ fun hsame => hlink ?_
            rw [hsame, hslot]
        · by_cases hsame : page = node
          · subst hsame
            rw [Role.slots_of_isNode (hnodeRole role hpage)] at hpageSlot
            obtain rfl := List.mem_singleton.mp hpageSlot
            rw [Device.word, linkedTo_pages_node hindex, namedPage_target _ _ hname]
            rfl
          · rw [Device.word, linkedTo_pages_of_ne hindex hsame]
            rfl
      have hlinked := ih.link hpageSlot (hword ▸ hlink)
      rwa [hword, Role.leads_of_type role slot (linkedTo_type directory node index name _)] at hlinked

/-- A link into a directory that is reached keeps the types right only if they are right from the
node on. -/
theorem Typed.of_linkedTo {directory node index : Nat} {name : List UInt8}
    (hlinked : Typed (linkedTo device directory node name index)
      (fromRoot (linkedTo device directory node name index))) (hname : name.length < targetField - 2)
    (hasNode : OnlyAs device (fun role => role.isNode = true) node)
    (hasIndex : OnlyAs device (fun role => role = .index) (device.word directory targetField))
    (hreach : Reach device (fromRoot device) (device.word directory targetField) .index)
    (hnode : node < device.size) (hne : node ≠ 0)
    (hslot : freeSlot? (device.pages (device.word directory targetField)) = some index) :
    Typed device (Pkfs.alone node (nodeRole (device.pages node))) := by
  obtain ⟨hindex, hfree, -⟩ := freeSlot?_eq_some.mp hslot
  have hsize := device.size_lt
  have hroot : SameRoot device (linkedTo device directory node name index) :=
    ((SameRoot.refl device).set _ hasNode.ne).set _ hasIndex.ne
  have hstart : fromRoot (linkedTo device directory node name index) = fromRoot device := by
    funext page role
    rw [fromRoot, fromRoot, hroot.rootDirectory]
  have hpage : Reach (linkedTo device directory node name index) (fromRoot device)
      (device.word directory targetField) .index :=
    linkedTo_reach hname (fun role hrole => hasNode.role hrole)
      (fun role hrole => hasIndex.role hrole) hfree hreach
  have hword : (linkedTo device directory node name index).word
      (device.word directory targetField) (childField index) = node := by
    rw [Device.word, linkedTo_pages_index, Page.word_setWord_same _ (by omega)]
  have hchild := hpage.link (mem_slots_index.mpr (.inr ⟨index, hindex, rfl⟩)) (hword.trans_ne hne)
  rw [hword, Role.leads_child, nodeRole_congr (linkedTo_type directory node index name node)]
    at hchild
  rw [← hstart] at hpage hchild
  have htyped := hlinked.alone hchild
  refine htyped.change (fun _ _ hsame => hsame) fun page role hpageReach => ?_
  by_cases hpageIndex : page = device.word directory targetField
  · subst hpageIndex
    obtain rfl := htyped.role_eq hlinked hpageReach hpage
    rw [linkedTo_pages_index]
    refine ⟨(Page.type_setWord _ (by unfold childField; omega)).symm,
      fun hdata => absurd hdata (by decide), fun slot hslot => ?_⟩
    rcases mem_slots_index.mp hslot with rfl | ⟨other, -, rfl⟩
    · exact .inl (Page.word_setWord_of_disjoint _
        (.inl (by unfold childField nextField; omega))).symm
    · by_cases hother : other = index
      · subst hother
        exact .inr ⟨rfl, childField_ne_nextField other, .inl hfree⟩
      · exact .inl (word_childField_setWord_of_ne _ hother).symm
  · by_cases hsame : page = node
    · subst hsame
      have hrole := htyped.role_eq hlinked hpageReach hchild
      rw [linkedTo_pages_node hpageIndex]
      refine ⟨(namedPage_type _ directory).symm, fun hdata => ?_, fun slot hslot => ?_⟩
      · have hisNode := nodeRole_isNode (device.pages page)
        rw [← hrole, hdata] at hisNode
        cases hisNode
      · rw [hrole, Role.slots_of_isNode (nodeRole_isNode _)] at hslot
        obtain rfl := List.mem_singleton.mp hslot
        exact .inl (namedPage_target _ directory hname).symm
    · rw [linkedTo_pages_of_ne hpageIndex hsame]
      exact .refl role _

theorem TypedImage.link (himage : TypedImage device) {directory node : Nat} {name : List UInt8}
    (hlinkable : Refuses device directory node ∨ Linkable device directory node name)
    {result : Option Bool} (hcall : linkNode directory node name device = .ok (result, device')) :
    TypedImage device' := by
  by_cases hrefuses : Refuses device directory node
  · obtain ⟨result', hsame, -⟩ := linkNode_of_refuses hrefuses name
    rw [hsame] at hcall
    cases hcall
    exact himage
  · have hlinkable := hlinkable.resolve_left hrefuses
    obtain ⟨hdirectory, hindex, hnode, index, hslot⟩ := exists_of_not_refuses hrefuses
    have hname := hlinkable.fits
    rw [linkNode_of_fits hdirectory hindex hnode (by unfold targetField at hname; omega), hslot]
      at hcall
    cases hcall
    exact himage.linkedTo index hlinkable hnode

/-- A file that `create_file` has just made does not have pages of the right types. -/
theorem not_typed_of_createFile {node : Nat} (hfree : ∀ page, FreePage device page → page ≠ rootAddress)
    (hcall : createFile device = .ok (some node, device')) :
    (device'.pages node).type = PageType.file.code ∧ ¬Typed device' (alone node .file) := by
  obtain ⟨below, free, htaken, rfl⟩ := createWith_eq_ok hcall
  have htopLt := htaken.top_lt
  have hbelowLt := htaken.below_lt
  have hfreeLt := htaken.free_lt
  have hsize := device.size_lt
  have htop := hfree node (.inl htaken.first)
  have hbelow := hfree below (.inr ⟨htaken.first ▸ htopLt, htaken.below_free⟩)
  have hnode : (created device (newNodePage .file) newFileData node below free).pages node =
      newNodePage .file below := created_pages_top htop (by omega)
  have htarget : (created device (newNodePage .file) newFileData node below free).word node
      targetField = below := by
    rw [Device.word, hnode, newNodePage_target .file (by omega)]
  refine ⟨by rw [hnode, newNodePage_type], fun htyped => ?_⟩
  have hstart : Reach (created device (newNodePage .file) newFileData node below free)
      (alone node .file) node .file := .start ⟨rfl, rfl⟩
  have hdata := htyped.type (hstart.link (List.mem_singleton.mpr rfl) (htarget.trans_ne (by omega)))
  rw [htarget, created_pages_below hbelow, newFileData_type] at hdata
  cases hdata

/-- Linking a file that `create_file` has just made, where it gets reached, loses the types. -/
theorem not_typed_of_created_link {made linked : Device} {directory node : Nat} {name : List UInt8}
    (himage : TypedImage device)
    (hfree : ∀ page, FreePage device page → OnlyAs device (fun _ => False) page)
    (hcreate : createFile device = .ok (some node, made)) (hne : node ≠ 0)
    (hname : name.length < targetField - 2)
    (hreach : Reach made (fromRoot made) (made.word directory targetField) .index)
    (hlink : linkNode directory node name made = .ok (some true, linked)) :
    ¬Typed linked (fromRoot linked) := by
  intro hlinked
  have hmade := himage.created hfree hcreate
  obtain ⟨htype, hwrong⟩ := not_typed_of_createFile (fun page hpage => (hfree page hpage).ne) hcreate
  obtain ⟨-, ⟨hfalse, -⟩ | ⟨-, index, hslot, hnode, rfl⟩⟩ := linkNode_eq_ok hlink
  · cases hfalse
  have hasNode : OnlyAs made (fun role => role.isNode = true) node := by
    obtain ⟨below, free, htaken, -⟩ := createWith_eq_ok hcreate
    refine ⟨(hfree node (.inl htaken.first)).ne, fun {role} hrole => ?_⟩
    obtain rfl : role = .file :=
      Role.pageType_injective ((hmade.typed.type hrole).symm.trans htype)
    rfl
  have hasIndex : OnlyAs made (fun role => role = .index) (made.word directory targetField) :=
    ⟨hmade.signed.ne_root hmade.typed hreach, fun hrole => hmade.typed.role_eq hmade.typed hrole hreach⟩
  have htyped := hlinked.of_linkedTo hname hasNode hasIndex hreach hnode hne hslot
  rw [nodeRole, htype, if_neg (by decide)] at htyped
  exact hwrong htyped

/-! ## Writing to a file -/

/-- Behind the first page the loop does not return after it has written. -/
theorem writeLoop_device {buffer : List UInt8} {offset fuel addr : Nat} {result : Option Unit}
    (hoffset : fileDataPageSize ≤ offset) (hfree : HasFree device)
    (hcall : writeLoop buffer offset fuel addr device = .ok (result, device')) : device' = device := by
  induction fuel generalizing addr with
  | zero => simp [writeLoop] at hcall
  | succ fuel ih =>
      unfold writeLoop at hcall
      rcases bind_cases hcall with hread | ⟨_, _, hread, hrest⟩
      · exact (discRead_device hread).symm
      obtain ⟨haddr, rfl, rfl⟩ := discRead_eq_ok.mp hread
      rw [if_neg (Nat.not_lt.mpr hoffset)] at hrest
      split at hrest
      next hlast =>
        have hchain : DataChain device (device.word addr nextField) [] := hlast
        have hbehind := writeLoop_behind buffer hoffset (fuel + 1) haddr hchain hfree
        unfold writeLoop at hbehind
        rw [hbehind] at hcall
        cases hcall
      next => exact ih hrest

/-- However `write_file` ends, only the first data page of the file was written. -/
theorem writeFile_writes {fuel file offset : Nat} {buffer : List UInt8} {result : Option Nat}
    (hoffset : offset < fileDataPageSize ∨ HasFree device)
    (hcall : writeFile fuel file buffer offset device = .ok (result, device')) :
    device' = device ∨ device' = device.set (device.word file targetField)
      (appended (device.pages (device.word file targetField)) buffer) := by
  unfold writeFile at hcall
  rcases bind_cases hcall with hread | ⟨_, _, hread, hcall⟩
  · exact .inl (discRead_device hread).symm
  obtain ⟨-, rfl, rfl⟩ := discRead_eq_ok.mp hread
  have hloop : ∃ outcome, writeLoop buffer offset fuel (device.word file targetField) device =
      .ok (outcome, device') := by
    rcases bind_cases hcall with hloop | ⟨_, _, hloop, hcall⟩
    · exact ⟨_, hloop⟩
    · cases hcall
      exact ⟨_, hloop⟩
  obtain ⟨outcome, hloop⟩ := hloop
  by_cases hfront : offset < fileDataPageSize
  · cases fuel with
    | zero => simp [writeLoop] at hloop
    | succ fuel =>
        unfold writeLoop at hloop
        rcases bind_cases hloop with hread | ⟨_, _, hread, hloop⟩
        · exact .inl (discRead_device hread).symm
        obtain ⟨-, rfl, rfl⟩ := discRead_eq_ok.mp hread
        rw [if_pos hfront] at hloop
        split at hloop
        next => cases hloop
        next =>
          cases outcome with
          | none => exact .inl (discWrite_of_none hloop).symm
          | some _ => exact .inr (discWrite_eq_ok.mp hloop).2
  · exact .inl (writeLoop_device (Nat.not_lt.mp hfront) (hoffset.resolve_left hfront) hloop)

theorem TypedImage.write (himage : TypedImage device) {fuel file offset : Nat} {buffer : List UInt8}
    {result : Option Nat}
    (hpage : OnlyAs device (fun role => role = .data) (device.word file targetField))
    (hoffset : offset < fileDataPageSize ∨ HasFree device)
    (hcall : writeFile fuel file buffer offset device = .ok (result, device')) :
    TypedImage device' := by
  rcases writeFile_writes hoffset hcall with rfl | rfl
  · exact himage
  · refine himage.adjust ((SameRoot.refl device).set _ hpage.ne) fun page role _ hreach => ?_
    by_cases hsame : page = device.word file targetField
    · subst hsame
      obtain rfl := hpage.role hreach
      rw [Device.set_pages_self]
      exact .appended _ buffer
    · rw [Device.set_pages_of_ne _ _ hsame]
      exact .refl role _

/-! ## Deleting a file -/

/-- Only first bytes of pages differ. -/
def SameBehind (device device' : Device) : Prop :=
  ∀ page place, 0 < place → (device'.pages page).bytes place = (device.pages page).bytes place

namespace SameBehind

theorem refl (device : Device) : SameBehind device device := fun _ _ _ => rfl

theorem symm (hsame : SameBehind device device') : SameBehind device' device :=
  fun page place hplace => (hsame page place hplace).symm

theorem word (hsame : SameBehind device device') (page : Nat) {offset : Nat} (hoffset : 0 < offset) :
    device'.word page offset = device.word page offset :=
  Page.word_congr fun place hplace _ => hsame page place (by omega)

theorem sameRoot (hsame : SameBehind device device') : SameRoot device device' :=
  fun place hplace _ => hsame rootAddress place hplace

theorem fromRoot (hsame : SameBehind device device') :
    Pkfs.fromRoot device' = Pkfs.fromRoot device := by
  funext page role
  rw [Pkfs.fromRoot, Pkfs.fromRoot, hsame.sameRoot.rootDirectory]

theorem reach (hsame : SameBehind device device') (hreach : Reach device start page role) :
    Reach device' start page role := by
  induction hreach with
  | start hstart => exact .start hstart
  | @link page slot role _ hslot hlink ih =>
      have hword := hsame.word page (role.slot_pos hslot)
      have hlinked := ih.link hslot (hword ▸ hlink)
      rwa [hword, Role.leads_of_type role slot (hsame _ 1 (by decide))] at hlinked

end SameBehind

/-- However the first loop of `delete_file` ends, it has cleared `in_use` bits. -/
theorem freeLoop_writes {fuel addr firstFree : Nat} {result : Option Nat}
    (hcall : freeLoop fuel addr firstFree device = .ok (result, device')) :
    SameBehind device device' := by
  induction fuel generalizing addr firstFree device with
  | zero => simp [freeLoop] at hcall
  | succ fuel ih =>
      unfold freeLoop at hcall
      split at hcall
      next =>
        obtain ⟨-, rfl⟩ := Prod.mk.inj (Except.ok.inj hcall)
        exact .refl device
      next =>
        rcases bind_cases hcall with hread | ⟨_, _, hread, hcall⟩
        · obtain rfl := discRead_device hread
          exact .refl device
        obtain ⟨-, rfl, rfl⟩ := discRead_eq_ok.mp hread
        rcases bind_cases hcall with hwrite | ⟨_, _, hwrite, hcall⟩
        · obtain rfl := discWrite_of_none hwrite
          exact .refl device
        obtain ⟨-, rfl⟩ := discWrite_eq_ok.mp hwrite
        intro page place hplace
        rw [ih hcall page place hplace]
        by_cases hsame : page = addr
        · rw [hsame, Device.set_pages_self]
          exact storeLE_apply_of_outside (.inr (by omega))
        · rw [Device.set_pages_of_ne _ _ hsame]

/-- However the second loop ends, it has moved up children in one index page at most. -/
theorem unlinkLoop_writes {file fuel addr : Nat} {result : Option Unit}
    (hcall : unlinkLoop file fuel addr device = .ok (result, device')) :
    device' = device ∨ ∃ page index, addr ≠ 0 ∧
      Relation.ReflTransGen (fun page next => device.word page nextField = next ∧ next ≠ 0) addr page ∧
      device' = device.set page (shiftChildren (device.pages page) index) := by
  induction fuel generalizing addr with
  | zero => simp [unlinkLoop] at hcall
  | succ fuel ih =>
      unfold unlinkLoop at hcall
      split at hcall
      next =>
        cases hcall
        exact .inl rfl
      next haddr =>
        rcases bind_cases hcall with hread | ⟨_, _, hread, hcall⟩
        · exact .inl (discRead_device hread).symm
        obtain ⟨-, rfl, rfl⟩ := discRead_eq_ok.mp hread
        cases hslot : slotOf? (device.pages addr) file with
        | some index =>
            simp only [hslot] at hcall
            cases result with
            | none => exact .inl (discWrite_of_none hcall).symm
            | some _ => exact .inr ⟨addr, index, haddr, .refl, (discWrite_eq_ok.mp hcall).2⟩
        | none =>
            simp only [hslot] at hcall
            rcases ih hcall with hsame | ⟨page, index, hnext, hchain, hwritten⟩
            · exact .inl hsame
            · exact .inr ⟨page, index, haddr, .head ⟨rfl, hnext⟩ hchain, hwritten⟩

theorem deleteFile_writes {fuel root file : Nat} {result : Option Bool}
    (hcall : deleteFile fuel root file device = .ok (result, device')) :
    ∃ middle last : Device, SameBehind device middle ∧
      (last = middle ∨ ∃ page index, middle.word (device.word file nodeParentField) targetField ≠ 0 ∧
        IndexChain middle (device.word file nodeParentField) page ∧
        last = middle.set page (shiftChildren (middle.pages page) index)) ∧
      (device' = last ∨ ∃ free, device' =
        last.set root ((device.pages root).setWord firstFreeField free)) := by
  unfold deleteFile at hcall
  rcases bind_cases hcall with hread | ⟨_, _, hread, hcall⟩
  · exact ⟨device, device, .refl device, .inl rfl, .inl (discRead_device hread).symm⟩
  obtain ⟨-, rfl, rfl⟩ := discRead_eq_ok.mp hread
  rcases bind_cases hcall with hread | ⟨_, _, hread, hcall⟩
  · exact ⟨device, device, .refl device, .inl rfl, .inl (discRead_device hread).symm⟩
  obtain ⟨-, rfl, rfl⟩ := discRead_eq_ok.mp hread
  rcases bind_cases hcall with hfree | ⟨_, middle, hfree, hcall⟩
  · exact ⟨device', device', freeLoop_writes hfree, .inl rfl, .inl rfl⟩
  have hsame := freeLoop_writes hfree
  rcases bind_cases hcall with hread | ⟨_, _, hread, hcall⟩
  · exact ⟨middle, middle, hsame, .inl rfl, .inl (discRead_device hread).symm⟩
  obtain ⟨-, rfl, rfl⟩ := discRead_eq_ok.mp hread
  rcases bind_cases hcall with hunlink | ⟨_, last, hunlink, hcall⟩
  · exact ⟨middle, device', hsame, unlinkLoop_writes hunlink, .inl rfl⟩
  have hlast := unlinkLoop_writes hunlink
  rcases bind_cases hcall with hwrite | ⟨_, _, hwrite, hcall⟩
  · exact ⟨middle, last, hsame, hlast, .inl (discWrite_of_none hwrite).symm⟩
  obtain ⟨-, rfl⟩ := discWrite_eq_ok.mp hwrite
  exact ⟨middle, last, hsame, hlast, .inr ⟨_, (Prod.mk.inj (Except.ok.inj hcall)).2.symm⟩⟩

theorem TypedImage.delete (himage : TypedImage device) {fuel file : Nat} {result : Option Bool}
    (hindexes : device.word (device.word file nodeParentField) targetField ≠ 0 →
      ∀ page, IndexChain device (device.word file nodeParentField) page →
        OnlyAs device (fun role => role = .index) page)
    (hcall : deleteFile fuel rootAddress file device = .ok (result, device')) :
    TypedImage device' := by
  obtain ⟨middle, last, hsame, hlast, hdevice⟩ := deleteFile_writes hcall
  have hmiddle : TypedImage middle :=
    himage.adjust hsame.sameRoot fun page role _ _ => .of_bytes role (hsame page)
  have hunlinked : TypedImage last ∧ SameRoot middle last := by
    rcases hlast with rfl | ⟨page, index, htarget, hchain, rfl⟩
    · exact ⟨hmiddle, .refl last⟩
    · have hchain' : IndexChain device (device.word file nodeParentField) page :=
        (IndexChain.congr (hsame.word _ (by decide)) fun _ _ => hsame.word _ (by decide)).mp hchain
      rw [hsame.word _ (by decide)] at htarget
      have honly := hindexes htarget page hchain'
      have hroot : SameRoot middle (middle.set page (shiftChildren (middle.pages page) index)) :=
        (SameRoot.refl middle).set _ honly.ne
      refine ⟨hmiddle.adjust hroot fun other role _ hreach => ?_, hroot⟩
      by_cases hother : other = page
      · subst hother
        have hold := hsame.symm.reach hreach
        rw [hsame.fromRoot] at hold
        obtain rfl := honly.role hold
        rw [Device.set_pages_self]
        exact .shifted hreach index
      · rw [Device.set_pages_of_ne _ _ hother]
        exact .refl role _
  rcases hdevice with rfl | ⟨free, rfl⟩
  · exact hunlinked.1
  · have hroot := hsame.sameRoot.trans hunlinked.2
    refine hunlinked.1.adjust (hroot.symm.trans (.setFirstFree device last free))
      fun page role hne _ => ?_
    rw [Device.set_pages_of_ne _ _ hne]
    exact .refl role _

end Calls

/-! ## Runs -/

/-- A call on an image, which may end with a failed transfer. -/
def Op.Calls (device device' : Device) : Op → Prop
  | createFile => ∃ result, Pkfs.createFile device = .ok (result, device')
  | createDir => ∃ result, Pkfs.createDir device = .ok (result, device')
  | link directory node name =>
      ∃ result, linkNode directory node name device = .ok (result, device')
  | write file buffer offset =>
      ∃ fuel result, writeFile fuel file buffer offset device = .ok (result, device')
  | delete file => ∃ fuel result, deleteFile fuel rootAddress file device = .ok (result, device')

/-- Images and all calls on them. -/
def images (image : Device → Prop) : System Device Op where
  init := image
  step device op device' := op.Calls device device'

/-- A call that takes pages for what they are, and links what has the right types. -/
def Op.Fits (device : Device) : Op → Prop
  | createFile => ∀ page, FreePage device page → OnlyAs device (fun _ => False) page
  | createDir => ∀ page, FreePage device page → OnlyAs device (fun _ => False) page
  | link directory node name =>
      Refuses device directory node ∨ Linkable device directory node name
  | write file _ offset =>
      OnlyAs device (fun role => role = .data) (device.word file targetField) ∧
        (offset < fileDataPageSize ∨ HasFree device)
  | delete file =>
      device.word (device.word file nodeParentField) targetField ≠ 0 →
        ∀ page, IndexChain device (device.word file nodeParentField) page →
          OnlyAs device (fun role => role = .index) page

theorem TypedImage.step {device device' : Device} {op : Op} (himage : TypedImage device)
    (hfits : op.Fits device) (hcalls : op.Calls device device') : TypedImage device' := by
  cases op with
  | createFile =>
      obtain ⟨result, hcall⟩ := hcalls
      exact himage.created hfits hcall
  | createDir =>
      obtain ⟨result, hcall⟩ := hcalls
      exact himage.created hfits hcall
  | link directory node name =>
      obtain ⟨result, hcall⟩ := hcalls
      exact himage.link hfits hcall
  | write file buffer offset =>
      obtain ⟨fuel, result, hcall⟩ := hcalls
      exact himage.write hfits.1 hfits.2 hcall
  | delete file =>
      obtain ⟨fuel, result, hcall⟩ := hcalls
      exact himage.delete hfits hcall

/-- Runs of calls that take pages for what they are keep all pages in the right types. -/
theorem page_types_kept {device : Device}
    (hreach : ((images TypedImage).restrict fun device op => op.Fits device).Reachable device) :
    Typed device (fromRoot device) := by
  have hinductive : ((images TypedImage).restrict fun device op => op.Fits device).Inductive
      TypedImage := by
    constructor
    case init => exact fun device himage => himage
    case step =>
      rintro device op device' himage ⟨hfits, hcalls⟩
      exact himage.step hfits hcalls
  exact (hreach.invariant hinductive).typed

/-! ### An image with an empty root directory -/

section Empty

variable {device : Device} {node target page : Nat} {role : Role}

/-- An empty directory leads to its index page only. -/
theorem reach_empty (htarget : device.word node targetField = target)
    (hempty : ∀ slot ∈ Role.index.slots, device.word target slot = 0)
    (hreach : Reach device (alone node .directory) page role) :
    page = node ∧ role = .directory ∨ page = target ∧ role = .index := by
  induction hreach with
  | start hstart => exact .inl hstart
  | link _ hslot hlink ih =>
      rcases ih with ⟨rfl, rfl⟩ | ⟨rfl, rfl⟩
      · obtain rfl := List.mem_singleton.mp hslot
        exact .inr ⟨htarget, Role.leads_of_ne_index (by decide) _ _⟩
      · exact absurd (hempty _ hslot) hlink

theorem typed_empty (htarget : device.word node targetField = target)
    (hempty : ∀ slot ∈ Role.index.slots, device.word target slot = 0)
    (hnode : (device.pages node).type = PageType.directory.code)
    (hbody : (device.pages target).type = PageType.directoryIndex.code) :
    Typed device (alone node .directory) := by
  constructor
  case type =>
    intro page role hreach
    rcases reach_empty htarget hempty hreach with ⟨rfl, rfl⟩ | ⟨rfl, rfl⟩
    · exact hnode
    · exact hbody
  case parent =>
    intro file page hfile _
    rcases reach_empty htarget hempty hfile with ⟨-, hrole⟩ | ⟨-, hrole⟩
    · cases hrole
    · cases hrole

end Empty

/-- `emptyImage` with the signature. -/
def signedImage : Device :=
  emptyImage.set rootAddress ((emptyImage.pages rootAddress).copy 1 [80, 75, 70, 83])

theorem signedImage_index {slot : Nat} (hslot : slot ∈ Role.index.slots) :
    signedImage.word 66 slot = 0 :=
  emptyImage_index hslot

attribute [local semireducible] Page.word in
theorem signedImage_root : signedImage.rootDirectory = 65 ∧ signedImage.firstFree = 67 ∧
    signedImage.word 65 targetField = 66 := by
  decide

theorem signedImage_reach {page : Nat} {role : Role}
    (hreach : Reach signedImage (fromRoot signedImage) page role) :
    page = 65 ∧ role = .directory ∨ page = 66 ∧ role = .index := by
  obtain ⟨hroot, -, htarget⟩ := signedImage_root
  refine reach_empty htarget (fun slot hslot => signedImage_index hslot) (hreach.mono ?_)
  rintro page role ⟨rfl, rfl⟩
  exact ⟨hroot, rfl⟩

theorem signedImage_typed : TypedImage signedImage := by
  obtain ⟨hroot, -, htarget⟩ := signedImage_root
  refine ⟨by decide, ?_⟩
  have htyped : Typed signedImage (alone 65 .directory) :=
    typed_empty htarget (fun slot hslot => signedImage_index hslot)
      (newNodePage_type .directory 66) (newDirectoryIndex_type 65)
  rwa [← hroot] at htyped

theorem signedImage_free {page : Nat} (hfree : FreePage signedImage page) :
    OnlyAs signedImage (fun _ => False) page := by
  have hlower : 67 ≤ page := by
    rw [FreePage, signedImage_root.2.1] at hfree
    omega
  refine ⟨by unfold rootAddress; omega, fun hreach => ?_⟩
  rcases signedImage_reach hreach with ⟨rfl, -⟩ | ⟨rfl, -⟩
  · omega
  · omega

theorem signedImage_taken : Taken signedImage 67 68 69 where
  size := by decide
  first := signedImage_root.2.1.symm
  top_lt := by decide
  below_lt := by decide
  free_lt := by decide
  below_free := by decide
  free_free := by decide
  used_below page hlower hupper := by omega
  used_free page hlower hupper := by omega

/-- The image after a node was made. -/
def signedWith (nodePage bodyPage : Nat → Page) : Device :=
  created signedImage nodePage bodyPage 67 68 69

section With

variable (nodePage bodyPage : Nat → Page)

theorem signedWith_pages {page : Nat} (hroot : page ≠ rootAddress) (hpage : page < 67) :
    (signedWith nodePage bodyPage).pages page = signedImage.pages page :=
  created_pages_of_ne hroot (by omega) (by omega)

theorem signedWith_root : (signedWith nodePage bodyPage).rootDirectory = 65 ∧
    (signedWith nodePage bodyPage).word 65 targetField = 66 := by
  obtain ⟨hroot, -, htarget⟩ := signedImage_root
  constructor
  · rw [signedWith, created_eq (by decide) (by decide), Device.setFirstFree_rootDirectory,
      Device.set_rootDirectory _ _ (by decide), Device.set_rootDirectory _ _ (by decide), hroot]
  · rw [Device.word, signedWith_pages _ _ (by decide) (by decide)]
    exact htarget

theorem signedWith_index {slot : Nat} (hslot : slot ∈ Role.index.slots) :
    (signedWith nodePage bodyPage).word 66 slot = 0 := by
  rw [Device.word, signedWith_pages _ _ (by decide) (by decide)]
  exact signedImage_index hslot

theorem signedWith_reach {page : Nat} {role : Role} (hreach : Reach (signedWith nodePage bodyPage)
    (fromRoot (signedWith nodePage bodyPage)) page role) :
    page = 65 ∧ role = .directory ∨ page = 66 ∧ role = .index := by
  obtain ⟨hroot, htarget⟩ := signedWith_root nodePage bodyPage
  refine reach_empty htarget (fun slot hslot => signedWith_index _ _ hslot) (hreach.mono ?_)
  rintro page role ⟨rfl, rfl⟩
  exact ⟨hroot, rfl⟩

theorem signedWith_reach_index : Reach (signedWith nodePage bodyPage)
    (fromRoot (signedWith nodePage bodyPage)) 66 .index := by
  obtain ⟨hroot, htarget⟩ := signedWith_root nodePage bodyPage
  have hstart : Reach (signedWith nodePage bodyPage) (fromRoot (signedWith nodePage bodyPage)) 65
      .directory := .start ⟨hroot.symm, rfl⟩
  have hindex := hstart.link (List.mem_singleton.mpr rfl) (by rw [htarget]; decide)
  rwa [htarget] at hindex

theorem linkNode_signedWith : linkNode 65 67 [97] (signedWith nodePage bodyPage) =
    .ok (some true, linkedTo (signedWith nodePage bodyPage) 65 67 [97] 0) := by
  obtain ⟨-, htarget⟩ := signedWith_root nodePage bodyPage
  have hfree : (signedWith nodePage bodyPage).word 66 (childField 0) = 0 :=
    signedWith_index _ _ (mem_slots_index.mpr (.inr ⟨0, by decide, rfl⟩))
  have hslot : freeSlot? ((signedWith nodePage bodyPage).pages 66) = some 0 :=
    freeSlot?_eq_some.mpr ⟨by decide, hfree, nofun⟩
  have hsize : (signedWith nodePage bodyPage).size = 80 := rfl
  rw [linkNode_of_fits (by omega) (by omega) (by omega) (by decide), htarget, hslot]

end With

/-- A directory that is made and linked is reached, with all pages of the right types. -/
theorem page_types_kept_directory : ∃ made linked : Device,
    createDir signedImage = .ok (some 67, made) ∧
      linkNode 65 67 [97] made = .ok (some true, linked) ∧ Typed linked (fromRoot linked) := by
  have hcreate : createDir signedImage =
      .ok (some 67, signedWith (newNodePage .directory) newDirectoryIndex) :=
    createWith_of_taken signedImage_taken _ _
  have hlink := linkNode_signedWith (newNodePage .directory) newDirectoryIndex
  obtain ⟨-, htarget⟩ := signedWith_root (newNodePage .directory) newDirectoryIndex
  have hnode : (signedWith (newNodePage .directory) newDirectoryIndex).pages 67 =
      newNodePage .directory 68 := created_pages_top (by decide) (by decide)
  have hbody : (signedWith (newNodePage .directory) newDirectoryIndex).pages 68 =
      newDirectoryIndex 67 := created_pages_below (by decide)
  have hright : Typed (signedWith (newNodePage .directory) newDirectoryIndex) (alone 67 .directory) := by
    have hleads : (signedWith (newNodePage .directory) newDirectoryIndex).word 67 targetField = 68 := by
      rw [Device.word, hnode, newNodePage_target .directory (by decide)]
    refine typed_empty hleads (fun slot hslot => ?_) ?_ ?_
    · rw [Device.word, hbody, writesNode_directory.empty 67 slot hslot]
    · rw [hnode, newNodePage_type]
    · rw [hbody, newDirectoryIndex_type]
  have hlinkable : Linkable (signedWith (newNodePage .directory) newDirectoryIndex) 65 67 [97] := by
    constructor
    case fits => decide
    case asNode =>
      refine ⟨by decide, fun hreach => ?_⟩
      rcases signedWith_reach _ _ hreach with ⟨hpage, -⟩ | ⟨hpage, -⟩
      · cases hpage
      · cases hpage
    case asIndex =>
      rw [htarget]
      refine ⟨by decide, fun hreach => ?_⟩
      rcases signedWith_reach _ _ hreach with ⟨hpage, -⟩ | ⟨-, hrole⟩
      · cases hpage
      · exact hrole
    case typed =>
      intro _
      rw [hnode, nodeRole, newNodePage_type, if_pos rfl]
      exact hright
  have hinit : ((images TypedImage).restrict fun device op => op.Fits device).Reachable signedImage :=
    .init signedImage_typed
  have hmakes : Op.createDir.Fits signedImage := fun _ hfree => signedImage_free hfree
  have hmakesCall : Op.createDir.Calls signedImage _ := ⟨_, hcreate⟩
  have hmade := hinit.step ⟨hmakes, hmakesCall⟩
  have hlinks : (Op.link 65 67 [97]).Fits _ := .inr hlinkable
  have hlinksCall : (Op.link 65 67 [97]).Calls _ _ := ⟨_, hlink⟩
  have hlinked := hmade.step ⟨hlinks, hlinksCall⟩
  exact ⟨_, _, hcreate, hlink, page_types_kept hlinked⟩

/-- A file that is made and linked does not have pages of the right types. -/
theorem page_types_lost : ∃ made linked : Device, createFile signedImage = .ok (some 67, made) ∧
    linkNode 65 67 [97] made = .ok (some true, linked) ∧
      (images TypedImage).Reachable linked ∧ ¬Typed linked (fromRoot linked) := by
  have hcreate : createFile signedImage = .ok (some 67, signedWith (newNodePage .file) newFileData) :=
    createWith_of_taken signedImage_taken _ _
  have hlink := linkNode_signedWith (newNodePage .file) newFileData
  have hindex := signedWith_reach_index (newNodePage .file) newFileData
  rw [← (signedWith_root (newNodePage .file) newFileData).2] at hindex
  have hinit : (images TypedImage).Reachable signedImage := .init signedImage_typed
  have hmakes : (images TypedImage).step signedImage .createFile _ := Exists.intro _ hcreate
  have hlinks : (images TypedImage).step _ (.link 65 67 [97]) _ := Exists.intro _ hlink
  have hlinked := (hinit.step hmakes).step hlinks
  exact ⟨_, _, hcreate, hlink, hlinked, not_typed_of_created_link signedImage_typed
    (fun _ hfree => signedImage_free hfree) hcreate (by decide) (by decide) hindex hlink⟩

end PKernel.Pkfs
