import PKernel.Pkfs.Lookup

/-! # Linking under long names

`link_node` copies a name of any length over the 128 bytes that a node page has for it. A
longer one goes into the address of the parent, which is stored afterwards, then into the
address of the data, and at last behind the page.
-/

namespace PKernel.Pkfs

open Operation

variable {device device' : Device} {directory node index : Nat} {name : List UInt8}

/-! ## What linking is to do -/

/-- Linked under a name: the node has the name and the parent, and one free slot of the index
page has the node. -/
structure LinkedAs (device device' : Device) (directory node : Nat) (name : List UInt8) :
    Prop where
  others : ∀ page, page ≠ node → page ≠ device.word directory targetField →
    device'.pages page = device.pages page
  kept : ∀ place, place < nameField ∨ targetField ≤ place →
    (device'.pages node).bytes place = (device.pages node).bytes place
  type : (device'.pages node).type = (device.pages node).type
  target : device'.word node targetField = device.word node targetField
  parent : device'.word node nodeParentField = directory
  slot : ∃ index < directoryIndexChildrenSize,
    device.word (device.word directory targetField) (childField index) = 0 ∧
      device'.pages (device.word directory targetField) =
        (device.pages (device.word directory targetField)).setWord (childField index) node
  named : getFileName node device' = .ok (some (name ++ [0]), device')

/-- The name is refused, or the node is linked under it. -/
def LinkPreserves (device : Device) (directory node : Nat) (name : List UInt8) : Prop :=
  (∃ result, linkNode directory node name device = .ok (result, device) ∧ result ≠ some true) ∨
    ∃ device', linkNode directory node name device = .ok (some true, device') ∧
      LinkedAs device device' directory node name

/-- A page cannot be read, or the first index page of the directory is full. -/
def Refuses (device : Device) (directory node : Nat) : Prop :=
  device.size ≤ directory ∨ device.size ≤ device.word directory targetField ∨
    freeSlot? (device.pages (device.word directory targetField)) = none ∨ device.size ≤ node

/-! ## Refused names -/

theorem linkNode_of_refuses (hrefuses : Refuses device directory node) (name : List UInt8) :
    ∃ result, linkNode directory node name device = .ok (result, device) ∧
      result ≠ some true := by
  have htarget : (device.pages directory).word targetField = device.word directory targetField :=
    rfl
  by_cases hdirectory : device.size ≤ directory
  · refine ⟨none, ?_, nofun⟩
    rw [linkNode, bind_of_none (discRead_of_le hdirectory)]
  · rw [linkNode, bind_of_some (discRead_of_lt (Nat.lt_of_not_le hdirectory)), htarget]
    by_cases hindex : device.size ≤ device.word directory targetField
    · refine ⟨none, ?_, nofun⟩
      rw [bind_of_none (discRead_of_le hindex)]
    · rw [bind_of_some (discRead_of_lt (Nat.lt_of_not_le hindex))]
      cases hslot : freeSlot? (device.pages (device.word directory targetField)) with
      | none => exact ⟨some false, rfl, by decide⟩
      | some index =>
          have hnode : device.size ≤ node := by simpa [Refuses, hdirectory, hindex, hslot] using hrefuses
          refine ⟨none, ?_, nofun⟩
          simp only
          rw [bind_of_none (discRead_of_le hnode)]

/-- What is there otherwise. -/
theorem exists_of_not_refuses (hopen : ¬Refuses device directory node) :
    directory < device.size ∧ device.word directory targetField < device.size ∧
      node < device.size ∧
      ∃ index, freeSlot? (device.pages (device.word directory targetField)) = some index := by
  simp only [Refuses, not_or, Nat.not_le] at hopen
  obtain ⟨hdirectory, hindex, hslot, hnode⟩ := hopen
  exact ⟨hdirectory, hindex, hnode, Option.ne_none_iff_exists'.mp hslot⟩

/-! ## Names in a page -/

theorem Page.length_name_le (page : Page) : page.name.length ≤ nameMaxSize := by
  have hprefix := List.takeWhile_prefix (l := (List.range nameMaxSize).map fun index =>
    page.bytes (2 + index)) (fun byte => byte ≠ 0)
  have hlength := hprefix.length_le
  rwa [List.length_map, List.length_range] at hlength

theorem getFileName_of_lt (hnode : node < device.size) :
    getFileName node device = .ok (some ((device.pages node).name ++ [0]), device) := by
  rw [getFileName, getNodeName, bind_of_some (discRead_of_lt hnode)]
  rfl

/-- A name of 128 bytes has no room for its NUL, and does not need it. -/
theorem namedPage_name_of_le (page : Page) (directory : Nat) (hname : name.length ≤ nameMaxSize)
    (hnul : 0 ∉ name) : (namedPage page name directory).name = name := by
  rcases Nat.lt_or_eq_of_le hname with hshort | hexact
  · exact namedPage_name page directory hshort hnul
  · have hbytes : (List.range nameMaxSize).map
        (fun index => (namedPage page name directory).bytes (2 + index)) = name := by
      apply List.ext_getElem (by simp [hexact])
      intro index hleft hright
      have hplace : 2 + index < nodeParentField := by
        rw [hexact] at hright
        unfold nameMaxSize at hright
        unfold nodeParentField
        omega
      rw [List.getElem_map, List.getElem_range, namedPage, Page.bytes_setWord _ (.inl hplace),
        Page.copy_apply _ (by simp; omega), List.getElem_append_left hright]
    rw [Page.name, hbytes, List.takeWhile_eq_self_iff]
    intro byte hbyte
    exact decide_eq_true fun hzero => hnul (hzero ▸ hbyte)

/-- A name that fits changes only the name and the parent. -/
theorem linkedAs_of_le (hdirectory : directory < device.size) (hnode : node < device.size)
    (hne : node ≠ device.word directory targetField) (hname : name.length ≤ nameMaxSize)
    (hnul : 0 ∉ name)
    (hslot : freeSlot? (device.pages (device.word directory targetField)) = some index) :
    LinkedAs device (linkedTo device directory node name index) directory node name := by
  have hpage : (linkedTo device directory node name index).pages node =
      namedPage (device.pages node) name directory := linkedTo_pages_node hne
  have hsize := device.size_lt
  constructor
  case others => exact fun page hpage hindex => linkedTo_pages_of_ne hindex hpage
  case kept =>
    intro place hplace
    unfold nameField targetField at hplace
    unfold nameMaxSize at hname
    rw [hpage, namedPage, Page.bytes_setWord _ (by unfold nodeParentField; omega),
      Page.copy_apply_of_outside _ (by
        rw [List.length_append, List.length_singleton]
        omega)]
  case type => rw [hpage, namedPage_type]
  case target =>
    rw [Device.word, hpage, namedPage_target _ _ (by unfold nameMaxSize targetField at *; omega),
      Device.word]
  case parent => rw [Device.word, hpage, namedPage_parent _ _ (by omega)]
  case slot =>
    obtain ⟨hindex, hfree, -⟩ := freeSlot?_eq_some.mp hslot
    exact ⟨index, hindex, hfree, linkedTo_pages_index⟩
  case named =>
    have hlt : node < (linkedTo device directory node name index).size := hnode
    rw [getFileName_of_lt hlt, hpage, namedPage_name_of_le _ _ hname hnul]

/-- A name that is read back fits in its field. -/
theorem LinkPreserves.length_le (hpreserves : LinkPreserves device directory node name)
    (hopen : ¬Refuses device directory node) : name.length ≤ nameMaxSize := by
  obtain ⟨hdirectory, hindex, hnode, index, hslot⟩ := exists_of_not_refuses hopen
  rcases hpreserves with ⟨result, hcall, hresult⟩ | ⟨device', hcall, hlinked⟩
  · by_cases hfits : 2 + name.length + 1 ≤ 512
    · rw [linkNode_of_fits hdirectory hindex hnode hfits, hslot] at hcall
      obtain ⟨rfl, -⟩ := Prod.mk.inj (Except.ok.inj hcall)
      exact absurd rfl hresult
    · rw [linkNode_long hdirectory hindex hnode hslot (Nat.lt_of_not_le hfits)] at hcall
      cases hcall
  · have hlt : node < device'.size := by
      rcases (linkNode_eq_ok hcall).2 with ⟨hfalse, -⟩ | ⟨-, _, -, -, rfl⟩
      · cases hfalse
      · exact hnode
    have hnamed := hlinked.named
    rw [getFileName_of_lt hlt, Except.ok.injEq, Prod.mk.injEq, Option.some.injEq] at hnamed
    rw [← List.append_cancel_right hnamed.1]
    exact Page.length_name_le _

/-- Linking preserves the node exactly if the name fits in its field or is refused. -/
theorem linkPreserves_iff (hne : node ≠ device.word directory targetField) (hnul : 0 ∉ name) :
    LinkPreserves device directory node name ↔
      Refuses device directory node ∨ name.length ≤ nameMaxSize := by
  by_cases hrefuses : Refuses device directory node
  · exact iff_of_true (.inl (linkNode_of_refuses hrefuses name)) (.inl hrefuses)
  · constructor
    · exact fun hpreserves => .inr (hpreserves.length_le hrefuses)
    · intro hcase
      have hname := hcase.resolve_left hrefuses
      obtain ⟨hdirectory, hindex, hnode, index, hslot⟩ := exists_of_not_refuses hrefuses
      refine .inr ⟨_, ?_, linkedAs_of_le hdirectory hnode hne hname hnul hslot⟩
      rw [linkNode_of_fits hdirectory hindex hnode (by unfold nameMaxSize at hname; omega), hslot]

/-- A file under the name `a`. -/
theorem linkPreserves_short : LinkPreserves oneByteImage 65 67 [97] :=
  (linkPreserves_iff (by decide +kernel) (by decide)).mpr (.inr (by decide))

/-- With a name of 136 bytes the NUL goes into the address of the data, which was 68. -/
theorem not_linkPreserves_long :
    (∃ device', linkNode 65 67 (List.replicate 136 97) oneByteImage = .ok (some true, device') ∧
      device'.word 67 targetField = 0) ∧
      ¬LinkPreserves oneByteImage 65 67 (List.replicate 136 97) := by
  have hopen : ¬Refuses oneByteImage 65 67 := by
    unfold Refuses
    decide +kernel
  constructor
  · have hslot : freeSlot? (oneByteImage.pages (oneByteImage.word 65 targetField)) = some 0 := by
      decide +kernel
    refine ⟨linkedTo oneByteImage 65 67 (List.replicate 136 97) 0, ?_, ?_⟩
    · rw [linkNode_of_fits (by decide) (by decide +kernel) (by decide)
        (by rw [List.length_replicate]; decide), hslot]
    · decide +kernel
  · intro hpreserves
    have hlength := hpreserves.length_le hopen
    rw [List.length_replicate] at hlength
    exact absurd hlength (by decide)

end PKernel.Pkfs
