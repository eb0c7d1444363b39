import PKernel.Pkfs.Operations

/-! # The contents of the pages that operations write

What a new page, a named node page and an index page with one child less hold, field
by field.
-/

namespace PKernel.Pkfs

open Library.ByteMemory
open Page (inUse_setType inUse_setWord type_setType type_setWord word_setWord_same)

namespace Page

/-- From a place on there are only zeros. -/
def ZeroFrom (page : Page) (start : Nat) : Prop := ∀ place, start ≤ place → page.bytes place = 0

theorem ZeroFrom.setWord {page : Page} {start : Nat} (hzero : page.ZeroFrom start)
    (offset : Nat) : (page.setWord offset 0).ZeroFrom start := by
  intro place hplace
  simp only [Page.setWord, storeLE]
  split
  next => simp
  next => exact hzero place hplace

theorem ZeroFrom.setWord_before {page : Page} {start offset : Nat} (hzero : page.ZeroFrom start)
    (value : Nat) (hoffset : offset + 8 ≤ start) : (page.setWord offset value).ZeroFrom start := by
  intro place hplace
  have hsame : (page.setWord offset value).bytes place = page.bytes place :=
    storeLE_apply_of_outside (.inr (by omega))
  rw [hsame]
  exact hzero place hplace

theorem ZeroFrom.word {page : Page} {start offset : Nat} (hzero : page.ZeroFrom start)
    (hoffset : start ≤ offset) : page.word offset = 0 := by
  have hsame : page.word offset = zero.word offset := by
    apply word_congr
    intro place hlower _
    exact hzero place (hoffset.trans hlower)
  rw [hsame, word_zero]

/-- A page with only a tag and a type. -/
theorem zeroFrom_tagged (type : PageType) {start : Nat} (hstart : 2 ≤ start) :
    ((zero.setInUse true).setType type).ZeroFrom start := by
  intro place hplace
  have htype : ((zero.setInUse true).setType type).bytes place =
      (zero.setInUse true).bytes place := storeLE_apply_of_outside (.inr (by omega))
  have htag : (zero.setInUse true).bytes place = zero.bytes place :=
    storeLE_apply_of_outside (.inr (by omega))
  rw [htype, htag]
  rfl

end Page

/-! ## New pages -/

section NewPages

variable (type : PageType) (parent : Nat)

@[simp]
theorem newNodePage_inUse (target : Nat) : (newNodePage type target).inUse = true := by
  rw [newNodePage, inUse_setWord _ (by decide), inUse_setType, Page.inUse_setInUse]

@[simp]
theorem newNodePage_type (target : Nat) : (newNodePage type target).type = type.code := by
  rw [newNodePage, type_setWord _ (by decide), type_setType]

theorem newNodePage_target {target : Nat} (htarget : target < 2 ^ 64) :
    (newNodePage type target).word targetField = target :=
  word_setWord_same _ htarget

@[simp]
theorem newFileData_inUse : (newFileData parent).inUse = true := by
  rw [newFileData, Page.inUse_setSize, inUse_setWord _ (by decide),
    inUse_setWord _ (by decide), inUse_setWord _ (by decide), inUse_setType,
    Page.inUse_setInUse]

/-- The data page of a new file has the type of a file. -/
theorem newFileData_type : (newFileData parent).type = PageType.file.code := by
  rw [newFileData, Page.type_setSize, type_setWord _ (by decide),
    type_setWord _ (by decide), type_setWord _ (by decide), type_setType]

theorem newDirectoryIndex_type : (newDirectoryIndex parent).type = PageType.directoryIndex.code := by
  unfold newDirectoryIndex
  apply List.foldlRecOn (motive := fun page : Page => page.type = PageType.directoryIndex.code)
  · rw [type_setWord _ (by decide), type_setWord _ (by decide),
      type_setWord _ (by decide), type_setType]
  · intro page hpage index _
    rwa [type_setWord _ (by unfold childField; omega)]

theorem newFileData_next : (newFileData parent).word nextField = 0 := by
  rw [newFileData, Page.word_setSize _ _ (by decide), word_setWord_same _ (by decide)]

@[simp]
theorem newDirectoryIndex_inUse : (newDirectoryIndex parent).inUse = true := by
  unfold newDirectoryIndex
  apply List.foldlRecOn (motive := fun page : Page => page.inUse = true)
  · rw [inUse_setWord _ (by decide), inUse_setWord _ (by decide),
      inUse_setWord _ (by decide), inUse_setType, Page.inUse_setInUse]
  · intro page hpage index _
    rwa [inUse_setWord _ (by unfold childField; omega)]

/-- Behind its parent address the index page of a new directory is empty. -/
theorem newDirectoryIndex_zeroFrom : (newDirectoryIndex parent).ZeroFrom prevField := by
  unfold newDirectoryIndex
  apply List.foldlRecOn (motive := fun page : Page => page.ZeroFrom prevField)
  · refine .setWord (.setWord (.setWord_before ?_ parent le_rfl) prevField) nextField
    exact Page.zeroFrom_tagged .directoryIndex (by decide)
  · intro page hpage index _
    exact hpage.setWord (childField index)

end NewPages

/-! ## A named node page -/

/-- What is taken of a table before its first entry that fails a test. -/
theorem takeWhile_map_range {α : Type} {f : Nat → α} {test : α → Bool} {count size : Nat}
    (hcount : count < size) (hbefore : ∀ index < count, test (f index) = true)
    (hstop : test (f count) = false) :
    ((List.range size).map f).takeWhile test = (List.range count).map f := by
  obtain ⟨rest, rfl⟩ := Nat.exists_eq_add_of_lt hcount
  rw [Nat.add_assoc, List.range_add, List.map_append, List.takeWhile_append_of_pos,
    Nat.add_comm rest 1, List.range_add]
  · simp [hstop]
  · simpa using hbefore

/-- A new node has no name yet. -/
theorem newNodePage_name (type : PageType) (target : Nat) : (newNodePage type target).name = [] := by
  rw [Page.name, takeWhile_map_range (show 0 < nameMaxSize by decide)]
  · rfl
  · intro index hindex
    omega
  · have hzero : (newNodePage type target).bytes (2 + 0) =
        ((Page.zero.setInUse true).setType type).bytes 2 := by
      rw [newNodePage, Page.bytes_setWord _ (.inl (by decide))]
    rw [hzero, Page.zeroFrom_tagged type le_rfl 2 le_rfl]
    rfl

section Named

variable (filePage : Page) (directory : Nat) {name : List UInt8}

@[simp]
theorem namedPage_inUse : (namedPage filePage name directory).inUse = filePage.inUse := by
  rw [namedPage, inUse_setWord _ (by decide), Page.inUse_copy _ _ (by decide)]

@[simp]
theorem namedPage_type : (namedPage filePage name directory).type = filePage.type := by
  rw [namedPage, type_setWord _ (by decide), Page.type_copy _ _ (by decide)]

theorem namedPage_parent (hdirectory : directory < 2 ^ 64) :
    (namedPage filePage name directory).word nodeParentField = directory :=
  word_setWord_same _ hdirectory

/-- A name that ends before the address behind it leaves that address alone. -/
theorem namedPage_target (hname : name.length < targetField - 2) :
    (namedPage filePage name directory).word targetField = filePage.word targetField := by
  rw [namedPage, Page.word_setWord_of_disjoint _ (.inr (by decide)), Page.word_copy]
  simp only [List.length_append, List.length_singleton]
  unfold targetField at *
  omega

/-- The characters of a name that fits, and its NUL. -/
theorem namedPage_bytes {index : Nat} (hindex : index < (name ++ [0]).length)
    (hname : name.length < nameMaxSize) :
    (namedPage filePage name directory).bytes (2 + index) = (name ++ [0])[index] := by
  have hlength : index < name.length + 1 := by simpa using hindex
  rw [namedPage, Page.bytes_setWord _ (.inl (by unfold nameMaxSize nodeParentField at *; omega)),
    Page.copy_apply]

/-- A name that fits and has no NUL is read back as it was given. -/
theorem namedPage_name (hname : name.length < nameMaxSize) (hnul : 0 ∉ name) :
    (namedPage filePage name directory).name = name := by
  rw [Page.name, takeWhile_map_range hname]
  · apply List.ext_getElem (by simp)
    intro index hleft hright
    simp only [List.getElem_map, List.getElem_range]
    rw [namedPage_bytes filePage directory (by simp; omega) hname, List.getElem_append_left hright]
  · intro index hindex
    rw [namedPage_bytes filePage directory (by simp; omega) hname, List.getElem_append_left hindex]
    simp only [ne_eq, decide_eq_true_eq]
    exact fun hzero => hnul (hzero ▸ List.getElem_mem hindex)
  · rw [namedPage_bytes filePage directory (by simp) hname, List.getElem_append_right le_rfl]
    simp

end Named

/-! ## Index pages -/

/-- A free slot is the first one. -/
theorem freeSlot?_eq_some {indexPage : Page} {index : Nat} :
    freeSlot? indexPage = some index ↔
      index < directoryIndexChildrenSize ∧ indexPage.word (childField index) = 0 ∧
        ∀ earlier < index, indexPage.word (childField earlier) ≠ 0 := by
  simp [freeSlot?, List.find?_range_eq_some]
  tauto

theorem freeSlot?_eq_none {indexPage : Page} :
    freeSlot? indexPage = none ↔
      ∀ index < directoryIndexChildrenSize, indexPage.word (childField index) ≠ 0 := by
  simp [freeSlot?]

theorem slotOf?_eq_some {indexPage : Page} {file index : Nat}
    (hslot : slotOf? indexPage file = some index) :
    index < directoryIndexChildrenSize ∧ indexPage.word (childField index) = file := by
  simp only [slotOf?, List.find?_range_eq_some, decide_eq_true_eq, List.mem_range] at hslot
  exact ⟨hslot.2.1, hslot.1⟩

theorem slotOf?_eq_none {indexPage : Page} {file : Nat} :
    slotOf? indexPage file = none ↔
      ∀ index < directoryIndexChildrenSize, indexPage.word (childField index) ≠ file := by
  simp [slotOf?]

theorem word_childField_setWord_of_ne (page : Page) {index other value : Nat}
    (hne : other ≠ index) :
    (page.setWord (childField index) value).word (childField other) =
      page.word (childField other) :=
  Page.word_setWord_of_disjoint _ (by unfold childField; omega)

section Shift

variable (indexNode : Page) (index : Nat)

/-- The loop that moves children up changes nothing before the first of them. -/
theorem shiftChildren_bytes {place : Nat} (hplace : place < childField 0) :
    (shiftChildren indexNode index).bytes place = indexNode.bytes place := by
  have hloop (slots : List Nat) : (slots.foldl (fun page slot => page.setWord (childField slot)
      (page.word (childField (slot + 1)))) indexNode).bytes place = indexNode.bytes place := by
    apply List.foldlRecOn (motive := fun page : Page => page.bytes place = indexNode.bytes place)
    · rfl
    · intro page hpage slot _
      rw [← hpage]
      exact storeLE_apply_of_outside (.inl (by unfold childField at *; omega))
  rw [shiftChildren, ← hloop]
  exact storeLE_apply_of_outside (.inl (by unfold childField at *; omega))

@[simp]
theorem shiftChildren_inUse : (shiftChildren indexNode index).inUse = indexNode.inUse :=
  Page.inUse_eq _ _ (shiftChildren_bytes indexNode index (by decide))

theorem shiftChildren_next : (shiftChildren indexNode index).word nextField =
    indexNode.word nextField := by
  apply Page.word_congr
  intro place _ hupper
  exact shiftChildren_bytes indexNode index (hupper.trans_le (by decide))

/-- The children that the loop has passed have moved up. -/
theorem foldl_shift (count slot : Nat) :
    ((List.range' index count).foldl (fun page slot => page.setWord (childField slot)
      (page.word (childField (slot + 1)))) indexNode).word (childField slot) =
      indexNode.word (childField (if index ≤ slot ∧ slot < index + count then slot + 1 else slot)) := by
  induction count generalizing slot with
  | zero => rw [if_neg (by omega)]; rfl
  | succ count ih =>
      rw [List.range'_1_concat, List.foldl_append, List.foldl_cons, List.foldl_nil]
      by_cases hslot : slot = index + count
      · subst hslot
        rw [word_setWord_same _ (Page.word_lt _ _), ih, if_neg (by omega), if_pos (by omega)]
      · rw [word_childField_setWord_of_ne _ hslot, ih]
        by_cases hmoved : index ≤ slot ∧ slot < index + count
        · rw [if_pos hmoved, if_pos (by omega)]
        · rw [if_neg hmoved, if_neg (by omega)]

/-- The children from the slot on have moved up. -/
theorem shiftChildren_word {slot : Nat} (hslot : slot + 1 < directoryIndexChildrenSize) :
    (shiftChildren indexNode index).word (childField slot) =
      indexNode.word (childField (if index ≤ slot then slot + 1 else slot)) := by
  rw [shiftChildren, word_childField_setWord_of_ne _ (by omega), foldl_shift]
  by_cases hmoved : index ≤ slot
  · rw [if_pos (by omega), if_pos hmoved]
  · rw [if_neg (by omega), if_neg hmoved]

/-- The last slot is free. -/
theorem shiftChildren_last : (shiftChildren indexNode index).word
    (childField (directoryIndexChildrenSize - 1)) = 0 :=
  word_setWord_same _ (by decide)

theorem shiftChildren_child {slot : Nat} (hslot : slot < directoryIndexChildrenSize)
    (hchild : (shiftChildren indexNode index).word (childField slot) ≠ 0) :
    (shiftChildren indexNode index).word (childField slot) =
        indexNode.word (childField (if index ≤ slot then slot + 1 else slot)) ∧
      slot + 1 < directoryIndexChildrenSize := by
  have hlast : slot ≠ directoryIndexChildrenSize - 1 := by
    rintro rfl
    exact hchild (shiftChildren_last indexNode index)
  exact ⟨shiftChildren_word indexNode index (by omega), by omega⟩

end Shift

end PKernel.Pkfs
