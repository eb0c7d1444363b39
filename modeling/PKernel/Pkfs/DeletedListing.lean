import PKernel.Pkfs.Deletion
import PKernel.Pkfs.Lookup

/-! # Listings after a deletion

`delete_file` moves up the children behind the file in one index page, so that the last slot of
that page is free. To the iterator a free slot is the end of the directory: the children in the
later index pages are still linked but no longer listed.
-/

namespace PKernel.Pkfs

open Operation

/-- A directory as the calls of the driver make it. Its children are files and directories that
have it as their parent, and neither the root page nor its node page is one of its index pages. -/
structure OrderlyDirectory (device : Device) (directory first : Nat) (rest children : List Nat) :
    Prop extends DirectoryOn device directory first rest children where
  based : first ≠ 0
  typed : ∀ child ∈ children, entryType device child ≠ .none
  parents : ∀ child ∈ children, device.word child nodeParentField = directory
  apart : directory ∉ first :: rest
  behindRoot : rootAddress ∉ directory :: first :: rest

variable {device device' : Device}

/-! ## The slots of a chain -/

theorem pageSlots_congr {page : Nat}
    (hwords : ∀ i, device'.word page (childField i) = device.word page (childField i)) :
    pageSlots device' page = pageSlots device page :=
  List.map_congr_left fun i _ => hwords i

theorem chainSlots_congr {pages : List Nat}
    (hwords : ∀ page ∈ pages, ∀ i,
      device'.word page (childField i) = device.word page (childField i)) :
    chainSlots device' pages = chainSlots device pages :=
  List.flatMap_congr fun page hpage => pageSlots_congr (hwords page hpage)

theorem chainSlots_append (before behind : List Nat) :
    chainSlots device (before ++ behind) = chainSlots device before ++ chainSlots device behind :=
  List.flatMap_append

theorem chainSlots_cons (page : Nat) (rest : List Nat) :
    chainSlots device (page :: rest) = pageSlots device page ++ chainSlots device rest :=
  List.flatMap_cons

theorem length_chainSlots (pages : List Nat) :
    (chainSlots device pages).length = directoryIndexChildrenSize * pages.length := by
  induction pages with
  | nil => rfl
  | cons page rest ih =>
      rw [chainSlots_cons, List.length_append, length_pageSlots, ih, List.length_cons]
      ring

theorem getElem_pageSlots {page i : Nat} (hi : i < (pageSlots device page).length) :
    (pageSlots device page)[i] = device.word page (childField i) := by
  simp [pageSlots]

/-- The slot found is the first with the file. -/
theorem idxOf_pageSlots {page file slot : Nat} (hslot : slotOf? (device.pages page) file = some slot) :
    (pageSlots device page).idxOf file = slot := by
  simp only [slotOf?, List.find?_range_eq_some, decide_eq_true_eq, List.mem_range] at hslot
  obtain ⟨hfile, hlt, hbefore⟩ := hslot
  have hlength : slot < (pageSlots device page).length := by rwa [length_pageSlots]
  refine (List.findIdx_eq hlength).mpr ⟨?_, fun earlier hearlier => ?_⟩
  · rw [getElem_pageSlots]
    exact beq_iff_eq.mpr hfile
  · rw [getElem_pageSlots]
    exact beq_eq_false_iff_ne.mpr (by simpa [Device.word] using hbefore earlier hearlier)

theorem mem_pageSlots_iff {page file : Nat} :
    file ∈ pageSlots device page ↔ slotOf? (device.pages page) file ≠ none := by
  rw [Ne, slotOf?_eq_none]
  simp [pageSlots, Device.word]

/-- The children of a page that are left, and the slot that has become free. -/
theorem pageSlots_shift {page file slot : Nat}
    (hslot : slotOf? (device.pages page) file = some slot)
    (hpage : ∀ i, device'.word page (childField i) =
      (shiftChildren (device.pages page) slot).word (childField i)) :
    pageSlots device' page = (pageSlots device page).erase file ++ [0] := by
  have hsize : directoryIndexChildrenSize = 60 := rfl
  obtain ⟨hlt, -⟩ := slotOf?_eq_some hslot
  have hlength : ((pageSlots device page).eraseIdx slot).length = directoryIndexChildrenSize - 1 := by
    rw [List.length_eraseIdx_of_lt (by rwa [length_pageSlots]), length_pageSlots]
  rw [List.erase_eq_eraseIdx_of_idxOf (idxOf_pageSlots hslot)]
  refine List.ext_getElem (by simp [hlength, hsize]) fun i hleft hright => ?_
  have hi : i < directoryIndexChildrenSize := by rwa [length_pageSlots] at hleft
  rw [getElem_pageSlots hleft, hpage]
  by_cases hlast : i = directoryIndexChildrenSize - 1
  · subst hlast
    rw [shiftChildren_last, List.getElem_append_right (by rw [hlength])]
    simp
  · rw [shiftChildren_word _ _ (by omega), List.getElem_append_left (by omega), List.getElem_eraseIdx]
    by_cases hmoved : slot ≤ i
    · rw [if_pos hmoved, dif_neg (by omega), getElem_pageSlots, Device.word]
    · rw [if_neg hmoved, dif_pos (by omega), getElem_pageSlots, Device.word]

/-! ## The index page that changes -/

/-- The second loop of `delete_file` takes the file out of the first index page that has it. -/
theorem unlinkLoop_split {file fuel addr : Nat} {pages : List Nat} {result : Unit}
    (hcall : unlinkLoop file fuel addr device = .ok (some result, device'))
    (hchain : DataChain device addr pages) (hfile : file ∈ chainSlots device pages) :
    ∃ before page behind slot, pages = before ++ page :: behind ∧
      file ∉ chainSlots device before ∧ slotOf? (device.pages page) file = some slot ∧
      device' = device.set page (shiftChildren (device.pages page) slot) := by
  induction fuel generalizing addr pages with
  | zero => simp [unlinkLoop] at hcall
  | succ fuel ih =>
      cases pages with
      | nil => simp [chainSlots] at hfile
      | cons page rest =>
          obtain ⟨rfl, hne, -, hrest⟩ := hchain
          simp only [unlinkLoop, hne, if_false, Operation.bind_eq_ok, discRead_eq_ok] at hcall
          obtain ⟨_, _, ⟨-, rfl, rfl⟩, hcall⟩ := hcall
          cases hslot : slotOf? (device.pages addr) file with
          | some slot =>
              simp only [hslot, discWrite_eq_ok] at hcall
              exact ⟨[], addr, rest, slot, rfl, List.not_mem_nil, hslot, hcall.2⟩
          | none =>
              simp only [hslot] at hcall
              have hnot : file ∉ pageSlots device addr := fun hmem => mem_pageSlots_iff.mp hmem hslot
              rw [chainSlots_cons, List.mem_append, or_iff_right hnot] at hfile
              obtain ⟨before, page, behind, slot, rfl, hbefore, hfound, hdevice⟩ :=
                ih hcall hrest hfile
              refine ⟨addr :: before, page, behind, slot, rfl, ?_, hfound, hdevice⟩
              rw [chainSlots_cons, List.mem_append]
              exact not_or.mpr ⟨hnot, hbefore⟩

/-! ## The directory after the call -/

/-- The type of an entry is in the type of its page. -/
theorem entryType_of_type {handle : Nat} (hsize : device'.size = device.size)
    (htype : (device'.pages handle).type = (device.pages handle).type) :
    entryType device' handle = entryType device handle := by
  unfold entryType Device.read?
  rw [hsize]
  by_cases hlt : handle < device.size
  · simp only [if_pos hlt, htype]
  · simp only [if_neg hlt]

theorem shiftChildren_type (indexNode : Page) (index : Nat) :
    (shiftChildren indexNode index).type = indexNode.type :=
  shiftChildren_bytes indexNode index (by decide)

/-- What a completed `delete_file` does to the directory: one index page loses the file, and
all other addresses and all types are as before. -/
structure Unlisted (device device' : Device) (file page : Nat) : Prop where
  size : device'.size = device.size
  slots : pageSlots device' page = (pageSlots device page).erase file ++ [0]
  next : ∀ other ≠ rootAddress, device'.word other nextField = device.word other nextField
  others : ∀ other ≠ page, other ≠ rootAddress → ∀ offset > 0,
    device'.word other offset = device.word other offset
  types : ∀ handle, (device'.pages handle).type = (device.pages handle).type

/-- The writes of `delete_file`: the bits of the data pages, the index page and the root page. -/
theorem unlisted_of_writes {file page slot : Nat} (chain : List Nat) (least : Nat)
    (hpage : page ≠ rootAddress) (hslot : slotOf? ((cleared device chain).pages page) file = some slot) :
    Unlisted device (((cleared device chain).set page
      (shiftChildren ((cleared device chain).pages page) slot)).set rootAddress
        ((device.pages rootAddress).setWord firstFreeField least)) file page := by
  have hothers (other : Nat) (hother : other ≠ page) (hroot : other ≠ rootAddress) (offset : Nat)
      (hoffset : offset > 0) : (((cleared device chain).set page
        (shiftChildren ((cleared device chain).pages page) slot)).set rootAddress
          ((device.pages rootAddress).setWord firstFreeField least)).word other offset =
        device.word other offset := by
    rw [Device.word, Device.set_pages_of_ne _ _ hroot, Device.set_pages_of_ne _ _ hother,
      ← Device.word, cleared_word chain other hoffset]
  refine ⟨rfl, ?_, fun other hroot => ?_, hothers, fun handle => ?_⟩
  · rw [pageSlots_shift hslot fun i => ?_, pageSlots_congr fun i => ?_]
    · exact cleared_word chain page (by unfold childField; omega)
    · rw [Device.word, Device.set_pages_of_ne _ _ hpage, Device.set_pages_self]
  · by_cases hother : other = page
    · rw [hother, Device.word, Device.set_pages_of_ne _ _ hpage, Device.set_pages_self,
        shiftChildren_next]
      exact cleared_word chain page (by decide)
    · exact hothers other hother hroot nextField (by decide)
  · have hcleared : ((cleared device chain).pages handle).type = (device.pages handle).type := by
      simp only [cleared]
      split
      next => exact Page.type_setInUse _ _
      next => rfl
    by_cases hroot : handle = rootAddress
    · rw [hroot, Device.set_pages_self, Page.type_setWord _ (by decide)]
    · rw [Device.set_pages_of_ne _ _ hroot]
      by_cases hsame : handle = page
      · rw [hsame, Device.set_pages_self, shiftChildren_type, ← hsame, hcleared]
      · rw [Device.set_pages_of_ne _ _ hsame, hcleared]

section Call

variable {directory first file page fuel : Nat} {rest before behind children : List Nat}

theorem OrderlyDirectory.chain (hdirectory : OrderlyDirectory device directory first rest children) :
    DataChain device first (first :: rest) :=
  ⟨rfl, hdirectory.based, hdirectory.first_lt, hdirectory.linked⟩

theorem OrderlyDirectory.unlisted
    (hdirectory : OrderlyDirectory device directory first rest children) (hfile : file ∈ children)
    (hcall : deleteFile fuel rootAddress file device = .ok (some true, device')) :
    ∃ before page behind, first :: rest = before ++ page :: behind ∧
      file ∉ chainSlots device before ∧ file ∈ pageSlots device page ∧
      Unlisted device device' file page := by
  obtain ⟨chain, middle, -, -, hunlink, rfl⟩ := deleteFile_eq_ok hcall
  have hchain : DataChain (cleared device chain) first (first :: rest) :=
    hdirectory.chain.congr rfl fun page _ => cleared_word chain page (by decide)
  have hslots (page : Nat) : pageSlots (cleared device chain) page = pageSlots device page :=
    pageSlots_congr fun i => cleared_word chain page (by unfold childField; omega)
  have hall (pages : List Nat) : chainSlots (cleared device chain) pages = chainSlots device pages :=
    List.flatMap_congr fun page _ => hslots page
  have hmem : file ∈ chainSlots device (first :: rest) := by
    obtain ⟨free, hpacked⟩ := hdirectory.packed
    rw [hpacked]
    exact List.mem_append_left _ hfile
  rw [cleared_word chain _ (by decide), hdirectory.parents file hfile, hdirectory.root] at hunlink
  obtain ⟨before, page, behind, slot, hpages, hbefore, hslot, rfl⟩ :=
    unlinkLoop_split hunlink hchain (by rwa [hall])
  rw [hall] at hbefore
  have hpage : page ≠ rootAddress := by
    rintro rfl
    refine hdirectory.behindRoot (List.mem_cons_of_mem _ ?_)
    rw [hpages]
    exact List.mem_append_right _ List.mem_cons_self
  refine ⟨before, page, behind, hpages, hbefore, ?_, unlisted_of_writes chain _ hpage hslot⟩
  rw [← hslots]
  exact mem_pageSlots_iff.mpr (hslot.trans_ne (Option.some_ne_none slot))

/-- The slots of the directory after the call, with a free one where the page of the file ends. -/
theorem Unlisted.chainSlots (hunlisted : Unlisted device device' file page)
    (hnodup : (before ++ page :: behind).Nodup) (hroot : rootAddress ∉ before ++ page :: behind) :
    Pkfs.chainSlots device' (before ++ page :: behind) =
      Pkfs.chainSlots device before ++ (pageSlots device page).erase file ++
        0 :: Pkfs.chainSlots device behind := by
  have hothers {other : Nat} (hmem : other ∈ before ++ page :: behind) (hother : other ≠ page)
      (i : Nat) : device'.word other (childField i) = device.word other (childField i) := by
    refine hunlisted.others other hother ?_ _ (by unfold childField; omega)
    rintro rfl
    exact hroot hmem
  obtain ⟨hbefore, hbehind, hapart⟩ := List.nodup_append.mp hnodup
  rw [chainSlots_append, chainSlots_cons, hunlisted.slots]
  have hfirst : Pkfs.chainSlots device' before = Pkfs.chainSlots device before := by
    refine chainSlots_congr fun other hmem => hothers (List.mem_append_left _ hmem) ?_
    exact hapart other hmem page List.mem_cons_self
  have hlast : Pkfs.chainSlots device' behind = Pkfs.chainSlots device behind := by
    refine chainSlots_congr fun other hmem =>
      hothers (List.mem_append_right _ (List.mem_cons_of_mem _ hmem)) ?_
    rintro rfl
    exact (List.nodup_cons.mp hbehind).1 hmem
  rw [hfirst, hlast]
  simp

theorem mem_take_children (hfile : file ≠ 0) (free count : Nat) :
    file ∈ (children ++ List.replicate free 0).take count ↔ file ∈ children.take count := by
  rw [List.take_append, List.take_replicate, List.mem_append, List.mem_replicate, or_iff_left]
  exact fun hmem => hfile hmem.2

/-- Where the file is among the children, by the index page that has it. -/
theorem idxOf_children {free : Nat} (hfile : file ∈ children) (hne : file ≠ 0)
    (hslots : Pkfs.chainSlots device (before ++ page :: behind) = children ++ List.replicate free 0)
    (hbefore : file ∉ Pkfs.chainSlots device before) (hpage : file ∈ pageSlots device page) :
    children.idxOf file / directoryIndexChildrenSize = before.length ∧
      Pkfs.chainSlots device before ++ pageSlots device page =
        (children ++ List.replicate free 0).take (directoryIndexChildrenSize * (before.length + 1)) := by
  have hsize : directoryIndexChildrenSize = 60 := rfl
  rw [chainSlots_append, chainSlots_cons] at hslots
  have hfirst : Pkfs.chainSlots device before =
      (children ++ List.replicate free 0).take (directoryIndexChildrenSize * before.length) := by
    rw [← hslots, List.take_left' (length_chainSlots before)]
  have hboth : Pkfs.chainSlots device before ++ pageSlots device page =
      (children ++ List.replicate free 0).take (directoryIndexChildrenSize * (before.length + 1)) := by
    rw [← hslots, ← List.append_assoc, List.take_left']
    rw [List.length_append, length_chainSlots, length_pageSlots, Nat.mul_succ]
  refine ⟨?_, hboth⟩
  have hlower : ¬children.idxOf file < directoryIndexChildrenSize * before.length := by
    rwa [← List.mem_take_iff_idxOf_lt hfile, ← mem_take_children hne free, ← hfirst]
  have hupper : children.idxOf file < directoryIndexChildrenSize * (before.length + 1) := by
    rw [← List.mem_take_iff_idxOf_lt hfile, ← mem_take_children hne free, ← hboth]
    exact List.mem_append_right _ hpage
  rw [hsize] at hlower hupper ⊢
  omega

/-- How many children there can be up to the end of the index page that has the file. -/
def upToPage (children : List Nat) (file : Nat) : Nat :=
  directoryIndexChildrenSize * (children.idxOf file / directoryIndexChildrenSize + 1)

theorem mem_take_upToPage (hfile : file ∈ children) :
    file ∈ children.take (upToPage children file) :=
  (List.mem_take_iff_idxOf_lt hfile).mpr (Nat.lt_mul_div_succ _ (by decide))

/-- After the call the slots begin with the children up to the page of the file, without it, and
a free slot. -/
theorem OrderlyDirectory.slots_deleted
    (hdirectory : OrderlyDirectory device directory first rest children) (hfile : file ∈ children)
    (hcall : deleteFile fuel rootAddress file device = .ok (some true, device')) :
    ∃ page more, Unlisted device device' file page ∧ page ∈ first :: rest ∧
      Pkfs.chainSlots device' (first :: rest) =
        (children.take (upToPage children file)).erase file ++ 0 :: more := by
  obtain ⟨before, page, behind, hpages, hbefore, hpage, hunlisted⟩ := hdirectory.unlisted hfile hcall
  obtain ⟨free, hpacked⟩ := hdirectory.packed
  have hne := hdirectory.used file hfile
  have hnodup := hdirectory.chain.nodup
  have hroot : rootAddress ∉ first :: rest := fun hmem =>
    hdirectory.behindRoot (List.mem_cons_of_mem _ hmem)
  rw [hpages] at hpacked hnodup hroot
  obtain ⟨hindex, hslots⟩ := idxOf_children hfile hne hpacked hbefore hpage
  obtain ⟨more, hmore⟩ : ∃ more, List.replicate
      (min (upToPage children file - children.length) free) 0 ++
        0 :: Pkfs.chainSlots device behind = 0 :: more := by
    cases min (upToPage children file - children.length) free <;> exact ⟨_, rfl⟩
  refine ⟨page, more, hunlisted, hpages ▸ List.mem_append_right _ List.mem_cons_self, ?_⟩
  rw [hpages, hunlisted.chainSlots hnodup hroot, ← List.erase_append_right _ hbefore, hslots,
    ← hindex, ← upToPage, List.take_append, List.erase_append_left _ (mem_take_upToPage hfile), List.take_replicate,
    List.append_assoc, hmore]

/-- The listing after the call ends where the page of the file ends. -/
theorem OrderlyDirectory.lists_deleted
    (hdirectory : OrderlyDirectory device directory first rest children) (hfile : file ∈ children)
    (hcall : deleteFile fuel rootAddress file device = .ok (some true, device')) :
    Lists device' directory ((children.take (upToPage children file)).erase file) := by
  obtain ⟨page, more, hunlisted, hpage, hslots⟩ := hdirectory.slots_deleted hfile hcall
  have hroot {other : Nat} (hmem : other ∈ directory :: first :: rest) : other ≠ rootAddress := by
    rintro rfl
    exact hdirectory.behindRoot hmem
  have hdirectoryPage : directory ≠ page := by
    rintro rfl
    exact hdirectory.apart hpage
  have htarget : device'.word directory targetField = first := by
    rw [hunlisted.others directory hdirectoryPage (hroot List.mem_cons_self) _ (by decide),
      hdirectory.root]
  have hnext : device'.word first nextField = device.word first nextField :=
    hunlisted.next first (hroot (by simp))
  have hchain : DataChain device' (device'.word first nextField) rest := by
    rw [hnext]
    refine hdirectory.linked.congr hunlisted.size fun other hmem => ?_
    exact hunlisted.next other (hroot (by simp [hmem]))
  have hinit : directoryIteratorInit directory device' =
      .ok (some ⟨device'.pages directory, device'.pages first, 0⟩, device') := by
    refine directoryIteratorInit_eq_ok.mpr ⟨?_, ?_, rfl, by rw [htarget]⟩
    · rw [hunlisted.size]
      exact hdirectory.directory_lt
    · rw [htarget, hunlisted.size]
      exact hdirectory.first_lt
  have hbefore : Before device' ⟨device'.pages directory, device'.pages first, 0⟩
      ((children.take (upToPage children file)).erase file ++ 0 :: more) :=
    ⟨first, rest, rfl, hchain, by rw [slotsFrom_zero, hslots]⟩
  have hleft {child : Nat} (hmem : child ∈ (children.take (upToPage children file)).erase file) :
      child ∈ children := List.mem_of_mem_take (List.mem_of_mem_erase hmem)
  obtain ⟨behind, hbehind, hlisting⟩ := hbefore.listing
    (fun child hmem => hdirectory.used child (hleft hmem))
    (fun child hmem => by
      rw [entryType_of_type hunlisted.size (hunlisted.types child)]
      exact hdirectory.typed child (hleft hmem))
  refine ⟨_, _, hinit, (hlisting 1).trans ?_⟩
  rw [listing_succ_of_none hbehind.free]
  simp [Except.map]

/-- The iterator yields the other children, in their order, exactly if no child is behind the
index page of the file. -/
theorem lists_others_iff (hdirectory : OrderlyDirectory device directory first rest children)
    (hfile : file ∈ children)
    (hcall : deleteFile fuel rootAddress file device = .ok (some true, device')) :
    Lists device' directory (children.erase file) ↔ children.length ≤ upToPage children file := by
  have hlists := hdirectory.lists_deleted hfile hcall
  constructor
  · intro hothers
    have hlength := congrArg List.length (hlists.unique hothers)
    rw [List.length_erase_of_mem (mem_take_upToPage hfile), List.length_erase_of_mem hfile,
      List.length_take] at hlength
    have hpositive := List.length_pos_of_mem hfile
    have hupTo : 0 < upToPage children file := Nat.mul_pos (by decide) (Nat.succ_pos _)
    omega
  · intro hall
    rwa [List.take_of_length_le hall] at hlists

end Call

/-! ## A directory on two index pages -/

/-- `fullImage` with one more index page, on which there is the file 188. -/
def spreadImage : Device :=
  (((fullImage.set 66 (fullIndex.setWord nextField 187)).set 187
    ((newDirectoryIndex 65).setWord (childField 0) 188)).set 188
      ((newNodePage .file 189).setWord nodeParentField 65)).set 189 (newFileData 188)

/-- The files in `spreadImage`. -/
def spreadChildren : List Nat := fullChildren ++ [188]

theorem spreadImage_slots : pageSlots spreadImage 66 = fullChildren ∧
    pageSlots spreadImage 187 = 188 :: List.replicate 59 0 := by
  constructor
  · refine List.map_congr_left fun index hindex => ?_
    change (fullIndex.setWord nextField 187).word (childField index) = 67 + 2 * index
    rw [Page.word_setWord_of_disjoint _ (.inr (by unfold childField nextField; omega))]
    exact fullIndex_child index (List.mem_range.mp hindex)
  · have hlast (index : Nat) : spreadImage.word 187 (childField index) =
        if index = 0 then 188 else 0 := by
      change ((newDirectoryIndex 65).setWord (childField 0) 188).word (childField index) = _
      split
      next hfirst => rw [hfirst, Page.word_setWord_same _ (by decide)]
      next hfirst =>
        rw [Page.word_setWord_of_disjoint _ (by unfold childField; omega)]
        exact Page.ZeroFrom.word (newDirectoryIndex_zeroFrom 65) (by unfold childField prevField; omega)
    rw [pageSlots, List.map_congr_left fun index _ => hlast index]
    decide

theorem spreadImage_orderly : OrderlyDirectory spreadImage 65 66 [187] spreadChildren where
  directory_lt := by decide
  root := fullImage_root.2.2
  first_lt := by decide
  linked := show spreadImage.word 66 nextField = 187 ∧ 187 ≠ 0 ∧ 187 < spreadImage.size ∧
      spreadImage.word 187 nextField = 0 by decide +kernel
  used := by decide
  packed := by
    refine ⟨59, ?_⟩
    rw [chainSlots, List.flatMap_cons, List.flatMap_singleton, spreadImage_slots.1, spreadImage_slots.2,
      spreadChildren, List.append_assoc]
    rfl
  based := by decide
  typed := by decide +kernel
  parents := by decide +kernel
  apart := by decide
  behindRoot := by decide

theorem spreadImage_delete {file : Nat} (hfile : file = 67 ∨ file = 188) :
    ∃ gone, deleteFile 3 rootAddress file spreadImage = .ok (some true, gone) := by
  have hcall : (deleteFile 3 rootAddress file spreadImage).toOption.map Prod.fst =
      some (some true) := by
    rcases hfile with rfl | rfl
    · decide +kernel
    · decide +kernel
  obtain ⟨⟨result, gone⟩, hsome, rfl⟩ := Option.map_eq_some_iff.mp hcall
  exact ⟨gone, toOption_eq_some.mp hsome⟩

/-- Without the file on the last index page all others are listed. -/
theorem lists_others_last : ∃ gone, deleteFile 3 rootAddress 188 spreadImage = .ok (some true, gone) ∧
    Lists gone 65 (spreadChildren.erase 188) := by
  obtain ⟨gone, hcall⟩ := spreadImage_delete (.inr rfl)
  exact ⟨gone, hcall, (lists_others_iff spreadImage_orderly (by decide) hcall).mpr (by decide)⟩

/-- With file 67 the listing loses file 188. -/
theorem not_lists_others_first : OrderlyDirectory spreadImage 65 66 [187] spreadChildren ∧
    ∃ gone, deleteFile 3 rootAddress 67 spreadImage = .ok (some true, gone) ∧
      ¬Lists gone 65 (spreadChildren.erase 67) := by
  obtain ⟨gone, hcall⟩ := spreadImage_delete (.inl rfl)
  have hlists := spreadImage_orderly.lists_deleted (by decide) hcall
  refine ⟨spreadImage_orderly, gone, hcall, fun hothers => ?_⟩
  exact absurd (hlists.unique hothers) (by decide)

end PKernel.Pkfs
