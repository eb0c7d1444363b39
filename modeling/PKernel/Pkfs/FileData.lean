import Mathlib.Data.List.Basic
import PKernel.Pkfs.OwnershipRun

/-! # The data of a file

A file is a chain of data pages, and its data are those of the pages one behind the
other. `read_file` returns a slice of them. `write_file` puts its buffer behind the data
of the first page, wherever the offset in that page is, and for an offset behind the
first page it does not return.
-/

namespace PKernel.Pkfs

open Operation Library.ByteMemory

/-- The data of a page. -/
def pageData (device : Device) (page : Nat) : List UInt8 :=
  (List.range (device.pages page).size).map (device.pages page).datum

/-- The data of a chain of pages. -/
def chainData (device : Device) (chain : List Nat) : List UInt8 := chain.flatMap (pageData device)

/-- A file whose data pages are a chain, and no page of which has more data than fit. -/
structure FileOn (device : Device) (file : Nat) (chain : List Nat) : Prop where
  file_lt : file < device.size
  linked : DataChain device (device.word file targetField) chain
  nonempty : chain ≠ []
  apart : file ∉ chain
  fits : ∀ page ∈ chain, (device.pages page).size ≤ fileDataPageSize

variable {device device' : Device}

@[simp]
theorem length_pageData (page : Nat) : (pageData device page).length = (device.pages page).size := by
  simp [pageData]

theorem chainData_cons (page : Nat) (rest : List Nat) :
    chainData device (page :: rest) = pageData device page ++ chainData device rest := by
  simp [chainData]

/-! ## Reading -/

/-- The data from a place in a page on. -/
def dataFrom (device : Device) (page inner : Nat) (rest : List Nat) : List UInt8 :=
  (pageData device page).drop inner ++ chainData device rest

theorem dataFrom_zero (page : Nat) (rest : List Nat) :
    dataFrom device page 0 rest = chainData device (page :: rest) := by
  rw [dataFrom, List.drop_zero, chainData_cons]

theorem dataFrom_of_lt {page inner : Nat} (hinner : inner < (device.pages page).size)
    (rest : List Nat) : dataFrom device page inner rest =
      (device.pages page).datum inner :: dataFrom device page (inner + 1) rest := by
  have hlength : inner < (pageData device page).length := by rwa [length_pageData]
  rw [dataFrom, List.drop_eq_getElem_cons hlength, List.cons_append]
  simp [pageData, dataFrom]

theorem dataFrom_of_le {page inner : Nat} (hinner : (device.pages page).size ≤ inner)
    (rest : List Nat) : dataFrom device page inner rest = chainData device rest := by
  rw [dataFrom, List.drop_of_length_le (by rwa [length_pageData]), List.nil_append]

/-- The page behind a page of a chain. -/
theorem DataChain.next {page : Nat} {rest : List Nat}
    (hrest : DataChain device (device.word page nextField) rest) :
    (device.word page nextField = 0 ∧ rest = []) ∨
      ∃ next tail, rest = next :: tail ∧ device.word page nextField = next ∧ next ≠ 0 ∧
        next < device.size ∧ DataChain device (device.word next nextField) tail := by
  cases rest with
  | nil => exact .inl ⟨hrest, rfl⟩
  | cons next tail => exact .inr ⟨next, tail, rfl, hrest⟩

/-- The first loop goes to the place `offset` bytes on, if the data go on that far. -/
theorem skipLoop_eq {fuel offset page inner : Nat} {rest : List Nat}
    (hfuel : offset + rest.length < fuel) (hinner : inner ≤ (device.pages page).size)
    (hrest : DataChain device (device.word page nextField) rest) :
    (∃ page' inner' rest', skipLoop fuel offset (device.pages page) inner device =
        .ok (some (device.pages page', inner'), device) ∧
      DataChain device (device.word page' nextField) rest' ∧ page' :: rest' <:+ page :: rest ∧
      dataFrom device page' inner' rest' = (dataFrom device page inner rest).drop offset) ∨
    skipLoop fuel offset (device.pages page) inner device = .ok (none, device) ∧
      (dataFrom device page inner rest).length ≤ offset := by
  induction fuel generalizing offset page inner rest with
  | zero => omega
  | succ fuel ih =>
      unfold skipLoop
      by_cases hzero : offset = 0
      · left
        refine ⟨page, inner, rest, ?_, hrest, List.suffix_rfl, ?_⟩
        · rw [if_pos hzero]
          rfl
        · rw [hzero, List.drop_zero]
      · rw [if_neg hzero]
        by_cases hlt : inner < (device.pages page).size
        · rw [if_pos hlt, dataFrom_of_lt hlt]
          obtain ⟨offset, rfl⟩ := Nat.exists_eq_succ_of_ne_zero hzero
          have hshorter : offset + rest.length < fuel := by omega
          simpa using ih hshorter hlt hrest
        · rw [if_neg hlt, dataFrom_of_le (by omega)]
          rcases hrest.next with ⟨hlast, rfl⟩ | ⟨next, tail, rfl, hnext, hne, hnextLt, htail⟩
          · right
            have hend : (device.pages page).word nextField = 0 := hlast
            rw [if_pos hend]
            exact ⟨rfl, Nat.zero_le _⟩
          · have hgo : (device.pages page).word nextField = next := hnext
            simp only [hgo, hne, if_false]
            rw [Operation.bind_of_some (discRead_of_lt hnextLt)]
            have hshorter : offset + tail.length < fuel := by
              simp only [List.length_cons] at hfuel
              omega
            have hrec := ih hshorter (Nat.zero_le _) htail
            rw [dataFrom_zero] at hrec
            refine hrec.imp_left ?_
            rintro ⟨page', inner', rest', hskip, hchain, hsuffix, hdata⟩
            exact ⟨page', inner', rest', hskip, hchain, hsuffix.trans (List.suffix_cons _ _), hdata⟩

/-- The second loop copies as much as is asked for and there is. -/
theorem copyLoop_eq {fuel size page inner : Nat} {rest : List Nat} {buffer : List UInt8}
    (hfuel : size + rest.length < fuel)
    (hfits : ∀ next ∈ page :: rest, (device.pages next).size ≤ fileDataPageSize)
    (hrest : DataChain device (device.word page nextField) rest) :
    copyLoop device fuel size (device.pages page) inner buffer =
      .ok (buffer ++ (dataFrom device page inner rest).take size) := by
  induction fuel generalizing size page inner rest buffer with
  | zero => omega
  | succ fuel ih =>
      unfold copyLoop
      by_cases hzero : size = 0
      · rw [if_pos hzero, hzero, List.take_zero, List.append_nil]
      · rw [if_neg hzero]
        by_cases hlt : inner < (device.pages page).size
        · have hfit := hfits page List.mem_cons_self
          obtain ⟨size, rfl⟩ := Nat.exists_eq_succ_of_ne_zero hzero
          rw [if_pos hlt, if_neg (by omega), dataFrom_of_lt hlt, Nat.succ_sub_one,
            ih (by omega) hfits hrest]
          simp
        · rw [if_neg hlt, dataFrom_of_le (by omega)]
          rcases hrest.next with ⟨hlast, rfl⟩ | ⟨next, tail, rfl, hnext, hne, hnextLt, htail⟩
          · have hend : (device.pages page).word nextField = 0 := hlast
            rw [if_pos hend]
            simp [chainData]
          · have hgo : (device.pages page).word nextField = next := hnext
            have hread : device.read? next = some (device.pages next) :=
              read?_eq_some.mpr ⟨hnextLt, rfl⟩
            simp only [hgo, hne, if_false, hread]
            rw [ih (by simp only [List.length_cons] at hfuel; omega)
              (fun other hother => hfits other (List.mem_cons_of_mem _ hother)) htail, dataFrom_zero]

/-- A file whose data pages are a chain that ends, from `first` on, whatever address that is.
Every page has at most as much data as fit. -/
structure Readable (device : Device) (file first : Nat) (rest : List Nat) : Prop where
  file_lt : file < device.size
  root : device.word file targetField = first
  first_lt : first < device.size
  linked : DataChain device (device.word first nextField) rest
  fits : ∀ page ∈ first :: rest, (device.pages page).size ≤ fileDataPageSize

theorem FileOn.readable {file first : Nat} {rest : List Nat}
    (hfile : FileOn device file (first :: rest)) : Readable device file first rest := by
  obtain ⟨hroot, -, hfirst, hrest⟩ := hfile.linked
  exact ⟨hfile.file_lt, hroot, hfirst, hrest, hfile.fits⟩

/-- With enough steps `read_file` returns the slice that is asked for, as far as the data go. -/
theorem Readable.readFile_eq {file first : Nat} {rest : List Nat}
    (hfile : Readable device file first rest) {fuel size offset : Nat}
    (hfuel : size + offset + (rest.length + 1) < fuel) :
    ∃ result, readFile fuel file size offset device = .ok (result, device) ∧
      result.getD [] = ((chainData device (first :: rest)).drop offset).take size := by
  have htarget : (device.pages file).word targetField = first := hfile.root
  unfold readFile
  rw [bind_of_some (discRead_of_lt hfile.file_lt)]
  simp only [htarget]
  rw [bind_of_some (discRead_of_lt hfile.first_lt), ← dataFrom_zero]
  have hskipFuel : offset + rest.length < fuel := by omega
  rcases skipLoop_eq hskipFuel (Nat.zero_le _) hfile.linked with
    ⟨page', inner', rest', hskip, hrest', hsuffix, hdata⟩ | ⟨hskip, hshort⟩
  · have hlength := hsuffix.length_le
    simp only [List.length_cons] at hlength
    have hcopy : copyLoop device fuel size (device.pages page') inner' [] =
        .ok ((dataFrom device page' inner' rest').take size) := by
      rw [copyLoop_eq (by omega) (fun next hnext => hfile.fits next (hsuffix.subset hnext)) hrest',
        List.nil_append]
    rw [← hdata]
    refine ⟨some ((dataFrom device page' inner' rest').take size), (bind_of_some hskip).trans ?_, rfl⟩
    simp only [hcopy, Except.map]
  · refine ⟨none, ?_, ?_⟩
    · simp only [bind, hskip]
    · rw [List.drop_of_length_le hshort, List.take_nil]
      rfl

/-- `read_file` returns, with as many bytes as are asked for or as there are from the offset
on, and these are the data there. -/
theorem readFile_slice {file first : Nat} {rest : List Nat} (hfile : Readable device file first rest)
    (size offset : Nat) : ∃ enough, ∀ fuel, enough ≤ fuel → ∃ result,
      readFile fuel file size offset device = .ok (result, device) ∧
        (result.getD []).length = min size ((chainData device (first :: rest)).length - offset) ∧
        result.getD [] = ((chainData device (first :: rest)).drop offset).take size := by
  refine ⟨size + offset + (rest.length + 1) + 1, fun fuel henough => ?_⟩
  obtain ⟨result, hread, hslice⟩ := hfile.readFile_eq (Nat.lt_of_succ_le henough)
  refine ⟨result, hread, ?_, hslice⟩
  rw [hslice, List.length_take, List.length_drop]

theorem readFile_eq {file : Nat} {chain : List Nat} (hfile : FileOn device file chain)
    {fuel size offset : Nat} (hfuel : size + offset + chain.length < fuel) :
    ∃ result, readFile fuel file size offset device = .ok (result, device) ∧
      result.getD [] = ((chainData device chain).drop offset).take size := by
  obtain ⟨first, rest, rfl⟩ := List.exists_cons_of_ne_nil hfile.nonempty
  exact hfile.readable.readFile_eq hfuel

/-! ## Writing in the first page -/

theorem writeSize_of_fits {fileData : Page} (hfits : fileData.size ≤ fileDataPageSize) (count : Nat) :
    writeSize fileData count = min count (fileDataPageSize - fileData.size) := by
  have hwrap : fileDataPageSize + 2 ^ 64 - fileData.size = 2 ^ 64 + (fileDataPageSize - fileData.size) := by
    omega
  rw [writeSize, hwrap, u64, Nat.add_mod_left, Nat.mod_eq_of_lt]
  unfold fileDataPageSize
  omega

theorem appended_size {fileData : Page} (hfits : fileData.size ≤ fileDataPageSize)
    (buffer : List UInt8) : (appended fileData buffer).size =
      fileData.size + min buffer.length (fileDataPageSize - fileData.size) := by
  rw [appended, writeSize_of_fits hfits, Page.size, Page.setSize, loadLE_storeLE_same]
  apply Nat.mod_eq_of_lt
  unfold fileDataPageSize at hfits ⊢
  omega

@[simp]
theorem Page.datum_setSize (page : Page) (value index : Nat) :
    (page.setSize value).datum index = page.datum index :=
  storeLE_apply_of_outside (.inr (by omega))

theorem appended_datum {fileData : Page} {buffer : List UInt8} {index : Nat}
    (hindex : index < fileData.size) : (appended fileData buffer).datum index = fileData.datum index := by
  rw [appended, Page.datum_setSize, Page.datum, Page.copy_apply_of_outside _ (.inl (by omega)), Page.datum]

theorem appended_datum_behind {fileData : Page} {buffer : List UInt8} {index : Nat}
    (hindex : index < (buffer.take (writeSize fileData buffer.length)).length) :
    (appended fileData buffer).datum (fileData.size + index) =
      (buffer.take (writeSize fileData buffer.length))[index] := by
  rw [appended, Page.datum_setSize, Page.datum, ← Nat.add_assoc, Page.copy_apply _ hindex]

/-- The data that fit go behind those of the page. -/
theorem pageData_appended {page : Nat} (hfits : (device.pages page).size ≤ fileDataPageSize)
    (buffer : List UInt8) : pageData (device.set page (appended (device.pages page) buffer)) page =
      pageData device page ++ buffer.take (fileDataPageSize - (device.pages page).size) := by
  have htake : buffer.take (writeSize (device.pages page) buffer.length) =
      buffer.take (fileDataPageSize - (device.pages page).size) := by
    rw [writeSize_of_fits hfits, List.take_eq_take_iff]
    omega
  apply List.ext_getElem
  · simp [appended_size hfits, Nat.min_comm]
  · intro index hindex hindex'
    simp only [pageData, List.getElem_map, List.getElem_range, Device.set_pages_self]
    by_cases hbefore : index < (device.pages page).size
    · rw [List.getElem_append_left (by simpa using hbefore), appended_datum hbefore]
      simp
    · obtain ⟨index, rfl⟩ := Nat.exists_eq_add_of_le (Nat.le_of_not_lt hbefore)
      simp only [length_pageData] at hindex
      have hplace : index < (buffer.take (writeSize (device.pages page) buffer.length)).length := by
        simp only [List.length_append, length_pageData, ← htake] at hindex'
        omega
      rw [appended_datum_behind hplace, List.getElem_append_right (by simp)]
      simp [htake]

/-- What a `write_file` at an offset in the first page does to a file. -/
theorem writeFile_of_fileOn {file first : Nat} {rest : List Nat}
    (hfile : FileOn device file (first :: rest)) {offset : Nat} (hoffset : offset < fileDataPageSize)
    (fuel : Nat) (buffer : List UInt8) : writeFile (fuel + 1) file buffer offset device =
      .ok (some buffer.length, device.set first (appended (device.pages first) buffer)) := by
  obtain ⟨htarget, -, hfirst, -⟩ := hfile.linked
  have htarget : (device.pages file).word targetField = first := htarget
  have hfits := hfile.fits first List.mem_cons_self
  have hnoOverrun : ¬ (0 < writeSize (device.pages first) buffer.length ∧
      fileDataPageSize < (device.pages first).size + writeSize (device.pages first) buffer.length) := by
    rw [writeSize_of_fits hfits]
    omega
  unfold writeFile writeLoop
  rw [bind_of_some (discRead_of_lt hfile.file_lt)]
  simp only [htarget, hoffset, if_true]
  have hloop : (discRead first >>= fun fileData =>
      if 0 < writeSize fileData buffer.length ∧
          fileDataPageSize < fileData.size + writeSize fileData buffer.length then stop .overrun
      else discWrite first (appended fileData buffer)) device =
        .ok (some (), device.set first (appended (device.pages first) buffer)) := by
    rw [bind_of_some (discRead_of_lt hfirst), if_neg hnoOverrun, discWrite_of_lt hfirst]
  rw [bind_of_some hloop]
  rfl

/-- The pages of the file stay those they were, and its data have grown in the first page. -/
theorem FileOn.appended {file first : Nat} {rest : List Nat}
    (hfile : FileOn device file (first :: rest)) (buffer : List UInt8) :
    FileOn (device.set first (appended (device.pages first) buffer)) file (first :: rest) := by
  have hfits := hfile.fits first List.mem_cons_self
  have hne : file ≠ first := fun hsame => hfile.apart (by simp [hsame])
  constructor
  case file_lt => exact hfile.file_lt
  case linked =>
    rw [Device.word, Device.set_pages_of_ne _ _ hne]
    refine hfile.linked.congr rfl fun page _ => ?_
    by_cases hsame : page = first
    · rw [hsame, Device.word, Device.set_pages_self, appended_next, Device.word]
    · rw [Device.word, Device.set_pages_of_ne _ _ hsame, Device.word]
  case nonempty => exact hfile.nonempty
  case apart => exact hfile.apart
  case fits =>
    intro page hpage
    by_cases hsame : page = first
    · rw [hsame, Device.set_pages_self, appended_size hfits]
      omega
    · rw [Device.set_pages_of_ne _ _ hsame]
      exact hfile.fits page hpage

theorem FileOn.chainData_appended {file first : Nat} {rest : List Nat}
    (hfile : FileOn device file (first :: rest)) (buffer : List UInt8) :
    chainData (device.set first (Pkfs.appended (device.pages first) buffer)) (first :: rest) =
      pageData device first ++ buffer.take (fileDataPageSize - (device.pages first).size) ++
        chainData device rest := by
  have hfirst : first ∉ rest := (List.nodup_cons.mp hfile.linked.nodup).1
  rw [chainData_cons, pageData_appended (hfile.fits first List.mem_cons_self)]
  congr 1
  refine List.flatMap_congr fun page hpage => ?_
  have hne : page ≠ first := fun hsame => hfirst (hsame ▸ hpage)
  rw [pageData, pageData, Device.set_pages_of_ne _ _ hne]

/-! ## Writing behind the first page -/

theorem newDataPage_next (prev : Nat) : (newDataPage prev).word nextField = 0 := by
  rw [newDataPage, Page.word_setWord_of_disjoint _ (by decide), Page.word_setWord_same _ (by decide)]

/-- The root page leads to a free page behind it. -/
def HasFree (device : Device) : Prop :=
  rootAddress < device.firstFree ∧ device.firstFree < device.size

/-- `alloc_page` gives the first free page, or 0 when there is no other behind it. -/
theorem allocPage_orZero (hfree : HasFree device) :
    ∃ next device', allocPage.orZero device = .ok (some next, device') ∧ device'.size = device.size ∧
      HasFree device' ∧ next ≠ rootAddress ∧ next < device.size := by
  have hroot : rootAddress < device.size := hfree.1.trans hfree.2
  unfold Operation.orZero allocPage
  rw [bind_of_some (discRead_of_lt hroot)]
  cases hnext : nextFree device.firstFree device with
  | error reason => simp [nextFree] at hnext
  | ok outcome =>
      obtain ⟨node, device'⟩ := outcome
      obtain rfl := nextFree_device hnext
      have hcall : nextFree ((device.pages rootAddress).word firstFreeField) device =
          .ok (node, device) := hnext
      cases node with
      | none =>
          refine ⟨0, device, ?_, rfl, hfree, by decide, by omega⟩
          simp only [bind, hcall, Option.getD_none]
      | some node =>
          obtain ⟨-, hlower, hupper, -, -⟩ := (nextFree_eq_ok hfree.2).mp hnext
          have hfirst : (device.setFirstFree node).firstFree = node :=
            device.setFirstFree_firstFree (by have := device.size_lt; omega)
          have hfree' : HasFree (device.setFirstFree node) := by
            rw [HasFree, hfirst]
            exact ⟨hfree.1.trans hlower, hupper⟩
          refine ⟨device.firstFree, device.setFirstFree node, ?_, rfl, hfree', hfree.1.ne', hfree.2⟩
          simp only [bind, hcall, discWrite_of_lt hroot]
          rfl

/-- The loop goes from page to page without an end. -/
theorem writeLoop_behind (buffer : List UInt8) {offset : Nat} (hoffset : fileDataPageSize ≤ offset)
    (fuel : Nat) {addr : Nat} {rest : List Nat} (haddr : addr < device.size)
    (hrest : DataChain device (device.word addr nextField) rest) (hfree : HasFree device) :
    writeLoop buffer offset fuel addr device = .error .nontermination := by
  induction fuel generalizing addr rest device with
  | zero => rfl
  | succ fuel ih =>
      unfold writeLoop
      rw [bind_of_some (discRead_of_lt haddr), if_neg (by omega)]
      rcases hrest.next with ⟨hlast, rfl⟩ | ⟨next, tail, rfl, hnext, hne, hnextLt, htail⟩
      · have hend : (device.pages addr).word nextField = 0 := hlast
        obtain ⟨next, device', halloc, hsize, hfree', hne, hlt⟩ := allocPage_orZero hfree
        rw [if_pos hend, bind_of_some halloc, bind_of_some (discWrite_of_lt (hsize ▸ hlt) _)]
        have hlast : DataChain (device'.set next (newDataPage addr))
            ((device'.set next (newDataPage addr)).word next nextField) [] := by
          rw [Device.word, Device.set_pages_self]
          exact newDataPage_next addr
        refine ih (hsize ▸ hlt) hlast ?_
        rw [HasFree, Device.set_firstFree _ _ hne]
        exact hfree'
      · have hgo : (device.pages addr).word nextField = next := hnext
        simp only [hgo, hne, if_false]
        exact ih hnextLt htail hfree

theorem writeFile_behind {file : Nat} {chain : List Nat} (hfile : FileOn device file chain)
    (hfree : HasFree device) {offset : Nat} (hoffset : fileDataPageSize ≤ offset) (fuel : Nat)
    (buffer : List UInt8) : writeFile fuel file buffer offset device = .error .nontermination := by
  obtain ⟨first, rest, rfl⟩ := List.exists_cons_of_ne_nil hfile.nonempty
  obtain ⟨htarget, -, hfirst, hrest⟩ := hfile.linked
  have htarget : (device.pages file).word targetField = first := htarget
  unfold writeFile
  rw [bind_of_some (discRead_of_lt hfile.file_lt)]
  simp only [htarget]
  have hloop := writeLoop_behind buffer hoffset fuel hfirst hrest hfree
  simp only [bind, hloop]

/-! ## Reading what was written -/

/-- The file has these data. -/
def HasData (device : Device) (file : Nat) (data : List UInt8) : Prop :=
  ∃ chain, FileOn device file chain ∧ chainData device chain = data

/-- A file in the format: every page but the last is full. -/
structure WellFormedFile (device : Device) (file : Nat) (chain : List Nat) : Prop
    extends FileOn device file chain where
  full : ∀ page ∈ chain.dropLast, (device.pages page).size = fileDataPageSize

/-- When the write of a buffer to a file with some data returns, a read at the offset gives
as much of the buffer as the write says, the data elsewhere are what they were, and the
length is the end of the old data or of the new. -/
def WriteReads (device : Device) (file : Nat) (data buffer : List UInt8) (offset : Nat) : Prop :=
  ∀ fuel result device', writeFile fuel file buffer offset device = .ok (result, device') →
    ∃ data', HasData device' file data' ∧
      (∃ enough, ∀ fuel', enough ≤ fuel' → ∃ read,
        readFile fuel' file (result.getD 0) offset device' = .ok (read, device') ∧
          read.getD [] = buffer.take (result.getD 0)) ∧
      data'.length = max data.length (offset + result.getD 0) ∧
      ∀ index, index < data.length → index < offset ∨ offset + result.getD 0 ≤ index →
        data'[index]? = data[index]?

theorem HasData.unique {file : Nat} {data data' : List UInt8} (hdata : HasData device file data)
    (hdata' : HasData device file data') : data = data' := by
  obtain ⟨chain, hfile, rfl⟩ := hdata
  obtain ⟨chain', hfile', rfl⟩ := hdata'
  rw [hfile.linked.unique hfile'.linked]

/-- What a completed `write_file` in the first page leaves in a file that is in the format:
the beginning of the buffer behind the data, as far as it fits in the first page. -/
theorem WellFormedFile.written {file first : Nat} {rest : List Nat}
    (hfile : WellFormedFile device file (first :: rest)) (buffer : List UInt8) :
    HasData (device.set first (appended (device.pages first) buffer)) file
      (chainData device (first :: rest) ++
        buffer.take (fileDataPageSize - (chainData device (first :: rest)).length)) := by
  refine ⟨first :: rest, hfile.toFileOn.appended buffer, ?_⟩
  rw [hfile.toFileOn.chainData_appended, chainData_cons, List.length_append, length_pageData]
  cases rest with
  | nil => simp [chainData]
  | cons next tail =>
      have hfull := hfile.full first (by simp)
      simp [hfull]

/-- The offset is in the data, the buffer ends where a page does or the data are as long as
a page, and what is there from the offset on, with what the call puts behind it, is the
buffer already. -/
def Rewrites (data buffer : List UInt8) (offset : Nat) : Prop :=
  offset < data.length ∧
    (data.length < fileDataPageSize → offset + buffer.length = fileDataPageSize) ∧
      (data.drop offset ++ buffer.take (fileDataPageSize - data.length)).take buffer.length = buffer

/-- In the first page, what a write comes to is what the data behind it come to. -/
theorem WellFormedFile.writeReads_front {file : Nat} {chain : List Nat}
    (hfile : WellFormedFile device file chain) {offset : Nat} (hoffset : offset < fileDataPageSize)
    {data : List UInt8} (hdata : chainData device chain = data) (buffer : List UInt8) :
    WriteReads device file data buffer offset ↔
      ((data ++ buffer.take (fileDataPageSize - data.length)).drop offset).take buffer.length = buffer ∧
        (data ++ buffer.take (fileDataPageSize - data.length)).length =
          max data.length (offset + buffer.length) := by
  obtain ⟨first, rest, rfl⟩ := List.exists_cons_of_ne_nil hfile.nonempty
  subst hdata
  have hwritten := hfile.written buffer
  have hrun := fun fuel => writeFile_of_fileOn hfile.toFileOn hoffset fuel buffer
  generalize chainData device (first :: rest) = data at hwritten ⊢
  generalize device.set first (appended (device.pages first) buffer) = device' at hwritten hrun
  generalize hnew : data ++ buffer.take (fileDataPageSize - data.length) = new at hwritten ⊢
  obtain ⟨chain, hon, hchain⟩ := hwritten
  constructor
  · intro hreads
    obtain ⟨data', hdata', ⟨enough, hread⟩, hlength, -⟩ := hreads 1 _ _ (hrun 0)
    obtain rfl := HasData.unique ⟨chain, hon, hchain⟩ hdata'
    obtain ⟨read, hread, hbuffer⟩ := hread
      (max enough (buffer.length + offset + chain.length + 1)) (le_max_left _ _)
    obtain ⟨read', hread', hslice⟩ := readFile_eq hon
      (lt_of_lt_of_le (Nat.lt_succ_self _) (le_max_right enough _))
    have hsame : read = read' := by
      have heq := hread.symm.trans hread'
      simpa using heq
    rw [hsame, hslice, hchain] at hbuffer
    exact ⟨by simpa using hbuffer, hlength⟩
  · rintro ⟨hslice, hlength⟩ fuel result final hcall
    cases fuel with
    | zero =>
        have hstop : writeFile 0 file buffer offset device = .error .nontermination := by
          unfold writeFile writeLoop
          rw [bind_of_some (discRead_of_lt hfile.file_lt)]
          rfl
        rw [hstop] at hcall
        cases hcall
    | succ fuel =>
        rw [hrun fuel] at hcall
        cases hcall
        refine ⟨new, ⟨chain, hon, hchain⟩, ⟨buffer.length + offset + chain.length + 1, ?_⟩, hlength, ?_⟩
        · intro fuel' henough
          obtain ⟨read, hread, hread'⟩ := readFile_eq hon (Nat.lt_of_succ_le henough)
          refine ⟨read, hread, ?_⟩
          rw [hread', hchain, hslice]
          exact (List.take_length).symm
        · intro index hindex _
          rw [← hnew, List.getElem?_append_left hindex]

/-- When the beginning of a buffer goes behind the data, the buffer is found at the offset
only if that is the end of the data and the page has room, or if it was there before. -/
theorem append_reads_iff {data buffer : List UInt8} {offset : Nat} (hbuffer : buffer ≠ [])
    (hoffset : offset ≤ data.length) :
    (((data ++ buffer.take (fileDataPageSize - data.length)).drop offset).take buffer.length = buffer ∧
      (data ++ buffer.take (fileDataPageSize - data.length)).length =
        max data.length (offset + buffer.length)) ↔
      (offset = data.length ∧ data.length + buffer.length ≤ fileDataPageSize) ∨
        Rewrites data buffer offset := by
  have hpos : 0 < buffer.length := List.length_pos_of_ne_nil hbuffer
  rw [List.drop_append_of_le_length hoffset]
  simp only [List.length_append, List.length_take]
  constructor
  · rintro ⟨hslice, hlength⟩
    rcases Nat.lt_or_eq_of_le hoffset with hinside | hend
    · exact .inr ⟨hinside, fun hroom => by omega, hslice⟩
    · exact .inl ⟨hend, by omega⟩
  · rintro (⟨hend, hroom⟩ | ⟨hinside, hroom, hslice⟩)
    · have hall : buffer.take (fileDataPageSize - data.length) = buffer :=
        List.take_of_length_le (by omega)
      refine ⟨?_, by omega⟩
      rw [hend, List.drop_length, List.nil_append, hall, List.take_length]
    · refine ⟨hslice, ?_⟩
      have hcovered := congrArg List.length hslice
      simp only [List.length_take, List.length_append, List.length_drop] at hcovered
      omega

/-- A write is read back when it goes behind the data and fits in the first page, when the
buffer was there before, and when the offset is behind the first page, where the write
does not return. -/
theorem writeReads_iff {file : Nat} {chain : List Nat} (hfile : WellFormedFile device file chain)
    (hfree : HasFree device) {buffer : List UInt8} (hbuffer : buffer ≠ []) {offset : Nat}
    (hoffset : offset ≤ (chainData device chain).length) :
    WriteReads device file (chainData device chain) buffer offset ↔
      fileDataPageSize ≤ offset ∨
        (offset = (chainData device chain).length ∧
          (chainData device chain).length + buffer.length ≤ fileDataPageSize) ∨
        Rewrites (chainData device chain) buffer offset := by
  by_cases hfront : offset < fileDataPageSize
  · rw [hfile.writeReads_front hfront rfl, append_reads_iff hbuffer hoffset]
    constructor
    · exact .inr
    · exact fun hcase => hcase.resolve_left (Nat.not_le.mpr hfront)
  · refine iff_of_true ?_ (.inl (Nat.le_of_not_lt hfront))
    intro fuel result device' hcall
    rw [writeFile_behind hfile.toFileOn hfree (Nat.le_of_not_lt hfront)] at hcall
    cases hcall

/-- An image with the file 67, whose only byte is 1. -/
def oneByteImage : Device :=
  ((emptyImage.set 67 (newNodePage .file 68)).set 68 (appended (newFileData 67) [1])).setFirstFree 69

/-- What its pages say. -/
theorem oneByteImage_contents :
    oneByteImage.word 67 targetField = 68 ∧ oneByteImage.word 68 nextField = 0 ∧
      oneByteImage.firstFree = 69 ∧ (oneByteImage.pages 68).size ≤ fileDataPageSize ∧
        chainData oneByteImage [68] = [1] := by
  decide +kernel

theorem oneByteImage_last : oneByteImage.word 68 nextField = 0 := oneByteImage_contents.2.1

theorem oneByteImage_data : chainData oneByteImage [68] = [1] := oneByteImage_contents.2.2.2.2

theorem oneByteImage_wellFormed : WellFormedFile oneByteImage 67 [68] where
  file_lt := by decide
  linked := ⟨oneByteImage_contents.1, by decide, by decide, oneByteImage_last⟩
  nonempty := by decide
  apart := by decide
  fits := by
    intro page hpage
    rw [List.mem_singleton.mp hpage]
    exact oneByteImage_contents.2.2.2.1
  full := by simp

/-- An image with the file 67 on two pages that are not full. -/
def slicedImage : Device :=
  ((emptyImage.set 67 (newNodePage .file 68)).set 68
    ((appended (newFileData 67) [1, 2, 3]).setWord nextField 69)).set 69 (appended (newFileData 67) [4, 5])

theorem slicedImage_contents :
    slicedImage.word 67 targetField = 68 ∧ slicedImage.word 68 nextField = 69 ∧
      slicedImage.word 69 nextField = 0 ∧ (slicedImage.pages 68).size = 3 ∧
        (slicedImage.pages 69).size = 2 ∧ chainData slicedImage [68, 69] = [1, 2, 3, 4, 5] := by
  decide +kernel

/-- A read from the third byte on goes over into the second page. -/
theorem readFile_slice_twoPages : ∃ enough, ∀ fuel, enough ≤ fuel → ∃ result,
    readFile fuel 67 3 2 slicedImage = .ok (result, slicedImage) ∧ result.getD [] = [3, 4, 5] := by
  obtain ⟨hroot, hnext, hlast, hfirst, hsecond, hdata⟩ := slicedImage_contents
  have hfile : Readable slicedImage 67 68 [69] :=
    ⟨by decide, hroot, by decide, ⟨hnext, by decide, by decide, hlast⟩,
      by simp [hfirst, hsecond, fileDataPageSize]⟩
  obtain ⟨enough, hread⟩ := readFile_slice hfile 3 2
  refine ⟨enough, fun fuel hfuel => ?_⟩
  obtain ⟨result, hresult, -, hslice⟩ := hread fuel hfuel
  rw [hdata] at hslice
  exact ⟨result, hresult, hslice⟩

theorem oneByteImage_hasFree : HasFree oneByteImage := by
  rw [HasFree, oneByteImage_contents.2.2.1]
  decide

/-- A byte behind the data of the file is read back. -/
theorem write_behind_data :
    WriteReads oneByteImage 67 (chainData oneByteImage [68]) [2] 1 :=
  (writeReads_iff oneByteImage_wellFormed oneByteImage_hasFree (by decide)
    (by rw [oneByteImage_data]; decide)).mpr (.inr (.inl (by rw [oneByteImage_data]; decide)))

/-- A byte over the data of the file is not read back: the file then has the bytes 1 and 2. -/
theorem write_over_data : WellFormedFile oneByteImage 67 [68] ∧ HasFree oneByteImage ∧
    ¬ WriteReads oneByteImage 67 (chainData oneByteImage [68]) [2] 0 := by
  refine ⟨oneByteImage_wellFormed, oneByteImage_hasFree, ?_⟩
  rw [oneByteImage_wellFormed.writeReads_front (by decide) rfl, oneByteImage_data]
  decide

end PKernel.Pkfs
