import PKernel.Machine
import PKernel.Library.ByteMemory

/-! # Pages on disc

`pkfs.h` and the block transfers of `disc_operations.c`. A page is the 512 bytes of a
sector, and its fields are at the offsets that the packed unions give them. Transfers
fail on the sectors that the device does not have.
-/

namespace PKernel.Pkfs

open Library.ByteMemory

/-- The bytes of a sector. -/
@[ext]
structure Page where
  bytes : Memory

/-- `FILESYSTEM_NAME_MAX_SIZE`. -/
def nameMaxSize : Nat := 128

/-- `FILESYSTEM_FILE_DATA_PAGE_SIZE`. -/
def fileDataPageSize : Nat := 512 - 1 - 1 - 3 * 8 - 2

/-- `FILESYSTEM_DIRECTORY_INDEX_CHILDREN_SIZE`. -/
def directoryIndexChildrenSize : Nat := (512 - 1 - 1 - 3 * 8) / 8

/-- `FILESYSTEM_ROOT_ADDRESS`. -/
def rootAddress : Nat := 64

/-- `FILESYSTEM_PAGE_TYPE_FILE` and the others, in the order of the source. -/
inductive PageType where
  | file
  | fileData
  | directory
  | directoryIndex
deriving DecidableEq, Repr

/-- The value of `filesystem_page_type_t`. -/
def PageType.code : PageType → UInt8
  | file => 0
  | fileData => 1
  | directory => 2
  | directoryIndex => 3

/-! ## Fields -/

namespace Page

/-- A page in a static variable that nothing was stored to. -/
def zero : Page := ⟨fun _ => 0⟩

/-- `tag.in_use`, the lowest bit of the first byte. -/
def inUse (page : Page) : Bool := (page.bytes 0).toNat % 2 = 1

def setInUse (page : Page) (value : Bool) : Page :=
  ⟨storeLE page.bytes 0 1 ((page.bytes 0).toNat / 2 * 2 + value.toNat)⟩

/-- `type`. -/
def type (page : Page) : UInt8 := page.bytes 1

def setType (page : Page) (type : PageType) : Page :=
  ⟨storeLE page.bytes 1 1 type.code.toNat⟩

/-- The `filesystem_page_address_t` at an offset. -/
def word (page : Page) (offset : Nat) : Nat := loadLE page.bytes offset 8

def setWord (page : Page) (offset value : Nat) : Page := ⟨storeLE page.bytes offset 8 value⟩

/-- `size` of a data page, a `uint16_t`. -/
def size (page : Page) : Nat := loadLE page.bytes 26 2

def setSize (page : Page) (value : Nat) : Page := ⟨storeLE page.bytes 26 2 value⟩

/-- `data[index]` of a data page. -/
def datum (page : Page) (index : Nat) : UInt8 := page.bytes (28 + index)

/-- `memcpy` and `strcpy` into a page. -/
def copy (page : Page) (offset : Nat) (source : List UInt8) : Page :=
  ⟨fun place => if offset ≤ place then source.getD (place - offset) (page.bytes place)
    else page.bytes place⟩

/-- `name` of a node page, up to its NUL. -/
def name (page : Page) : List UInt8 :=
  ((List.range nameMaxSize).map fun index => page.bytes (2 + index)).takeWhile fun byte => byte ≠ 0

end Page

/-- The offset of `root_directory_address` in the root page. -/
def rootDirectoryField : Nat := 5

/-- The offset of `first_free` in the root page. -/
def firstFreeField : Nat := 13

/-- The offset of `parent_directory_address` in a node page. -/
def nodeParentField : Nat := 130

/-- The offset of `root_data_address` in a file node page and of
`directory_index_address` in a directory node page. -/
def targetField : Nat := 138

/-- The offset of `parent_file_address` in a data page and of
`parent_directory_address` in an index page. -/
def parentField : Nat := 2

/-- The offset of `prev_data_address` and `prev_index_address`. -/
def prevField : Nat := 10

/-- The offset of `next_data_address` and `next_index_address`. -/
def nextField : Nat := 18

/-- The offset of `children[index]` in an index page. -/
def childField (index : Nat) : Nat := 26 + 8 * index

/-- A block device. No address has more than 64 bits. -/
structure Device where
  size : Nat
  size_lt : size < 2 ^ 64
  pages : Nat → Page

namespace Device

/-- The device with one page replaced. -/
def set (device : Device) (address : Nat) (page : Page) : Device :=
  { device with pages := Function.update device.pages address page }

/-- A word of a page on the device. -/
def word (device : Device) (address offset : Nat) : Nat := (device.pages address).word offset

/-- `root_directory_address`. -/
def rootDirectory (device : Device) : Nat := device.word rootAddress rootDirectoryField

/-- `first_free`. -/
def firstFree (device : Device) : Nat := device.word rootAddress firstFreeField

@[simp]
theorem set_size (device : Device) (address : Nat) (page : Page) :
    (device.set address page).size = device.size := rfl

@[simp]
theorem set_pages_self (device : Device) (address : Nat) (page : Page) :
    (device.set address page).pages address = page := by
  simp [set]

theorem set_pages_of_ne (device : Device) {address other : Nat} (page : Page)
    (hne : other ≠ address) : (device.set address page).pages other = device.pages other := by
  simp [set, hne]

end Device

/-! ## A field after a store to another -/

namespace Page

theorem word_lt (page : Page) (offset : Nat) : page.word offset < 2 ^ 64 :=
  loadLE_lt page.bytes offset 8

theorem size_lt (page : Page) : page.size < 2 ^ 16 := loadLE_lt page.bytes 26 2

@[simp]
theorem word_zero (offset : Nat) : zero.word offset = 0 := by
  simp [word, zero, loadLE]

theorem bytes_setWord (page : Page) {offset value place : Nat}
    (hout : place < offset ∨ offset + 8 ≤ place) :
    (page.setWord offset value).bytes place = page.bytes place :=
  storeLE_apply_of_outside hout

theorem word_setWord_same (page : Page) {offset value : Nat} (hvalue : value < 2 ^ 64) :
    (page.setWord offset value).word offset = value := by
  rw [word, setWord, loadLE_storeLE_same]
  exact Nat.mod_eq_of_lt hvalue

theorem word_setWord_of_disjoint (page : Page) {offset other value : Nat}
    (hdisjoint : other + 8 ≤ offset ∨ offset + 8 ≤ other) :
    (page.setWord offset value).word other = page.word other :=
  loadLE_storeLE_of_disjoint hdisjoint

@[simp]
theorem word_setInUse (page : Page) (value : Bool) {offset : Nat} (hoffset : 0 < offset) :
    (page.setInUse value).word offset = page.word offset :=
  loadLE_storeLE_of_disjoint (.inr hoffset)

theorem word_setSize (page : Page) (value : Nat) {offset : Nat} (hoffset : offset ≤ 18) :
    (page.setSize value).word offset = page.word offset :=
  loadLE_storeLE_of_disjoint (.inl (by omega))

/-- A copy changes only the places from its offset on that its source covers. -/
theorem copy_apply_of_outside (page : Page) {offset place : Nat} {source : List UInt8}
    (hout : place < offset ∨ offset + source.length ≤ place) :
    (page.copy offset source).bytes place = page.bytes place := by
  rcases hout with hbefore | hbehind
  · simp [copy, Nat.not_le.mpr hbefore]
  · have hlong : source.length ≤ place - offset := by omega
    simp [copy, List.getD_eq_getElem?_getD, List.getElem?_eq_none hlong]

theorem copy_apply (page : Page) {offset index : Nat} {source : List UInt8}
    (hindex : index < source.length) :
    (page.copy offset source).bytes (offset + index) = source[index] := by
  simp [copy, List.getD_eq_getElem?_getD, List.getElem?_eq_getElem hindex]

theorem word_congr {page other : Page} {offset : Nat}
    (hsame : ∀ place, offset ≤ place → place < offset + 8 → page.bytes place = other.bytes place) :
    page.word offset = other.word offset :=
  loadLE_congr fun place hplace => hsame place hplace.1 hplace.2

theorem word_copy (page : Page) {offset other : Nat} {source : List UInt8}
    (hdisjoint : other + 8 ≤ offset ∨ offset + source.length ≤ other) :
    (page.copy offset source).word other = page.word other := by
  apply word_congr
  intro place hlower hupper
  exact copy_apply_of_outside page (by omega)

theorem inUse_eq (page other : Page) (hbyte : page.bytes 0 = other.bytes 0) :
    page.inUse = other.inUse := by
  rw [inUse, inUse, hbyte]

@[simp]
theorem inUse_setInUse (page : Page) (value : Bool) : (page.setInUse value).inUse = value := by
  have hbyte : ((page.setInUse value).bytes 0).toNat =
      ((page.bytes 0).toNat / 2 * 2 + value.toNat) % 256 := by
    simp [setInUse, storeLE]
  cases value <;> simp only [inUse, hbyte, Bool.toNat_false, Bool.toNat_true] <;>
    simp only [decide_eq_true_eq, decide_eq_false_iff_not] <;> omega

@[simp]
theorem inUse_setType (page : Page) (type : PageType) : (page.setType type).inUse = page.inUse :=
  inUse_eq _ _ (by simp [setType, storeLE])

theorem inUse_setWord (page : Page) {offset value : Nat} (hoffset : 0 < offset) :
    (page.setWord offset value).inUse = page.inUse :=
  inUse_eq _ _ (storeLE_apply_of_outside (.inl hoffset))

@[simp]
theorem inUse_setSize (page : Page) (value : Nat) : (page.setSize value).inUse = page.inUse :=
  inUse_eq _ _ (by simp [setSize, storeLE])

theorem inUse_copy (page : Page) {offset : Nat} (source : List UInt8) (hoffset : 0 < offset) :
    (page.copy offset source).inUse = page.inUse :=
  inUse_eq _ _ (copy_apply_of_outside page (.inl hoffset))

@[simp]
theorem type_setType (page : Page) (type : PageType) : (page.setType type).type = type.code := by
  simp [Page.type, setType, storeLE]

theorem type_setWord (page : Page) {offset value : Nat} (hoffset : 1 < offset) :
    (page.setWord offset value).type = page.type :=
  storeLE_apply_of_outside (.inl hoffset)

@[simp]
theorem type_setInUse (page : Page) (value : Bool) : (page.setInUse value).type = page.type := by
  simp [Page.type, setInUse, storeLE]

@[simp]
theorem type_setSize (page : Page) (value : Nat) : (page.setSize value).type = page.type := by
  simp [Page.type, setSize, storeLE]

theorem type_copy (page : Page) {offset : Nat} (source : List UInt8) (hoffset : 1 < offset) :
    (page.copy offset source).type = page.type :=
  copy_apply_of_outside page (.inl hoffset)

-- From here on a word is seen through these lemmas only: unifying through its bytes is slow.
attribute [irreducible] word

end Page

end PKernel.Pkfs
