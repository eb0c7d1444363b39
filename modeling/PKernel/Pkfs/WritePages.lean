import Mathlib.Data.Set.Card
import PKernel.Pkfs.FileData

/-! # The pages that a write takes

`write_file` is to take as many new pages as the data need. At an offset in the first
page it takes none, as it leaves out what does not fit in that page. At an offset behind it
the position in the file stays 0, and the call links one page after another.
-/

namespace PKernel.Pkfs

open Operation Relation

variable {device device' : Device} {file : Nat} {chain : List Nat}

/-- The pages that a call marked as in use. -/
def Marked (device device' : Device) : Set Nat :=
  {page | page < device.size ∧ (device.pages page).inUse = false ∧
    (device'.pages page).inUse = true}

/-- As many data pages as some bytes need. -/
def pagesFor (length : Nat) : Nat := (length + fileDataPageSize - 1) / fileDataPageSize

/-- The data page is in the chain of the file. -/
def InChain (device : Device) (file page : Nat) : Prop :=
  ReflTransGen (fun page next => device.word page nextField = next ∧ next ≠ 0)
    (device.word file targetField) page

/-- The write returns. It has marked no more pages than the data need beyond those that the
file had, and these are pages of the file. -/
def WritesSparingly (device : Device) (file : Nat) (chain : List Nat) (buffer : List UInt8)
    (offset : Nat) : Prop :=
  ∃ fuel result device', writeFile fuel file buffer offset device = .ok (result, device') ∧
    (Marked device device').encard ≤
      (pagesFor (max (chainData device chain).length (offset + buffer.length)) - chain.length : Nat) ∧
    ∀ page ∈ Marked device device', InChain device' file page

/-- Data behind the data of a page mark nothing. -/
theorem marked_appended (page : Nat) (buffer : List UInt8) :
    Marked device (device.set page (appended (device.pages page) buffer)) = ∅ := by
  refine Set.eq_empty_iff_forall_notMem.mpr ?_
  rintro other ⟨-, hfree, hused⟩
  have hsame : ((device.set page (appended (device.pages page) buffer)).pages other).inUse =
      (device.pages other).inUse := by
    by_cases heq : other = page
    · rw [heq, Device.set_pages_self, appended, Page.inUse_setSize, Page.inUse_copy _ _ (by omega)]
    · rw [Device.set_pages_of_ne _ _ heq]
  rw [hsame, hfree] at hused
  cases hused

/-- A write takes the pages that it needs exactly if its offset is in the first page. -/
theorem writesSparingly_iff (hfile : WellFormedFile device file chain) (hfree : HasFree device)
    (buffer : List UInt8) (offset : Nat) :
    WritesSparingly device file chain buffer offset ↔ offset < fileDataPageSize := by
  constructor
  · rintro ⟨fuel, result, device', hcall, -⟩
    by_contra hbehind
    rw [writeFile_behind hfile.toFileOn hfree (Nat.le_of_not_lt hbehind)] at hcall
    cases hcall
  · intro hfront
    obtain ⟨first, rest, rfl⟩ := List.exists_cons_of_ne_nil hfile.nonempty
    refine ⟨1, _, _, writeFile_of_fileOn hfile.toFileOn hfront 0 buffer, ?_, ?_⟩
    · rw [marked_appended, Set.encard_empty]
      exact zero_le
    · rw [marked_appended]
      exact fun page hpage => absurd hpage (Set.notMem_empty page)

/-- A byte more in the first page. -/
theorem writesSparingly_oneByte : WritesSparingly oneByteImage 67 [68] [2] 1 :=
  (writesSparingly_iff oneByteImage_wellFormed oneByteImage_hasFree [2] 1).mpr (by decide)

/-- The file 67 with a page full of data. -/
def fullPageImage : Device :=
  oneByteImage.set 68 (appended (oneByteImage.pages 68) (List.replicate 483 0))

theorem fullPageImage_wellFormed : WellFormedFile fullPageImage 67 [68] where
  toFileOn := oneByteImage_wellFormed.toFileOn.appended (List.replicate 483 0)
  full := by simp

/-- A byte behind a full page is not written. -/
theorem not_writesSparingly_fullPage : WellFormedFile fullPageImage 67 [68] ∧
    (chainData fullPageImage [68]).length = 484 ∧
      ∀ fuel, writeFile fuel 67 [1] 484 fullPageImage = .error .nontermination := by
  have hfree : HasFree fullPageImage := by
    rw [HasFree, fullPageImage, Device.set_firstFree _ _ (by decide)]
    exact oneByteImage_hasFree
  refine ⟨fullPageImage_wellFormed, ?_, fun fuel =>
    writeFile_behind fullPageImage_wellFormed.toFileOn hfree (by decide) fuel [1]⟩
  rw [fullPageImage, oneByteImage_wellFormed.toFileOn.chainData_appended]
  decide +kernel

end PKernel.Pkfs
