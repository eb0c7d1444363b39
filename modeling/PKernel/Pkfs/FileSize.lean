import PKernel.Pkfs.FileData

/-! # File sizes

`get_file_size` is to add up the sizes of the data pages. Its loop ends at the first page
that leads to another one, and from a page that leads nowhere it goes on in sector 0. So
the size of the first page is all that it counts of a file with more than one.
-/

namespace PKernel.Pkfs

open Operation

variable {device : Device}

/-- The call returns the sum of the sizes of the pages. -/
def SizeReturned (device : Device) (file : Nat) (chain : List Nat) : Prop :=
  ∃ fuel, getFileSize fuel file device =
    .ok (some (chain.map fun page => (device.pages page).size).sum, device)

/-- All data are in the first page of several, or sector 0 looks like an empty data page
that leads to another one. -/
def SizeInFirst (device : Device) : List Nat → Prop
  | _ :: next :: tail => ∀ page ∈ next :: tail, (device.pages page).size = 0
  | _ => (device.pages 0).size = 0 ∧ device.word 0 nextField ≠ 0

/-! ## The loop -/

theorem fileSizeLoop_succ {page : Nat} (hpage : page < device.size) (fuel size : Nat) :
    fileSizeLoop (fuel + 1) page size device =
      if device.word page nextField = 0 then
        fileSizeLoop fuel 0 (u64 (size + (device.pages page).size)) device
      else .ok (some (u64 (size + (device.pages page).size)), device) := by
  have hnext : (device.pages page).word nextField = device.word page nextField := rfl
  rw [fileSizeLoop, bind_of_some (discRead_of_lt hpage), hnext]
  by_cases hlast : device.word page nextField = 0
  · rw [if_pos hlast, hlast]
    rfl
  · rw [if_neg hlast]
    simp only [hlast, ne_eq, not_false_eq_true, if_true]
    rfl

/-- A sector 0 that leads nowhere leads the loop to itself. -/
theorem fileSizeLoop_stuck (hsize : 0 < device.size) (hsector : device.word 0 nextField = 0)
    (fuel size : Nat) : fileSizeLoop fuel 0 size device = .error .nontermination := by
  induction fuel generalizing size with
  | zero => rfl
  | succ fuel ih =>
      rw [fileSizeLoop_succ hsize, if_pos hsector]
      exact ih _

theorem fileSizeLoop_sector (hsize : 0 < device.size) {size total : Nat} :
    (∃ fuel, fileSizeLoop fuel 0 size device = .ok (some total, device)) ↔
      device.word 0 nextField ≠ 0 ∧ u64 (size + (device.pages 0).size) = total := by
  constructor
  · rintro ⟨fuel, hcall⟩
    have hleads : device.word 0 nextField ≠ 0 := by
      intro hsector
      rw [fileSizeLoop_stuck hsize hsector] at hcall
      cases hcall
    cases fuel with
    | zero => cases hcall
    | succ fuel =>
        rw [fileSizeLoop_succ hsize, if_neg hleads] at hcall
        exact ⟨hleads, by simpa using hcall⟩
  · rintro ⟨hleads, rfl⟩
    exact ⟨1, by rw [fileSizeLoop_succ hsize, if_neg hleads]⟩

/-- What the loop does on a chain is decided by its first page. -/
theorem DataChain.fileSizeLoop {page : Nat} {rest : List Nat} (hpage : page < device.size)
    (hrest : DataChain device (device.word page nextField) rest) {total : Nat} :
    (∃ fuel, fileSizeLoop fuel page 0 device = .ok (some total, device)) ↔
      if rest = [] then device.word 0 nextField ≠ 0 ∧
        (device.pages page).size + (device.pages 0).size = total
      else (device.pages page).size = total := by
  have hsize : 0 < device.size := Nat.zero_lt_of_lt hpage
  have hlt := (device.pages page).size_lt
  have hsectorLt := (device.pages 0).size_lt
  have hword : u64 (0 + (device.pages page).size) = (device.pages page).size := by
    rw [Nat.zero_add]
    exact u64_eq_self (by omega)
  have hstep : (∃ fuel, Pkfs.fileSizeLoop fuel page 0 device = .ok (some total, device)) ↔
      ∃ fuel, Pkfs.fileSizeLoop (fuel + 1) page 0 device = .ok (some total, device) := by
    constructor
    · rintro ⟨_ | fuel, hcall⟩
      · cases hcall
      · exact ⟨fuel, hcall⟩
    · rintro ⟨fuel, hcall⟩
      exact ⟨fuel + 1, hcall⟩
  rw [hstep]
  simp only [fileSizeLoop_succ hpage, hword]
  rcases hrest.next with ⟨hlast, rfl⟩ | ⟨next, tail, rfl, hnext, hne, -, -⟩
  · have hsum : u64 ((device.pages page).size + (device.pages 0).size) =
        (device.pages page).size + (device.pages 0).size := u64_eq_self (by omega)
    simp only [hlast, if_true, fileSizeLoop_sector hsize, hsum]
  · simp [hnext, hne]

/-! ## The sum -/

/-- The size of a file is returned exactly if it is that of its first page and the loop
gets to an end there, or adds nothing behind it. -/
theorem sizeReturned_iff {file : Nat} {chain : List Nat} (hfile : file < device.size)
    (hchain : DataChain device (device.word file targetField) chain) :
    SizeReturned device file chain ↔ SizeInFirst device chain := by
  have hsize : 0 < device.size := Nat.zero_lt_of_lt hfile
  have hcall (fuel total : Nat) : getFileSize fuel file device = .ok (some total, device) ↔
      fileSizeLoop fuel (device.word file targetField) 0 device = .ok (some total, device) := by
    rw [getFileSize, bind_of_some (discRead_of_lt hfile)]
    rfl
  simp only [SizeReturned, hcall]
  cases chain with
  | nil =>
      have htarget : device.word file targetField = 0 := hchain
      have hlt := (device.pages 0).size_lt
      have hword : u64 (0 + (device.pages 0).size) = (device.pages 0).size := by
        rw [Nat.zero_add]
        exact u64_eq_self (by omega)
      rw [htarget, fileSizeLoop_sector hsize, hword]
      exact and_comm
  | cons first rest =>
      obtain ⟨htarget, -, hfirst, hrest⟩ := hchain
      rw [htarget, hrest.fileSizeLoop hfirst]
      cases rest with
      | nil =>
          simp only [if_true, List.map_cons, List.map_nil, List.sum_cons, List.sum_nil, SizeInFirst,
            Nat.add_left_cancel_iff]
          exact and_comm
      | cons next tail =>
          simp only [List.cons_ne_nil, if_false, List.map_cons (a := first), List.sum_cons]
          rw [SizeInFirst, eq_comm, Nat.add_eq_left, List.sum_eq_zero_iff_forall_eq_nat]
          simp

/-- The file 67 with a second page that is empty. -/
def twoPageImage : Device :=
  ((oneByteImage.set 68 ((oneByteImage.pages 68).setWord nextField 69)).set 69
    (newDataPage 68)).setFirstFree 70

theorem sizeReturned_twoPages : SizeReturned twoPageImage 67 [68, 69] := by
  have hlast : twoPageImage.word 69 nextField = 0 := by decide +kernel
  have hchain : DataChain twoPageImage (twoPageImage.word 67 targetField) [68, 69] :=
    ⟨by decide +kernel, by decide, by decide, by decide +kernel, by decide, by decide, hlast⟩
  refine (sizeReturned_iff (by decide) hchain).mpr fun page hpage => ?_
  obtain rfl := List.mem_singleton.mp hpage
  decide +kernel

/-- For the file with one byte the loop does not get out of sector 0. -/
theorem not_sizeReturned_oneByte :
    DataChain oneByteImage (oneByteImage.word 67 targetField) [68] ∧
      ¬SizeReturned oneByteImage 67 [68] := by
  refine ⟨oneByteImage_wellFormed.linked, ?_⟩
  rintro ⟨fuel, hcall⟩
  have hfile : 67 < oneByteImage.size := oneByteImage_wellFormed.file_lt
  have htarget : (oneByteImage.pages 67).word targetField = 68 :=
    oneByteImage_wellFormed.linked.1
  rw [getFileSize, bind_of_some (discRead_of_lt hfile), htarget] at hcall
  obtain ⟨hleads, -⟩ := ((show DataChain oneByteImage (oneByteImage.word 68 nextField) [] from
    oneByteImage_last).fileSizeLoop (by decide)).mp ⟨fuel, hcall⟩
  exact hleads (by decide +kernel)

end PKernel.Pkfs
