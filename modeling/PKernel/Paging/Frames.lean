import PKernel.Paging.PageTableTree

/-! # Tables behind the temporary page

The tables of the kernel's own windows are written before anything maps them: `temp_pt_map_page`
maps the frame of a table at the temporary page, and the entries are written there. A window is
translated from its `pdpt`, which is part of the kernel image.
-/

namespace PKernel

open PageTables Library.TableTree

/-- The entries of the table in each frame. -/
abbrev Frames : Type := Nat → Nat → Entry

namespace Frames

/-- `memset(temp_pt_map_page(frame), 0, sizeof(pt64_t))`. -/
def clear (frames : Frames) (frame : Nat) : Frames :=
  Function.update frames frame fun _ => .zero

/-- `PT64_SET_ADDRESS` or its siblings for an entry of the table in `frame`, which is made present
and writable. -/
def link (frames : Frames) (frame index address : Nat) : Frames :=
  Function.update frames frame (Function.update (frames frame) index
    { (frames frame index).setAddress address with present := true, readWrite := true })

/-- `pt64_map_2mb`. -/
def map2mb (frames : Frames) (frame address : Nat) : Frames :=
  (List.range 512).foldl (fun frames i => frames.link frame i (u64 (address + i * pageSize))) frames

/-- The frame that a present entry names. -/
def child (frames : Frames) (frame index : Nat) : Option Nat :=
  if (frames frame index).present then some (frames frame index).getAddress else none

/-- The frame of the page at `vaddr` in the window of `pdpt`. -/
def translate (frames : Frames) (pdpt vaddr : Nat) : Option Nat :=
  descend frames.child pdpt [pdptIndex vaddr, pdtIndex vaddr, ptIndex vaddr]

/-- An access to the page at `vaddr`, which the processor refuses where it is not mapped. -/
def access (frames : Frames) (pdpt vaddr : Nat) : Except Fault Nat :=
  match frames.translate pdpt vaddr with
  | some frame => .ok frame
  | none => .error .badPointer

variable {frames : Frames} {pdpt vaddr frame index address : Nat}

theorem access_eq_ok : frames.access pdpt vaddr = .ok frame ↔
    frames.translate pdpt vaddr = some frame := by
  unfold access
  cases frames.translate pdpt vaddr <;> simp

theorem child_clear (frames : Frames) (frame other index : Nat) :
    (frames.clear frame).child other index =
      if other = frame then none else frames.child other index := by
  by_cases hframe : other = frame
  · simp [child, clear, hframe, Entry.zero]
  · simp [child, clear, hframe]

theorem child_link (frames : Frames) (frame index other slot : Nat)
    (haligned : pageSize ∣ address) (hbound : address < 2 ^ 52) :
    (frames.link frame index address).child other slot =
      if other = frame ∧ slot = index then some address else frames.child other slot := by
  have haddress := (frames frame index).getAddress_setAddress haligned hbound
  by_cases hframe : other = frame
  · subst hframe
    by_cases hslot : slot = index
    · subst hslot
      simpa [child, link, Entry.getAddress] using haddress
    · simp [child, link, hslot]
  · simp [child, link, hframe]

theorem clear_of_ne {other : Nat} (hne : other ≠ frame) :
    frames.clear frame other = frames other :=
  Function.update_of_ne hne _ _

theorem link_of_ne {other : Nat} (hne : other ≠ frame) :
    frames.link frame index address other = frames other :=
  Function.update_of_ne hne _ _

-- comparing two memories entry by entry leads nowhere
attribute [irreducible] clear link

/-! ## The indexes of a page of a window -/

variable {base page : Nat}

theorem pdptIndex_page (hbase : 2 ^ 39 ∣ base) (page : Nat) :
    pdptIndex (base + page * pageSize) = page / 2 ^ 18 % 512 := by
  obtain ⟨window, rfl⟩ := hbase
  rw [pdptIndex, Nat.shiftRight_eq_div_pow, Nat.and_two_pow_sub_one_eq_mod _ 9]
  unfold pageSize
  omega

theorem pdtIndex_page (hbase : 2 ^ 39 ∣ base) (page : Nat) :
    pdtIndex (base + page * pageSize) = page / 512 % 512 := by
  obtain ⟨window, rfl⟩ := hbase
  rw [pdtIndex, Nat.shiftRight_eq_div_pow, Nat.and_two_pow_sub_one_eq_mod _ 9]
  unfold pageSize
  omega

theorem ptIndex_page (hbase : 2 ^ 39 ∣ base) (page : Nat) :
    ptIndex (base + page * pageSize) = page % 512 := by
  obtain ⟨window, rfl⟩ := hbase
  rw [ptIndex, Nat.shiftRight_eq_div_pow, Nat.and_two_pow_sub_one_eq_mod _ 9]
  unfold pageSize
  omega

end Frames

end PKernel
