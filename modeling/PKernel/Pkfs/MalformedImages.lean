import PKernel.Library.ChunkChain
import PKernel.Pkfs.EnteredFiles

/-! # Images of any contents

`read_file` and `list` on images that may have anything in their pages. Both follow links
for as long as there are any, `read_file` takes the size of a page as it is, and the names
are copied with a NUL behind them.
-/

namespace PKernel.Pkfs

open Operation Library.ChunkChain

variable {device : Device}

/-- The page that a node leads to: the first data page or index page. -/
def bodyPage? (device : Device) (node : Nat) : Option Page :=
  (device.read? node).bind fun nodePage => device.read? (nodePage.word targetField)

/-! ## Reading -/

/-- The data page behind another one. -/
def nextData? (device : Device) (page : Page) : Option Page :=
  if page.word nextField = 0 then none else device.read? (page.word nextField)

/-- From a place in a page on, `count` bytes behind `skip` bytes are there or the chain ends,
and they have places in `data`. -/
def Inside (device : Device) (page : Page) (inner skip count : Nat) : Prop :=
  Bounded Page.size (nextData? device) page (inner + skip + count) ∧
    Within Page.size (nextData? device) fileDataPageSize page (inner + skip) (inner + skip + count)

/-- `read_file` returns, and does not read behind a page. -/
def ReadReturns (device : Device) (file size offset : Nat) : Prop :=
  ∃ fuel outcome, readFile fuel file size offset device = .ok outcome

/-- What is asked for is bounded, and has places in `data`. -/
def ReadsInside (device : Device) (file size offset : Nat) : Prop :=
  ∀ page, bodyPage? device file = some page → Inside device page 0 offset size

section Loops

variable {page next : Page} {inner skip count fuel : Nat} {buffer out : List UInt8}

theorem inside_empty (hinner : inner ≤ page.size) : Inside device page inner 0 0 :=
  ⟨bounded_of_le hinner, within_empty⟩

theorem inside_last (hlast : nextData? device page = none) (hinner : page.size ≤ inner) :
    Inside device page inner skip count :=
  ⟨bounded_last hlast, within_last hlast (by omega)⟩

theorem inside_next (hnext : nextData? device page = some next) (hpos : 0 < skip + count) :
    Inside device page page.size skip count ↔ Inside device next 0 skip count := by
  simp only [Inside, Nat.zero_add, Nat.add_assoc]
  rw [bounded_next hnext hpos, within_next hnext]

theorem inside_skip : Inside device page inner (skip + 1) count ↔
    Inside device page (inner + 1) skip count := by
  rw [Inside, Inside, Nat.add_right_comm inner 1 skip, Nat.add_assoc inner skip 1]

theorem inside_byte (hinner : inner < page.size) : Inside device page inner 0 (count + 1) ↔
    inner < fileDataPageSize ∧ Inside device page (inner + 1) 0 count := by
  simp only [Inside, Nat.add_zero, Nat.add_right_comm inner 1 count, ← Nat.add_assoc]
  rw [within_succ hinner (by omega), and_left_comm]

theorem copyLoop_succ (hcount : count ≠ 0) (hinner : ¬inner < page.size) :
    copyLoop device (fuel + 1) count page inner buffer =
      match nextData? device page with
      | none => .ok buffer
      | some next => copyLoop device fuel count next 0 buffer := by
  rw [copyLoop, if_neg hcount, if_neg hinner, nextData?]
  split
  next => rfl
  next => rfl

/-- A copy that returns stays inside the pages. -/
theorem inside_of_copyLoop (hinner : inner ≤ page.size)
    (hcall : copyLoop device fuel count page inner buffer = .ok out) :
    Inside device page inner 0 count := by
  induction fuel generalizing count page inner buffer with
  | zero => cases hcall
  | succ fuel ih =>
      by_cases hcount : count = 0
      · rw [hcount]
        exact inside_empty hinner
      · obtain ⟨count, rfl⟩ := Nat.exists_eq_succ_of_ne_zero hcount
        by_cases hbyte : inner < page.size
        · rw [copyLoop, if_neg hcount, if_pos hbyte] at hcall
          split at hcall
          next => cases hcall
          next hplace =>
            exact (inside_byte hbyte).mpr ⟨Nat.lt_of_not_le hplace, ih hbyte hcall⟩
        · obtain rfl : inner = page.size := Nat.le_antisymm hinner (Nat.le_of_not_lt hbyte)
          rw [copyLoop_succ hcount hbyte] at hcall
          cases hnext : nextData? device page with
          | none => exact inside_last hnext le_rfl
          | some next =>
              rw [hnext] at hcall
              exact (inside_next hnext (by omega)).mpr (ih (Nat.zero_le _) hcall)

/-- A copy inside the pages returns. The induction is on the pages to come, and in a page on
the bytes that are asked for. -/
theorem copyLoop_of_inside (n : Nat) (hinner : inner ≤ page.size)
    (hbounded : nth (nextData? device) n page = none ∨
      inner + count ≤ before Page.size (nextData? device) n page)
    (hwithin : Within Page.size (nextData? device) fileDataPageSize page inner (inner + count)) :
    ∃ enough, ∀ fuel, enough ≤ fuel → ∀ buffer, ∃ out,
      copyLoop device fuel count page inner buffer = .ok out := by
  have hempty (page : Page) (inner : Nat) : ∃ enough, ∀ fuel, enough ≤ fuel →
      ∀ buffer, ∃ out, copyLoop device fuel 0 page inner buffer = .ok out := by
    refine ⟨1, fun fuel hfuel buffer => ⟨buffer, ?_⟩⟩
    obtain ⟨fuel, rfl⟩ := Nat.exists_eq_succ_of_ne_zero (Nat.ne_zero_of_lt hfuel)
    rw [copyLoop, if_pos rfl]
  induction n generalizing page inner count with
  | zero =>
      obtain rfl : count = 0 := by
        rcases hbounded with hnone | hle
        · cases hnone
        · rw [before] at hle
          omega
      exact hempty page inner
  | succ n ihPage =>
      induction count generalizing inner with
      | zero => exact hempty page inner
      | succ count ihByte =>
          by_cases hbyte : inner < page.size
          · obtain ⟨hplace, hbehind⟩ := (within_succ hbyte (by omega)).mp hwithin
            rw [← Nat.add_assoc, Nat.add_right_comm] at hbounded hbehind
            obtain ⟨enough, hcalls⟩ := ihByte hbyte hbounded hbehind
            refine ⟨enough + 1, fun fuel hfuel buffer => ?_⟩
            obtain ⟨fuel, rfl⟩ := Nat.exists_eq_succ_of_ne_zero (Nat.ne_zero_of_lt hfuel)
            rw [copyLoop, if_neg (Nat.succ_ne_zero count), if_pos hbyte,
              if_neg (Nat.not_le.mpr hplace)]
            exact hcalls fuel (Nat.le_of_succ_le_succ hfuel) _
          · obtain rfl : inner = page.size := Nat.le_antisymm hinner (Nat.le_of_not_lt hbyte)
            cases hnext : nextData? device page with
            | none =>
                refine ⟨1, fun fuel hfuel buffer => ⟨buffer, ?_⟩⟩
                obtain ⟨fuel, rfl⟩ := Nat.exists_eq_succ_of_ne_zero (Nat.ne_zero_of_lt hfuel)
                rw [copyLoop_succ (Nat.succ_ne_zero count) hbyte, hnext]
            | some next =>
                rw [nth_next hnext, before_next hnext, Nat.add_le_add_iff_left] at hbounded
                have hbehind := (within_next hnext).mp
                  (show Within _ _ _ page (page.size + 0) (page.size + (count + 1)) from hwithin)
                obtain ⟨enough, hcalls⟩ := ihPage (Nat.zero_le next.size)
                  (by rwa [Nat.zero_add]) (by rwa [Nat.zero_add])
                refine ⟨enough + 1, fun fuel hfuel buffer => ?_⟩
                obtain ⟨fuel, rfl⟩ := Nat.exists_eq_succ_of_ne_zero (Nat.ne_zero_of_lt hfuel)
                rw [copyLoop_succ (Nat.succ_ne_zero count) hbyte, hnext]
                exact hcalls fuel (Nat.le_of_succ_le_succ hfuel) buffer

theorem skipLoop_succ (hskip : skip ≠ 0) (hinner : ¬inner < page.size) :
    skipLoop (fuel + 1) skip page inner device =
      match nextData? device page with
      | none => .ok (none, device)
      | some next => skipLoop fuel skip next 0 device := by
  rw [skipLoop, if_neg hskip, if_neg hinner, nextData?]
  by_cases hlast : page.word nextField = 0
  · rw [if_pos hlast, if_pos hlast]
    rfl
  · rw [if_neg hlast, if_neg hlast]
    cases hread : device.read? (page.word nextField) with
    | none => exact bind_of_none (by rw [discRead, hread])
    | some next => exact bind_of_some (by rw [discRead, hread])

/-- A skip that returns stays inside the pages, if the copy behind it does. -/
theorem inside_of_skipLoop {result : Option (Page × Nat)} {device' : Device}
    (hinner : inner ≤ page.size)
    (hcall : skipLoop fuel skip page inner device = .ok (result, device'))
    (hcopy : ∀ page inner, result = some (page, inner) → inner ≤ page.size →
      Inside device page inner 0 count) :
    device' = device ∧ Inside device page inner skip count := by
  induction fuel generalizing skip page inner with
  | zero => cases hcall
  | succ fuel ih =>
      by_cases hskip : skip = 0
      · subst hskip
        rw [skipLoop, if_pos rfl] at hcall
        cases hcall
        exact ⟨rfl, hcopy page inner rfl hinner⟩
      · obtain ⟨skip, rfl⟩ := Nat.exists_eq_succ_of_ne_zero hskip
        by_cases hbyte : inner < page.size
        · rw [skipLoop, if_neg hskip, if_pos hbyte] at hcall
          obtain ⟨hdevice, hinside⟩ := ih hbyte hcall
          exact ⟨hdevice, inside_skip.mpr hinside⟩
        · obtain rfl : inner = page.size := Nat.le_antisymm hinner (Nat.le_of_not_lt hbyte)
          rw [skipLoop_succ hskip hbyte] at hcall
          cases hnext : nextData? device page with
          | none =>
              rw [hnext] at hcall
              exact ⟨(Prod.mk.inj (Except.ok.inj hcall)).2.symm, inside_last hnext le_rfl⟩
          | some next =>
              rw [hnext] at hcall
              obtain ⟨hdevice, hinside⟩ := ih (Nat.zero_le _) hcall
              exact ⟨hdevice, (inside_next hnext (by omega)).mpr hinside⟩

/-- A skip inside the pages returns, and the copy behind it is inside them too. -/
theorem skipLoop_of_inside (n : Nat) (hinner : inner ≤ page.size)
    (hbounded : nth (nextData? device) n page = none ∨
      inner + skip + count ≤ before Page.size (nextData? device) n page)
    (hwithin : Within Page.size (nextData? device) fileDataPageSize page (inner + skip)
      (inner + skip + count)) :
    ∃ result enough, (∀ fuel, enough ≤ fuel →
      skipLoop fuel skip page inner device = .ok (result, device)) ∧
      ∀ page inner, result = some (page, inner) → inner ≤ page.size ∧
        Inside device page inner 0 count := by
  have hdone {n : Nat} {page : Page} {inner : Nat} (hinner : inner ≤ page.size)
      (hbounded : nth (nextData? device) n page = none ∨
        inner + 0 + count ≤ before Page.size (nextData? device) n page)
      (hwithin : Within Page.size (nextData? device) fileDataPageSize page (inner + 0)
        (inner + 0 + count)) :
      ∃ result enough, (∀ fuel, enough ≤ fuel →
        skipLoop fuel 0 page inner device = .ok (result, device)) ∧
        ∀ page inner, result = some (page, inner) → inner ≤ page.size ∧
          Inside device page inner 0 count := by
    refine ⟨some (page, inner), 1, fun fuel hfuel => ?_, fun page' inner' hresult => ?_⟩
    · obtain ⟨fuel, rfl⟩ := Nat.exists_eq_succ_of_ne_zero (Nat.ne_zero_of_lt hfuel)
      rw [skipLoop, if_pos rfl]
      rfl
    · cases hresult
      exact ⟨hinner, ⟨n, hbounded⟩, hwithin⟩
  induction n generalizing page inner skip with
  | zero =>
      obtain rfl : skip = 0 := by
        rcases hbounded with hnone | hle
        · cases hnone
        · rw [before] at hle
          omega
      exact hdone hinner hbounded hwithin
  | succ n ihPage =>
      induction skip generalizing inner with
      | zero => exact hdone hinner hbounded hwithin
      | succ skip ihByte =>
          by_cases hbyte : inner < page.size
          · rw [← Nat.add_assoc, Nat.add_right_comm inner] at hbounded hwithin
            obtain ⟨result, enough, hcalls, hcopy⟩ := ihByte hbyte hbounded hwithin
            refine ⟨result, enough + 1, fun fuel hfuel => ?_, hcopy⟩
            obtain ⟨fuel, rfl⟩ := Nat.exists_eq_succ_of_ne_zero (Nat.ne_zero_of_lt hfuel)
            rw [skipLoop, if_neg (Nat.succ_ne_zero skip), if_pos hbyte]
            exact hcalls fuel (Nat.le_of_succ_le_succ hfuel)
          · obtain rfl : inner = page.size := Nat.le_antisymm hinner (Nat.le_of_not_lt hbyte)
            cases hnext : nextData? device page with
            | none =>
                refine ⟨none, 1, fun fuel hfuel => ?_, fun _ _ hresult => by cases hresult⟩
                obtain ⟨fuel, rfl⟩ := Nat.exists_eq_succ_of_ne_zero (Nat.ne_zero_of_lt hfuel)
                rw [skipLoop_succ (Nat.succ_ne_zero skip) hbyte, hnext]
            | some next =>
                rw [Nat.add_assoc page.size] at hbounded hwithin
                rw [nth_next hnext, before_next hnext, Nat.add_le_add_iff_left] at hbounded
                have hbehind := (within_next hnext).mp hwithin
                obtain ⟨result, enough, hcalls, hcopy⟩ := ihPage (Nat.zero_le next.size)
                  (by rwa [Nat.zero_add]) (by rwa [Nat.zero_add])
                refine ⟨result, enough + 1, fun fuel hfuel => ?_, hcopy⟩
                obtain ⟨fuel, rfl⟩ := Nat.exists_eq_succ_of_ne_zero (Nat.ne_zero_of_lt hfuel)
                rw [skipLoop_succ (Nat.succ_ne_zero skip) hbyte, hnext]
                exact hcalls fuel (Nat.le_of_succ_le_succ hfuel)

end Loops

/-- `read_file` is the two loops from the first data page on, if there is one. -/
theorem readFile_eq_loops (fuel file size offset : Nat) :
    readFile fuel file size offset device =
      match bodyPage? device file with
      | none => .ok (none, device)
      | some page =>
          match skipLoop fuel offset page 0 device with
          | .error stop => .error stop
          | .ok (none, device) => .ok (none, device)
          | .ok (some (page, inner), device) =>
              (copyLoop device fuel size page inner []).map fun buffer => (some buffer, device) := by
  unfold readFile bodyPage?
  cases hnode : device.read? file with
  | none => exact bind_of_none (by rw [discRead, hnode])
  | some node =>
      rw [bind_of_some (show discRead file device = .ok (some node, device) by rw [discRead, hnode])]
      simp only [Option.bind_some]
      cases hpage : device.read? (node.word targetField) with
      | none => exact bind_of_none (by rw [discRead, hpage])
      | some page =>
          refine (bind_of_some (show discRead _ device = .ok (some page, device) by
            rw [discRead, hpage])).trans ?_
          simp only [bind]
          rcases skipLoop fuel offset page 0 device with stop | ⟨_ | place, device'⟩ <;> rfl

/-- `read_file` returns and stays in its pages exactly if what it is asked for does. -/
theorem readReturns_iff (file size offset : Nat) :
    ReadReturns device file size offset ↔ ReadsInside device file size offset := by
  unfold ReadReturns ReadsInside
  simp only [readFile_eq_loops]
  cases hpage : bodyPage? device file with
  | none => exact iff_of_true ⟨0, _, rfl⟩ nofun
  | some page =>
      simp only [Option.some.injEq, forall_eq']
      constructor
      · rintro ⟨fuel, outcome, hcall⟩
        cases hskip : skipLoop fuel offset page 0 device with
        | error stop =>
            simp only [hskip] at hcall
            cases hcall
        | ok reached =>
            obtain ⟨result, device'⟩ := reached
            have hdevice := (inside_of_skipLoop (Nat.zero_le page.size) hskip
              fun page inner _ hinner => inside_empty hinner).1
            subst hdevice
            refine (inside_of_skipLoop (Nat.zero_le page.size) hskip ?_).2
            rintro page' inner' rfl hinner
            simp only [hskip] at hcall
            cases hcopy : copyLoop device' fuel size page' inner' [] with
            | error stop =>
                rw [hcopy] at hcall
                cases hcall
            | ok buffer => exact inside_of_copyLoop hinner hcopy
      · rintro ⟨⟨n, hbounded⟩, hwithin⟩
        obtain ⟨result, enough, hskips, hcopy⟩ :=
          skipLoop_of_inside n (Nat.zero_le page.size) hbounded hwithin
        cases result with
        | none => exact ⟨enough, _, by rw [hskips enough le_rfl]⟩
        | some place =>
            obtain ⟨page', inner'⟩ := place
            obtain ⟨hinner, ⟨m, hbounded'⟩, hwithin'⟩ := hcopy page' inner' rfl
            obtain ⟨enough', hcopies⟩ := copyLoop_of_inside m hinner hbounded' hwithin'
            obtain ⟨out, hout⟩ := hcopies (max enough enough') (le_max_right ..) []
            exact ⟨max enough enough', (some out, device), by
              simp only [hskips _ (le_max_left ..), hout, Except.map]⟩

/-! ## Listing -/

/-- The page that the iterator takes for the index page behind another one. It does not look
whether the address is 0. -/
def nextIndex? (device : Device) (page : Page) : Option Page := device.read? (page.word nextField)

/-- A slot of the index pages from one on. There is none where a page cannot be read. -/
def slotAt (device : Device) (page : Page) (k : Nat) : Option Nat :=
  (nth (nextIndex? device) (k / directoryIndexChildrenSize) page).map fun indexPage =>
    indexPage.word (childField (k % directoryIndexChildrenSize))

/-- A listing ends at this slot. -/
def Stops (device : Device) (slot : Option Nat) : Prop :=
  ∀ child, slot = some child → child = 0 ∨ entryType device child = .none

/-- The slots come to one at which the listing ends, and the names of the children before it
have a NUL in their field. -/
def Listable (device : Device) (slots : Nat → Option Nat) : Prop :=
  (∃ k, Stops device (slots k)) ∧
    ∀ k child, (∀ j ≤ k, ¬Stops device (slots j)) → slots k = some child →
      (device.pages child).name.length < nameMaxSize

/-- `list` returns, and its names fit in the buffer. -/
def ListReturns (state : Vfs.State) (device : Device) (dirent : Nat) : Prop :=
  ∃ fuel outcome, list fuel state device dirent = .ok outcome

/-- The slots of a directory are in order as far as `list` looks at them. -/
def ListsInside (device : Device) (directory : Nat) : Prop :=
  ∀ page, bodyPage? device directory = some page → Listable device (slotAt device page)

/-- The iterator has these slots in front of it. -/
def Ahead (device : Device) (iterator : DirectoryIterator) (slots : Nat → Option Nat) : Prop :=
  iterator.indexLocation ≤ directoryIndexChildrenSize ∧
    ∀ k, slotAt device iterator.indexPage (iterator.indexLocation + k) = slots k

section Slots

variable {iterator next : DirectoryIterator} {slots : Nat → Option Nat} {child fuel : Nat}
  {nodes result : List Vfs.EntryNode}

theorem slotAt_of_lt {page : Page} {k : Nat} (hk : k < directoryIndexChildrenSize) :
    slotAt device page k = some (page.word (childField k)) := by
  rw [slotAt, Nat.div_eq_of_lt hk, Nat.mod_eq_of_lt hk]
  rfl

/-- The slots behind those of a page. -/
theorem slotAt_next (page : Page) (k : Nat) :
    slotAt device page (directoryIndexChildrenSize + k) =
      (nextIndex? device page).bind fun next => slotAt device next k := by
  rw [slotAt, Nat.add_mod_left, Nat.add_div_left _ (by decide), nth]
  cases nextIndex? device page with
  | none => rfl
  | some next => rfl

/-- The iterator is at its next slot, or cannot read the page of it. -/
theorem Ahead.here (hahead : Ahead device iterator slots) :
    slots 0 = none ∧ (directoryIteratorNext device iterator).1 = .none ∨
      ∃ place : DirectoryIterator,
        directoryIteratorNext device iterator = DirectoryIterator.here device place ∧
          place.indexLocation < directoryIndexChildrenSize ∧ Ahead device place slots := by
  obtain ⟨hlocation, hslots⟩ := hahead
  rcases Nat.lt_or_eq_of_le hlocation with hinside | hend
  · exact .inr ⟨iterator, by rw [directoryIteratorNext, if_neg (Nat.not_le.mpr hinside)], hinside,
      hlocation, hslots⟩
  · simp only [hend, slotAt_next] at hslots
    have hgo : directoryIteratorNext device iterator =
        match nextIndex? device iterator.indexPage with
        | none => (.none, none, iterator)
        | some page => DirectoryIterator.here device ⟨iterator.nodePage, page, 0⟩ := by
      rw [directoryIteratorNext, if_pos hend.ge]
      rfl
    cases hnext : nextIndex? device iterator.indexPage with
    | none =>
        refine .inl ⟨?_, by rw [hgo, hnext]⟩
        rw [← hslots 0, hnext]
        rfl
    | some page =>
        refine .inr ⟨⟨iterator.nodePage, page, 0⟩, by rw [hgo, hnext],
          (by decide : 0 < directoryIndexChildrenSize), Nat.zero_le _, fun k => ?_⟩
        rw [← hslots k, hnext, Nat.zero_add]
        rfl

theorem Ahead.stop (hahead : Ahead device iterator slots) (hstops : Stops device (slots 0)) :
    (directoryIteratorNext device iterator).1 = .none := by
  rcases hahead.here with ⟨-, hnone⟩ | ⟨place, hcall, hinside, -, hslots⟩
  · exact hnone
  · have hslot := hslots 0
    rw [Nat.add_zero, slotAt_of_lt hinside] at hslot
    rw [hcall, DirectoryIterator.here]
    by_cases hfree : place.indexPage.word (childField place.indexLocation) = 0
    · rw [if_pos hfree]
    · rw [if_neg hfree]
      exact (hstops _ hslot.symm).resolve_left hfree

theorem Ahead.go (hahead : Ahead device iterator slots) (hgoes : ¬Stops device (slots 0)) :
    ∃ child next, slots 0 = some child ∧ entryType device child ≠ .none ∧
      directoryIteratorNext device iterator = (entryType device child, some child, next) ∧
      Ahead device next fun k => slots (k + 1) := by
  simp only [Stops, not_forall, not_or] at hgoes
  obtain ⟨child, hchild, hused, htyped⟩ := hgoes
  rcases hahead.here with ⟨hnone, -⟩ | ⟨place, hcall, hinside, -, hslots⟩
  · rw [hnone] at hchild
    cases hchild
  · have hslot := hslots 0
    rw [Nat.add_zero, slotAt_of_lt hinside, hchild, Option.some.injEq] at hslot
    refine ⟨child, { place with indexLocation := place.indexLocation + 1 }, hchild, htyped, ?_,
      hinside, fun k => ?_⟩
    · rw [hcall, DirectoryIterator.here]
      simp only [hslot, hused, if_false]
    · show slotAt device place.indexPage (place.indexLocation + 1 + k) = slots (k + 1)
      rw [← hslots (k + 1), Nat.add_right_comm, Nat.add_assoc]

theorem listLoop_end (hnone : (directoryIteratorNext device iterator).1 = .none) (fuel : Nat)
    (nodes : List Vfs.EntryNode) : listLoop device (fuel + 1) iterator nodes = .ok nodes := by
  obtain ⟨⟨type, handle, next⟩, hnext⟩ : ∃ call, directoryIteratorNext device iterator = call :=
    ⟨_, rfl⟩
  rw [hnext] at hnone
  obtain rfl : type = .none := hnone
  rw [listLoop, hnext]

theorem listLoop_go (hnext : directoryIteratorNext device iterator =
      (entryType device child, some child, next)) (htyped : entryType device child ≠ .none) :
    listLoop device (fuel + 1) iterator nodes =
      if (device.pages child).name.length < nameMaxSize then
        listLoop device fuel next ((Vfs.addNode nodes (device.pages child).name).getD nodes)
      else .error .overrun := by
  have hpage := lt_size_of_entryType htyped
  rw [listLoop, hnext]
  generalize entryType device child = type at htyped
  have hname : bufferedName device type child = _ := bufferedName_eq hpage
  cases type with
  | none => exact absurd rfl htyped
  | file =>
      simp only [Option.getD_some, hname]
      split <;> rfl
  | directory =>
      simp only [Option.getD_some, hname]
      split <;> rfl

/-- A listing that returns came to a slot at which it ends. -/
theorem listable_of_listLoop (hahead : Ahead device iterator slots)
    (hcall : listLoop device fuel iterator nodes = .ok result) : Listable device slots := by
  induction fuel generalizing iterator slots nodes with
  | zero => cases hcall
  | succ fuel ih =>
      by_cases hstops : Stops device (slots 0)
      · exact ⟨⟨0, hstops⟩, fun k child hbefore _ => absurd hstops (hbefore 0 (Nat.zero_le k))⟩
      · obtain ⟨first, next, hfirst, htyped, hnext, hbehind⟩ := hahead.go hstops
        rw [listLoop_go hnext htyped] at hcall
        split at hcall
        next hname =>
          obtain ⟨⟨k, hk⟩, hnames⟩ := ih hbehind hcall
          refine ⟨⟨k + 1, hk⟩, fun k child hbefore hchild => ?_⟩
          cases k with
          | zero =>
              cases hfirst.symm.trans hchild
              exact hname
          | succ k => exact hnames k child (fun j hj => hbefore (j + 1) (by omega)) hchild
        next => cases hcall

/-- With a slot at which it ends the listing returns. -/
theorem listLoop_of_stops (k : Nat) (hahead : Ahead device iterator slots)
    (hstops : Stops device (slots k))
    (hnames : ∀ k child, (∀ j ≤ k, ¬Stops device (slots j)) → slots k = some child →
      (device.pages child).name.length < nameMaxSize) (nodes : List Vfs.EntryNode) :
    ∃ fuel result, listLoop device fuel iterator nodes = .ok result := by
  by_cases hhere : Stops device (slots 0)
  · exact ⟨1, nodes, listLoop_end (hahead.stop hhere) 0 nodes⟩
  · induction k generalizing iterator slots nodes with
    | zero => exact absurd hstops hhere
    | succ k ih =>
        obtain ⟨first, next, hfirst, htyped, hnext, hbehind⟩ := hahead.go hhere
        have hname := hnames 0 first (by simpa using hhere) hfirst
        have hrest : ∀ k child, (∀ j ≤ k, ¬Stops device (slots (j + 1))) →
            slots (k + 1) = some child → (device.pages child).name.length < nameMaxSize := by
          intro k child hbefore hchild
          refine hnames (k + 1) child (fun j hj => ?_) hchild
          cases j with
          | zero => exact hhere
          | succ j => exact hbefore j (Nat.le_of_succ_le_succ hj)
        by_cases hnow : Stops device (slots 1)
        · exact ⟨2, _, by rw [listLoop_go hnext htyped, if_pos hname, listLoop_end (hbehind.stop hnow)]⟩
        · obtain ⟨fuel, result, hcall⟩ := ih hbehind hstops hrest
            ((Vfs.addNode nodes (device.pages first).name).getD nodes) hnow
          exact ⟨fuel + 1, result, by rw [listLoop_go hnext htyped, if_pos hname, hcall]⟩

theorem directoryIteratorInit_eq (directory : Nat) :
    directoryIteratorInit directory device =
      .ok ((bodyPage? device directory).map fun page => ⟨device.pages directory, page, 0⟩, device) := by
  unfold directoryIteratorInit bodyPage?
  cases hnode : device.read? directory with
  | none => exact bind_of_none (by rw [discRead, hnode])
  | some node =>
      obtain ⟨-, rfl⟩ := read?_eq_some.mp hnode
      refine (bind_of_some (show discRead directory device = .ok (some _, device) by
        rw [discRead, hnode])).trans ?_
      simp only [Option.bind_some]
      cases hpage : device.read? ((device.pages directory).word targetField) with
      | none => exact bind_of_none (by rw [discRead, hpage])
      | some page => exact bind_of_some (by rw [discRead, hpage])

/-- `list` returns and its names fit exactly if the slots are in order. -/
theorem listReturns_iff {state : Vfs.State} {dirent directory : Nat} {entry : Vfs.Entry}
    (hentry : state.entries dirent = some entry) (hnode : entry.node = some directory) :
    ListReturns state device dirent ↔ ListsInside device directory := by
  have hopen : onEntries (state.entry dirent) = .ok entry := by
    rw [onEntries_eq_ok, Vfs.State.entry, hentry]
  have hinit : onDisc (directoryIteratorInit directory) device =
      .ok ((bodyPage? device directory).map fun page => ⟨device.pages directory, page, 0⟩, device) :=
    onDisc_eq_ok.mpr (directoryIteratorInit_eq directory)
  unfold ListReturns ListsInside
  simp only [list, hopen, ok_bind, hnode, hinit]
  cases bodyPage? device directory with
  | none => exact iff_of_true ⟨0, _, rfl⟩ fun _ hpage => by cases hpage
  | some page =>
      simp only [Option.map_some, Option.some.injEq, forall_eq']
      have hahead : Ahead device ⟨device.pages directory, page, 0⟩ (slotAt device page) :=
        ⟨Nat.zero_le _, fun k => congrArg (slotAt device page) (Nat.zero_add k)⟩
      constructor
      · rintro ⟨fuel, outcome, hcall⟩
        obtain ⟨nodes, hloop, -⟩ := bind_eq_ok.mp hcall
        exact listable_of_listLoop hahead (mapError_eq_ok.mp hloop)
      · rintro ⟨⟨k, hstops⟩, hnames⟩
        obtain ⟨fuel, result, hloop⟩ := listLoop_of_stops k hahead hstops hnames entry.nodes
        refine ⟨fuel, (.ok, state.set dirent { entry with nodes := result }), bind_eq_ok.mpr ?_⟩
        refine ⟨result, mapError_eq_ok.mpr hloop, ?_⟩
        rw [hnode]
        rfl

end Slots

/-- On any image `read_file` and `list` return and stay in their buffers and pages exactly if
the bytes that are asked for are bounded and have places in `data`, and the slots of the
directory come to an end behind names with a NUL. -/
theorem survives_iff {state : Vfs.State} {dirent directory : Nat} {entry : Vfs.Entry}
    (hentry : state.entries dirent = some entry) (hnode : entry.node = some directory)
    (file size offset : Nat) :
    (ReadReturns device file size offset ↔ ReadsInside device file size offset) ∧
      (ListReturns state device dirent ↔ ListsInside device directory) :=
  ⟨readReturns_iff file size offset, listReturns_iff hentry hnode⟩

theorem bodyPage?_of_lt {node : Nat} (target : Nat) (hnode : node < device.size)
    (htarget : device.word node targetField = target) (hlt : target < device.size) :
    bodyPage? device node = some (device.pages target) := by
  have hword : (device.pages node).word targetField = target := htarget
  rw [bodyPage?, read?_eq_some.mpr ⟨hnode, rfl⟩, Option.bind_some, hword]
  exact read?_eq_some.mpr ⟨hlt, rfl⟩

/-- Five bytes are asked of a file with one, and a directory with one file is listed. -/
theorem survives_oneFile : ReadReturns oneFileImage 67 5 0 ∧
    ListReturns (rootOnly 65) oneFileImage Vfs.fsRoot := by
  have hentry : (rootOnly 65).entries Vfs.fsRoot = some rootEntry := rfl
  have hnode : rootEntry.node = some 65 := rfl
  obtain ⟨hread, hlist⟩ := @survives_iff oneFileImage _ _ _ _ hentry hnode 67 5 0
  refine ⟨hread.mpr fun page hpage => ?_, hlist.mpr fun page hpage => ?_⟩
  · rw [bodyPage?_of_lt 68 (by decide) (by decide +kernel) (by decide)] at hpage
    cases hpage
    have hlast : nextData? oneFileImage (oneFileImage.pages 68) = none := by decide +kernel
    refine ⟨bounded_last hlast, fun n other hother i hlimit hi => ?_⟩
    cases n with
    | zero =>
        cases hother
        have hsize : (oneFileImage.pages 68).size = 1 := by decide +kernel
        unfold fileDataPageSize at hlimit
        omega
    | succ n => simp [nth, hlast] at hother
  · rw [bodyPage?_of_lt 66 (by decide) (by decide +kernel) (by decide)] at hpage
    cases hpage
    have hfirst : (oneFileImage.pages 66).word (childField 0) = 67 := by decide +kernel
    have hfree : (oneFileImage.pages 66).word (childField 1) = 0 := by decide +kernel
    have hstops : Stops oneFileImage (slotAt oneFileImage (oneFileImage.pages 66) 1) := by
      intro child hchild
      rw [slotAt_of_lt (by decide), hfree] at hchild
      exact .inl (Option.some.inj hchild).symm
    refine ⟨⟨1, hstops⟩, fun k child hbefore hchild => ?_⟩
    cases k with
    | zero =>
        rw [slotAt_of_lt (by decide), hfirst] at hchild
        cases hchild
        decide +kernel
    | succ k => exact absurd hstops (hbefore 1 (by omega))

/-! ## Three images -/

/-- The data page of the file 67 is empty and leads to itself. -/
def cyclicImage : Device := oneByteImage.set 68 ((newFileData 67).setWord nextField 68)

/-- The data page of the file 67 says that it has 485 bytes. -/
def oversizedImage : Device := oneByteImage.set 68 ((newFileData 67).setSize 485)

/-- The name of the file 67 fills its field. -/
def fullNameImage : Device := linkedTo oneByteImage 65 67 (List.replicate 128 97) 0

/-- A byte is looked for without an end, a byte is read behind `data`, and a NUL is stored
behind `buffer`. -/
theorem not_survives_malformed : ¬ReadReturns cyclicImage 67 1 0 ∧
    ¬ReadReturns oversizedImage 67 485 0 ∧
    ¬ListReturns (rootOnly 65) fullNameImage Vfs.fsRoot := by
  refine ⟨fun hreturns => ?_, fun hreturns => ?_, fun hreturns => ?_⟩
  · have hpage : bodyPage? cyclicImage 67 = some (cyclicImage.pages 68) :=
      bodyPage?_of_lt 68 (by decide) (by decide +kernel) (by decide)
    have hword : (cyclicImage.pages 68).word nextField = 68 := by decide +kernel
    have hsize : (cyclicImage.pages 68).size = 0 := by decide +kernel
    have hnext : nextData? cyclicImage (cyclicImage.pages 68) = some (cyclicImage.pages 68) := by
      rw [nextData?, hword]
      rfl
    obtain ⟨⟨n, hn⟩, -⟩ := (readReturns_iff 67 1 0).mp hreturns _ hpage
    have hround (n : Nat) : nth (nextData? cyclicImage) n (cyclicImage.pages 68) =
        some (cyclicImage.pages 68) ∧
          before Page.size (nextData? cyclicImage) n (cyclicImage.pages 68) = 0 := by
      induction n with
      | zero => exact ⟨rfl, rfl⟩
      | succ n ih => exact ⟨(nth_next hnext n).trans ih.1, by rw [before_next hnext, ih.2, hsize]⟩
    rw [(hround n).1, (hround n).2] at hn
    rcases hn with hnone | hle
    · cases hnone
    · omega
  · have hpage : bodyPage? oversizedImage 67 = some (oversizedImage.pages 68) :=
      bodyPage?_of_lt 68 (by decide) (by decide +kernel) (by decide)
    have hsize : (oversizedImage.pages 68).size = 485 := by decide +kernel
    obtain ⟨-, hwithin⟩ := (readReturns_iff 67 485 0).mp hreturns _ hpage
    have hplace := hwithin 0 _ rfl 484 (by decide) (by omega)
    rw [before] at hplace
    omega
  · have hpage : bodyPage? fullNameImage 65 = some (fullNameImage.pages 66) :=
      bodyPage?_of_lt 66 (by decide) (by decide +kernel) (by decide)
    have hfirst : (fullNameImage.pages 66).word (childField 0) = 67 := by decide +kernel
    have hslot : slotAt fullNameImage (fullNameImage.pages 66) 0 = some 67 := by
      rw [slotAt_of_lt (by decide), hfirst]
    have hentry : (rootOnly 65).entries Vfs.fsRoot = some rootEntry := rfl
    have hnode : rootEntry.node = some 65 := rfl
    obtain ⟨-, hnames⟩ := (listReturns_iff hentry hnode).mp hreturns _ hpage
    have hname := hnames 0 67 (fun j hj => ?_) hslot
    · exact absurd hname (by decide +kernel)
    · obtain rfl := Nat.le_zero.mp hj
      rw [hslot]
      intro hstops
      rcases hstops 67 rfl with hzero | hnone
      · cases hzero
      · exact absurd hnone (by decide +kernel)

end PKernel.Pkfs
