import Mathlib.Data.List.TakeWhile
import PKernel.Pkfs.FileData
import PKernel.Pkfs.Listing

/-! # Lookup in a directory

`open_directory` and `open_file`, and the listing that a directory iterator gives. Both
walk the chain of index pages. The lookup ends behind a page that leads to 0, the
iterator goes on to sector 0 and takes that for an index page, so they differ when the
last index page is full.
-/

namespace PKernel.Pkfs

open Operation

/-! ## The functions -/

/-- `strcmp(node.name, name) == 0`, from a place in the node page on. -/
def Page.isNamed (page : Page) : Nat → List UInt8 → Bool
  | place, [] => page.bytes place == 0
  | place, char :: rest => page.bytes place == char && (char == 0 || page.isNamed (place + 1) rest)

/-- The offset of `name` in a node page. -/
def nameField : Nat := 2

/-- The loop of `open_file` over the children of an index page. The result is none where it
goes on to the next page. -/
def searchIndex (name : List UInt8) (directoryIndex : Page) : List Nat → Operation (Option Nat)
  | [] => return none
  | i :: rest => do
      let child := directoryIndex.word (childField i)
      if child = 0 then fail
      else
        let node ← discRead child
        if node.isNamed nameField name then return some child
        else searchIndex name directoryIndex rest

/-- The loop of `open_file` over the index pages. -/
def openLoop (name : List UInt8) : Nat → Nat → Operation Nat
  | 0, _ => stop .nontermination
  | fuel + 1, directoryIndexAddress => do
      let directoryIndex ← discRead directoryIndexAddress
      match ← searchIndex name directoryIndex (List.range directoryIndexChildrenSize) with
      | some child => return child
      | none =>
          let next := directoryIndex.word nextField
          if next ≠ 0 then openLoop name fuel next else fail

/-- What `open_directory` and `open_file` do alike: they differ in the type of the pages that
they read. -/
def openNode (fuel parent : Nat) (name : List UInt8) : Operation Nat := do
  let directoryPage ← discRead parent
  openLoop name fuel (directoryPage.word targetField)

/-- `open_directory`. -/
def openDirectory (fuel parent : Nat) (directoryName : List UInt8) : Operation Nat :=
  openNode fuel parent directoryName

/-- `open_file`. -/
def openFile (fuel parent : Nat) (directoryName : List UInt8) : Operation Nat :=
  openNode fuel parent directoryName

/-- The handles that an iterator returns before its first `FS_DET_NONE`, in their order. -/
def listing (device : Device) : Nat → DirectoryIterator → Except Stop (List Nat)
  | 0, _ => .error .nontermination
  | fuel + 1, iterator =>
      match directoryIteratorNext device iterator with
      | (.none, _, _) => .ok []
      | (_, handle, next) => (listing device fuel next).map (handle.toList ++ ·)

/-! ## Directories -/

/-- The children of an index page, with those that are free. -/
def pageSlots (device : Device) (page : Nat) : List Nat :=
  (List.range directoryIndexChildrenSize).map fun i => device.word page (childField i)

/-- The children of a chain of index pages. -/
def chainSlots (device : Device) (chain : List Nat) : List Nat := chain.flatMap (pageSlots device)

/-- A directory whose index pages are a chain that ends, from `first` on, with these children
in front of the free ones. -/
structure DirectoryOn (device : Device) (directory first : Nat) (rest children : List Nat) :
    Prop where
  directory_lt : directory < device.size
  root : device.word directory targetField = first
  first_lt : first < device.size
  linked : DataChain device (device.word first nextField) rest
  used : ∀ child ∈ children, child ≠ 0
  packed : ∃ free, chainSlots device (first :: rest) = children ++ List.replicate free 0

/-- The listing of a directory ends, and these are the handles in it. -/
def Lists (device : Device) (directory : Nat) (handles : List Nat) : Prop :=
  ∃ iterator fuel, directoryIteratorInit directory device = .ok (some iterator, device) ∧
    listing device fuel iterator = .ok handles

/-- A lookup returns, and finds something exactly if one of the handles has the name. -/
def Answers (device : Device) (lookup : Nat → Operation Nat) (handles : List Nat)
    (name : List UInt8) : Prop :=
  ∃ enough, ∀ fuel, enough ≤ fuel → ∃ result, lookup fuel device = .ok (result, device) ∧
    (result.isSome ↔ ∃ handle ∈ handles, (device.pages handle).isNamed nameField name)

/-- The listing of a directory has its children, in order and each once, and the lookups find
what is in a listing. -/
structure Agrees (device : Device) (directory : Nat) (children : List Nat) : Prop where
  lists : Lists device directory children
  answers : ∀ handles, Lists device directory handles → ∀ name,
    Answers device (fun fuel => openDirectory fuel directory name) handles name ∧
      Answers device (fun fuel => openFile fuel directory name) handles name

/-- Sector 0 has no file or directory in its first slot, when it is taken for an index page. -/
def SectorStops (device : Device) : Prop :=
  device.word 0 (childField 0) = 0 ∨ entryType device (device.word 0 (childField 0)) = .none

variable {device : Device}

/-! ## The iterator -/

/-- The slots that an iterator has not come to. -/
def slotsFrom (device : Device) (page location : Nat) (rest : List Nat) : List Nat :=
  (pageSlots device page).drop location ++ chainSlots device rest

@[simp]
theorem length_pageSlots (page : Nat) :
    (pageSlots device page).length = directoryIndexChildrenSize := by
  simp [pageSlots]

theorem slotsFrom_of_lt {page location : Nat} (hlocation : location < directoryIndexChildrenSize)
    (rest : List Nat) : slotsFrom device page location rest =
      device.word page (childField location) :: slotsFrom device page (location + 1) rest := by
  have hlength : location < (pageSlots device page).length := by rwa [length_pageSlots]
  rw [slotsFrom, List.drop_eq_getElem_cons hlength, List.cons_append]
  simp [pageSlots, slotsFrom]

theorem slotsFrom_of_le {page location : Nat} (hlocation : directoryIndexChildrenSize ≤ location)
    (rest : List Nat) : slotsFrom device page location rest = chainSlots device rest := by
  rw [slotsFrom, List.drop_of_length_le (by rwa [length_pageSlots]), List.nil_append]

theorem slotsFrom_zero (page : Nat) (rest : List Nat) :
    slotsFrom device page 0 rest = chainSlots device (page :: rest) := by
  rw [slotsFrom, List.drop_zero, chainSlots, chainSlots, List.flatMap_cons]

/-- The iterator is in a chain of index pages, with these slots in front of it. -/
def Before (device : Device) (iterator : DirectoryIterator) (slots : List Nat) : Prop :=
  ∃ page rest, iterator.indexPage = device.pages page ∧
    DataChain device (device.word page nextField) rest ∧
    slots = slotsFrom device page iterator.indexLocation rest

/-- With a slot in front of it the iterator goes on in the chain. -/
theorem Before.here {iterator : DirectoryIterator} {slot : Nat} {slots : List Nat}
    (hbefore : Before device iterator (slot :: slots)) :
    ∃ place : DirectoryIterator,
      directoryIteratorNext device iterator = DirectoryIterator.here device place ∧
      place.indexPage.word (childField place.indexLocation) = slot ∧
      Before device { place with indexLocation := place.indexLocation + 1 } slots := by
  obtain ⟨page, rest, hpage, hchain, hslots⟩ := hbefore
  by_cases hinside : iterator.indexLocation < directoryIndexChildrenSize
  · rw [slotsFrom_of_lt hinside, List.cons.injEq] at hslots
    refine ⟨iterator, ?_, ?_, ⟨page, rest, hpage, hchain, hslots.2⟩⟩
    · rw [directoryIteratorNext, if_neg (Nat.not_le.mpr hinside)]
    · rw [hslots.1, hpage]
      rfl
  · rw [slotsFrom_of_le (Nat.le_of_not_lt hinside)] at hslots
    -- the slot is on the next index page
    rcases hchain.next with ⟨-, rfl⟩ | ⟨next, tail, rfl, hnext, -, hlt, htail⟩
    · simp [chainSlots] at hslots
    · rw [← slotsFrom_zero, slotsFrom_of_lt (by decide), List.cons.injEq] at hslots
      refine ⟨⟨iterator.nodePage, device.pages next, 0⟩, ?_, hslots.1.symm,
        ⟨next, tail, rfl, htail, hslots.2⟩⟩
      have hread : device.read? (iterator.indexPage.word nextField) = some (device.pages next) := by
        have hword : (device.pages page).word nextField = next := hnext
        rw [hpage, hword]
        exact read?_eq_some.mpr ⟨hlt, rfl⟩
      rw [directoryIteratorNext, if_pos (Nat.le_of_not_lt hinside), hread]

/-- At a slot that is not free the iterator returns the child. -/
theorem Before.next {iterator : DirectoryIterator} {child : Nat} {slots : List Nat}
    (hbefore : Before device iterator (child :: slots)) (hchild : child ≠ 0) :
    ∃ next, directoryIteratorNext device iterator = (entryType device child, some child, next) ∧
      Before device next slots := by
  obtain ⟨place, hnext, rfl, hbehind⟩ := hbefore.here
  refine ⟨_, ?_, hbehind⟩
  rw [hnext, DirectoryIterator.here, if_neg hchild]

theorem Before.free {iterator : DirectoryIterator} {slots : List Nat}
    (hbefore : Before device iterator (0 :: slots)) :
    (directoryIteratorNext device iterator).1 = .none := by
  obtain ⟨place, hnext, hfree, -⟩ := hbefore.here
  rw [hnext, DirectoryIterator.here, if_pos hfree]

/-- Behind the last slot of the last page it goes on in sector 0. -/
theorem Before.stop {iterator : DirectoryIterator} (hbefore : Before device iterator [])
    (hsize : 0 < device.size) :
    (directoryIteratorNext device iterator).1 = .none ↔ SectorStops device := by
  obtain ⟨page, rest, hpage, hchain, hslots⟩ := hbefore
  have hend : directoryIndexChildrenSize ≤ iterator.indexLocation := by
    by_contra hinside
    rw [slotsFrom_of_lt (Nat.lt_of_not_le hinside)] at hslots
    cases hslots
  rw [slotsFrom_of_le hend] at hslots
  have hlast : device.word page nextField = 0 := by
    rcases hchain.next with ⟨hlast, -⟩ | ⟨next, tail, rfl, -⟩
    · exact hlast
    · rw [← slotsFrom_zero, slotsFrom_of_lt (by decide)] at hslots
      cases hslots
  have hread : device.read? (iterator.indexPage.word nextField) = some (device.pages 0) := by
    have hword : (device.pages page).word nextField = 0 := hlast
    rw [hpage, hword]
    exact read?_eq_some.mpr ⟨hsize, rfl⟩
  rw [directoryIteratorNext, if_pos hend, hread]
  have hword : (device.pages 0).word (childField 0) = device.word 0 (childField 0) := rfl
  simp only [DirectoryIterator.here, hword, SectorStops]
  split
  next hzero => simp [hzero]
  next hne => simp [hne]

/-! ## Listings -/

variable {iterator : DirectoryIterator} {handles children : List Nat} {fuel : Nat}

theorem listing_succ_of_none (hnext : (directoryIteratorNext device iterator).1 = .none)
    (fuel : Nat) : listing device (fuel + 1) iterator = .ok [] := by
  obtain ⟨⟨type, handle, next⟩, hcall⟩ : ∃ call, directoryIteratorNext device iterator = call :=
    ⟨_, rfl⟩
  rw [hcall] at hnext
  obtain rfl : type = .none := hnext
  rw [listing, hcall]

theorem listing_succ_of_some {type : EntryType} {handle : Nat} {next : DirectoryIterator}
    (hnext : directoryIteratorNext device iterator = (type, some handle, next))
    (htype : type ≠ .none) (fuel : Nat) :
    listing device (fuel + 1) iterator = (listing device fuel next).map (handle :: ·) := by
  rw [listing, hnext]
  cases type with
  | none => exact absurd rfl htype
  | file => rfl
  | directory => rfl

/-- The children in front of the iterator come first. -/
theorem Before.listing {slots : List Nat} (hbefore : Before device iterator (children ++ slots))
    (hused : ∀ child ∈ children, child ≠ 0)
    (htyped : ∀ child ∈ children, entryType device child ≠ .none) :
    ∃ behind, Before device behind slots ∧ ∀ fuel,
      Pkfs.listing device (children.length + fuel) iterator =
        (Pkfs.listing device fuel behind).map (children ++ ·) := by
  induction children generalizing iterator with
  | nil =>
      refine ⟨iterator, hbefore, fun fuel => ?_⟩
      rw [List.length_nil, Nat.zero_add]
      cases Pkfs.listing device fuel iterator <;> rfl
  | cons child rest ih =>
      obtain ⟨next, hnext, hrest⟩ := hbefore.next (hused child List.mem_cons_self)
      obtain ⟨behind, hbehind, hlisting⟩ := ih hrest
        (fun other hother => hused other (List.mem_cons_of_mem _ hother))
        (fun other hother => htyped other (List.mem_cons_of_mem _ hother))
      refine ⟨behind, hbehind, fun fuel => ?_⟩
      rw [List.length_cons, Nat.add_right_comm,
        listing_succ_of_some hnext (htyped child List.mem_cons_self), hlisting]
      cases Pkfs.listing device fuel behind <;> rfl

/-- What the iterator returns with a type is a child of that type. -/
theorem directoryIteratorNext_typed {type : EntryType} {handle : Option Nat}
    {next : DirectoryIterator}
    (hnext : directoryIteratorNext device iterator = (type, handle, next))
    (htype : type ≠ .none) : ∃ child, handle = some child ∧ type = entryType device child := by
  have hhere {place : DirectoryIterator}
      (hcall : DirectoryIterator.here device place = (type, handle, next)) :
      ∃ child, handle = some child ∧ type = entryType device child := by
    simp only [DirectoryIterator.here] at hcall
    split at hcall
    next => exact absurd (Prod.mk.inj hcall).1.symm htype
    next =>
      obtain ⟨hentry, hrest⟩ := Prod.mk.inj hcall
      exact ⟨_, (Prod.mk.inj hrest).1.symm, hentry.symm⟩
  unfold directoryIteratorNext at hnext
  split at hnext
  next =>
    split at hnext
    next => exact absurd (Prod.mk.inj hnext).1.symm htype
    next => exact hhere hnext
  next => exact hhere hnext

/-- How a listing begins. -/
theorem listing_succ_cases (hlisting : listing device (fuel + 1) iterator = .ok handles) :
    (directoryIteratorNext device iterator).1 = .none ∧ handles = [] ∨
      ∃ type handle next rest, directoryIteratorNext device iterator = (type, some handle, next) ∧
        type ≠ .none ∧ type = entryType device handle ∧ handles = handle :: rest ∧
        listing device fuel next = .ok rest := by
  obtain ⟨⟨type, handle, next⟩, hnext⟩ : ∃ call, directoryIteratorNext device iterator = call :=
    ⟨_, rfl⟩
  by_cases htype : type = .none
  · subst htype
    have hnone : (directoryIteratorNext device iterator).1 = .none := by rw [hnext]
    rw [listing_succ_of_none hnone, Except.ok.injEq] at hlisting
    exact .inl ⟨hnone, hlisting.symm⟩
  · obtain ⟨child, rfl, hentry⟩ := directoryIteratorNext_typed hnext htype
    rw [listing_succ_of_some hnext htype] at hlisting
    cases hrest : listing device fuel next with
    | error reason =>
        rw [hrest] at hlisting
        cases hlisting
    | ok rest =>
        rw [hrest] at hlisting
        obtain rfl : child :: rest = handles := Except.ok.inj hlisting
        exact .inr ⟨type, child, next, rest, hnext, htype, hentry, rfl, hrest⟩

/-- A listing does not depend on the bound once that is enough for it. -/
theorem listing_mono (hlisting : listing device fuel iterator = .ok handles) (more : Nat) :
    listing device (fuel + more) iterator = .ok handles := by
  induction fuel generalizing iterator handles with
  | zero => cases hlisting
  | succ fuel ih =>
      rw [Nat.add_right_comm]
      rcases listing_succ_cases hlisting with
        ⟨hnone, rfl⟩ | ⟨type, handle, next, rest, hnext, htype, -, rfl, hrest⟩
      · exact listing_succ_of_none hnone _
      · rw [listing_succ_of_some hnext htype, ih hrest]
        rfl

theorem listing_unique {other : List Nat} {fuel' : Nat}
    (hlisting : listing device fuel iterator = .ok handles)
    (hother : listing device fuel' iterator = .ok other) : handles = other := by
  have hmore := listing_mono hother fuel
  rw [Nat.add_comm, listing_mono hlisting fuel'] at hmore
  exact Except.ok.inj hmore

theorem Lists.unique {directory : Nat} {other : List Nat} (hlists : Lists device directory handles)
    (hother : Lists device directory other) : handles = other := by
  obtain ⟨iterator, fuel, hinit, hlisting⟩ := hlists
  obtain ⟨iterator', fuel', hinit', hlisting'⟩ := hother
  obtain rfl : iterator = iterator' := by simpa using hinit.symm.trans hinit'
  exact listing_unique hlisting hlisting'

/-- Only files and directories are listed. -/
theorem entryType_of_listing (hlisting : listing device fuel iterator = .ok handles) :
    ∀ handle ∈ handles, entryType device handle ≠ .none := by
  induction fuel generalizing iterator handles with
  | zero => cases hlisting
  | succ fuel ih =>
      rcases listing_succ_cases hlisting with
        ⟨-, rfl⟩ | ⟨type, handle, next, rest, -, htype, rfl, rfl, hrest⟩
      · exact List.forall_mem_nil _
      · exact List.forall_mem_cons.mpr ⟨htype, ih hrest⟩

/-! ## Lookups -/

variable {name : List UInt8}

/-- The name of the child that a handle is for. -/
abbrev Called (device : Device) (name : List UInt8) (handle : Nat) : Bool :=
  (device.pages handle).isNamed nameField name

/-- The search of an index page whose used slots can be read. -/
theorem searchIndex_eq {page free : Nat} {slots : List Nat}
    (hslots : slots.map (fun i => device.word page (childField i)) =
      children ++ List.replicate free 0)
    (hused : ∀ child ∈ children, child ≠ 0 ∧ child < device.size) :
    searchIndex name (device.pages page) slots device =
      .ok (match children.find? (Called device name) with
        | some child => some (some child)
        | none => if free = 0 then some none else none, device) := by
  induction slots generalizing children with
  | nil =>
      obtain ⟨rfl, hfree⟩ := List.append_eq_nil_iff.mp hslots.symm
      obtain rfl := List.replicate_eq_nil_iff _ |>.mp hfree
      rfl
  | cons i rest ih =>
      rw [List.map_cons] at hslots
      have hword : (device.pages page).word (childField i) = device.word page (childField i) := rfl
      simp only [searchIndex, hword]
      cases children with
      | nil =>
          obtain ⟨free, rfl⟩ := Nat.exists_eq_succ_of_ne_zero
            (show free ≠ 0 by rintro rfl; cases hslots)
          rw [List.nil_append, List.replicate_succ, List.cons.injEq] at hslots
          rw [if_pos hslots.1]
          rfl
      | cons child later =>
          rw [List.cons_append, List.cons.injEq] at hslots
          obtain ⟨hne, hlt⟩ := hused child List.mem_cons_self
          rw [hslots.1, if_neg hne, bind_of_some (discRead_of_lt hlt), List.find?_cons]
          cases hcalled : Called device name child with
          | true =>
              have hcalled : (device.pages child).isNamed nameField name = true := hcalled
              rw [if_pos hcalled]
              rfl
          | false =>
              have hcalled : ¬(device.pages child).isNamed nameField name = true := by
                rw [show (device.pages child).isNamed nameField name = false from hcalled]
                exact Bool.false_ne_true
              rw [if_neg hcalled]
              exact ih hslots.2 fun other hother => hused other (List.mem_cons_of_mem _ hother)

/-- The children in the first page of a chain, and those behind it. -/
theorem chainSlots_split {page free : Nat} {rest : List Nat}
    (hslots : chainSlots device (page :: rest) = children ++ List.replicate free 0) :
    ∃ here behind, pageSlots device page =
        children.take directoryIndexChildrenSize ++ List.replicate here 0 ∧
      chainSlots device rest = children.drop directoryIndexChildrenSize ++ List.replicate behind 0 ∧
      (children.length < directoryIndexChildrenSize ↔ here ≠ 0) := by
  have hpage : pageSlots device page =
      (chainSlots device (page :: rest)).take directoryIndexChildrenSize := by
    rw [← slotsFrom_zero, slotsFrom, List.drop_zero, List.take_left' (length_pageSlots page)]
  have hrest : chainSlots device rest =
      (chainSlots device (page :: rest)).drop directoryIndexChildrenSize := by
    rw [← slotsFrom_zero, slotsFrom, List.drop_zero, List.drop_left' (length_pageSlots page)]
  rw [hslots, List.take_append, List.take_replicate] at hpage
  rw [hslots, List.drop_append, List.drop_replicate] at hrest
  refine ⟨_, _, hpage, hrest, ?_⟩
  have hlength := congrArg List.length hpage
  rw [length_pageSlots, List.length_append, List.length_take, List.length_replicate] at hlength
  omega

/-- The lookup finds the first child with the name. -/
theorem openLoop_eq {page free : Nat} {rest : List Nat} (hpage : page < device.size)
    (hchain : DataChain device (device.word page nextField) rest)
    (hslots : chainSlots device (page :: rest) = children ++ List.replicate free 0)
    (hused : ∀ child ∈ children, child ≠ 0 ∧ child < device.size)
    (hfuel : rest.length < fuel) :
    openLoop name fuel page device = .ok (children.find? (Called device name), device) := by
  induction fuel generalizing page rest children free with
  | zero => omega
  | succ fuel ih =>
      obtain ⟨here, behind, hhere, hbehind, hroom⟩ := chainSlots_split hslots
      have hsearch := @searchIndex_eq device _ name page here _ hhere fun child hchild =>
        hused child (List.mem_of_mem_take hchild)
      rw [openLoop, bind_of_some (discRead_of_lt hpage)]
      have hsplit : children.find? (Called device name) =
          ((children.take directoryIndexChildrenSize).find? (Called device name)).or
            ((children.drop directoryIndexChildrenSize).find? (Called device name)) := by
        rw [← List.find?_append, List.take_append_drop]
      cases hfound : (children.take directoryIndexChildrenSize).find? (Called device name) with
      | some child =>
          rw [hfound] at hsearch hsplit
          rw [bind_of_some hsearch, hsplit]
          rfl
      | none =>
          rw [hfound, Option.none_or] at hsplit
          rw [hfound] at hsearch
          by_cases hfull : here = 0
          · simp only [hfull, if_true] at hsearch
            rw [bind_of_some hsearch, hsplit]
            rcases hchain.next with ⟨hlast, rfl⟩ | ⟨next, tail, rfl, hnext, hne, hnextLt, htail⟩
            · have hnone : children.drop directoryIndexChildrenSize = [] :=
                (List.append_eq_nil_iff.mp hbehind.symm).1
              have hend : (device.pages page).word nextField = 0 := hlast
              simp [hend, hnone]
            · have hgo : (device.pages page).word nextField = next := hnext
              simp only [hgo, ne_eq, hne, not_false_iff, if_true]
              rw [List.length_cons] at hfuel
              exact ih hnextLt htail hbehind
                (fun child hchild => hused child (List.mem_of_mem_drop hchild)) (by omega)
          · simp only [hfull, if_false] at hsearch
            have hshort := hroom.mpr hfull
            rw [hsplit, List.drop_of_length_le (Nat.le_of_lt hshort), List.find?_nil]
            simp only [bind, hsearch]

/-! ## Agreement -/

section Agreement

variable {directory first : Nat} {rest : List Nat}

/-- A child that is listed can be read. -/
theorem lt_size_of_entryType {handle : Nat} (htype : entryType device handle ≠ .none) :
    handle < device.size := by
  by_contra hge
  refine htype ?_
  rw [entryType, Device.read?, if_neg hge]

theorem DirectoryOn.answers (hdirectory : DirectoryOn device directory first rest children)
    (htyped : ∀ child ∈ children, entryType device child ≠ .none) (name : List UInt8) :
    Answers device (fun fuel => openNode fuel directory name) children name := by
  obtain ⟨free, hslots⟩ := hdirectory.packed
  refine ⟨rest.length + 1, fun fuel henough => ?_⟩
  have htarget : (device.pages directory).word targetField = first := hdirectory.root
  refine ⟨children.find? (Called device name), ?_, ?_⟩
  · change openNode fuel directory name device = _
    unfold openNode
    rw [bind_of_some (discRead_of_lt hdirectory.directory_lt), htarget]
    refine openLoop_eq hdirectory.first_lt hdirectory.linked hslots (fun child hchild => ?_) henough
    exact ⟨hdirectory.used child hchild, lt_size_of_entryType (htyped child hchild)⟩
  · rw [List.find?_isSome]

/-- The iterator at the start of the directory. -/
theorem DirectoryOn.before (hdirectory : DirectoryOn device directory first rest children) :
    ∃ iterator free, directoryIteratorInit directory device = .ok (some iterator, device) ∧
      Before device iterator (children ++ List.replicate free 0) ∧
      children.length + free = directoryIndexChildrenSize * (rest.length + 1) := by
  obtain ⟨free, hslots⟩ := hdirectory.packed
  have hinit := directoryIteratorInit_eq_ok.mpr ⟨hdirectory.directory_lt,
    hdirectory.root.symm ▸ hdirectory.first_lt, rfl, rfl⟩
  refine ⟨_, free, hinit,
    ⟨first, rest, congrArg device.pages hdirectory.root, hdirectory.linked, ?_⟩, ?_⟩
  · rw [slotsFrom_zero, hslots]
  · have hlength := congrArg List.length hslots
    rw [List.length_append, List.length_replicate] at hlength
    rw [← hlength]
    simp [chainSlots, List.length_flatMap, Nat.mul_comm, Nat.mul_succ, Nat.add_comm]

/-- The listing has the children exactly if it comes to each of them and stops behind the last. -/
theorem DirectoryOn.lists_iff (hdirectory : DirectoryOn device directory first rest children) :
    Lists device directory children ↔
      (∀ child ∈ children, entryType device child ≠ .none) ∧
        (children.length < directoryIndexChildrenSize * (rest.length + 1) ∨
          SectorStops device) := by
  have hsize : 0 < device.size := Nat.zero_lt_of_lt hdirectory.first_lt
  obtain ⟨iterator, free, hinit, hbefore, hcount⟩ := hdirectory.before
  constructor
  · rintro ⟨other, fuel, hother, hlisting⟩
    obtain rfl : iterator = other := by
      simpa using hinit.symm.trans hother
    have htyped := entryType_of_listing hlisting
    refine ⟨htyped, ?_⟩
    obtain ⟨behind, hbehind, hrest⟩ := hbefore.listing hdirectory.used htyped
    by_cases hroom : children.length < directoryIndexChildrenSize * (rest.length + 1)
    · exact .inl hroom
    · right
      obtain rfl : free = 0 := by omega
      -- the listing goes on behind the children, and returns nothing there
      have hmore := hrest fuel
      rw [Nat.add_comm, listing_mono hlisting] at hmore
      cases hlast : Pkfs.listing device fuel behind with
      | error reason =>
          rw [hlast] at hmore
          cases hmore
      | ok handles =>
          rw [hlast] at hmore
          obtain rfl : handles = [] := by simpa [Except.map] using hmore
          cases fuel with
          | zero => cases hlast
          | succ fuel =>
              rcases listing_succ_cases hlast with ⟨hnone, -⟩ | ⟨_, _, _, _, _, _, _, hcons, _⟩
              · exact (hbehind.stop hsize).mp hnone
              · cases hcons
  · rintro ⟨htyped, hroom⟩
    obtain ⟨behind, hbehind, hrest⟩ := hbefore.listing hdirectory.used htyped
    refine ⟨iterator, children.length + 1, hinit, ?_⟩
    have hnone : (directoryIteratorNext device behind).1 = .none := by
      cases free with
      | zero => exact (hbehind.stop hsize).mpr (hroom.resolve_left (by omega))
      | succ free => exact hbehind.free
    rw [hrest, listing_succ_of_none hnone]
    simp [Except.map]

/-- The listing and the lookups agree exactly if all children are files and directories, and
the last index page has a free slot or sector 0 stops the iterator. -/
theorem agrees_iff (hdirectory : DirectoryOn device directory first rest children) :
    Agrees device directory children ↔
      (∀ child ∈ children, entryType device child ≠ .none) ∧
        (children.length < directoryIndexChildrenSize * (rest.length + 1) ∨
          SectorStops device) := by
  rw [← hdirectory.lists_iff]
  refine ⟨Agrees.lists, fun hlists => ⟨hlists, fun handles hhandles name => ?_⟩⟩
  obtain rfl := hlists.unique hhandles
  have hanswers := hdirectory.answers (hdirectory.lists_iff.mp hlists).1 name
  exact ⟨hanswers, hanswers⟩

end Agreement

/-! ## A full directory -/

/-- The files in `fullImage`. -/
def fullChildren : List Nat := (List.range directoryIndexChildrenSize).map fun i => 67 + 2 * i

/-- The root directory of `fullImage`, whatever is in sector 0. -/
theorem fullImage_directoryOn (sector : Page) :
    DirectoryOn (fullImage.set 0 sector) 65 66 [] fullChildren where
  directory_lt := show 65 < 300 by decide
  root := by
    rw [Device.word, Device.set_pages_of_ne _ _ (by decide)]
    exact fullImage_root.2.2
  first_lt := show 66 < 300 by decide
  linked := by
    change (fullImage.set 0 sector).word 66 nextField = 0
    rw [Device.word, Device.set_pages_of_ne _ _ (by decide)]
    exact fullIndex_next
  used := by decide
  packed := by
    refine ⟨0, ?_⟩
    rw [List.replicate_zero, List.append_nil, chainSlots, List.flatMap_singleton]
    refine List.map_congr_left fun i hi => ?_
    rw [Device.word, Device.set_pages_of_ne _ _ (by decide)]
    exact fullIndex_child i (List.mem_range.mp hi)

theorem fullImage_entryType (sector : Page) :
    ∀ child ∈ fullChildren, entryType (fullImage.set 0 sector) child ≠ .none := by
  intro child hchild
  obtain ⟨i, hi, rfl⟩ := List.mem_map.mp hchild
  have hlt := List.mem_range.mp hi
  have hroot : fullImage.word 65 targetField = 66 := fullImage_root.2.2
  have hword : fullImage.word 66 (childField i) = 67 + 2 * i := fullIndex_child i hlt
  have htyped := fullImage_typed i hlt
  rw [hroot, hword] at htyped
  have hpage : (fullImage.set 0 sector).pages (67 + 2 * i) = fullImage.pages (67 + 2 * i) :=
    Device.set_pages_of_ne _ _ (by omega)
  have hsame : entryType (fullImage.set 0 sector) (67 + 2 * i) = entryType fullImage (67 + 2 * i) :=
    entryType_congr rfl hpage
  rw [hsame]
  exact htyped (by omega)

/-- With an empty sector 0 the full directory is listed, and its files are found. -/
theorem agrees_full : Agrees (fullImage.set 0 Page.zero) 65 fullChildren :=
  (agrees_iff (fullImage_directoryOn Page.zero)).mpr
    ⟨fullImage_entryType Page.zero, .inr (.inl (Page.word_zero _))⟩

/-- A sector 0 with 67 at the place of the first child. -/
def bootSector : Page := Page.zero.setWord (childField 0) 67

/-- File 67 is listed once more from sector 0. -/
theorem disagrees_full : DirectoryOn (fullImage.set 0 bootSector) 65 66 [] fullChildren ∧
    (∀ child ∈ fullChildren, entryType (fullImage.set 0 bootSector) child ≠ .none) ∧
    ¬Agrees (fullImage.set 0 bootSector) 65 fullChildren := by
  have hdirectory := fullImage_directoryOn bootSector
  have htyped := fullImage_entryType bootSector
  refine ⟨hdirectory, htyped, fun hagrees => ?_⟩
  have hword : (fullImage.set 0 bootSector).word 0 (childField 0) = 67 :=
    Page.word_setWord_same _ (by decide)
  rcases (hdirectory.lists_iff.mp hagrees.lists).2 with hroom | hfree | hnone
  · exact absurd hroom (by decide)
  · rw [hword] at hfree
    cases hfree
  · rw [hword] at hnone
    exact htyped 67 (by decide) hnone

end PKernel.Pkfs
