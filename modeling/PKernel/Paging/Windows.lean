import PKernel.Library.Transition
import PKernel.Paging.Frames
import PKernel.Paging.TableAllocator

/-! # The growth of the windows

`table_allocator.c` and `translation_map.c` with the page tables behind their two windows. Each
window has one directory at a time, which the `pdpt` of the window names, and a pointer to the
address that comes next. When the last entry of a directory is used, a new one is entered in the
`pdpt` at the index of the pointer, which is still inside the range of the old one.
-/

namespace PKernel.Windows

open PageTables (Allocation pdptIndex pdtIndex ptIndex Entry)
open Talloc (tmapPageEntries tmapBuckets tmapHash tallocVaddr slotAddress)

/-- `PAGING_TMAP_VADDR`. -/
def tmapVaddr : Nat := 0x018000000000

/-- The frames of `paging_talloc_pdpt` and `paging_tmap_pdpt`. -/
structure Pdpts where
  talloc : Nat
  tmap : Nat
  apart : talloc ≠ tmap

/-- The variables of the table allocator, and the tables it has handed out. -/
structure TallocState where
  currentVaddr : Nat
  pdtPaddr : Nat
  ptPaddr : Nat
  ptCount : Nat
  tables : List Allocation

/-- `paging_tmap_page_t`: its address in the window and its entries. -/
structure TmapPage where
  vaddr : Nat
  entries : List Allocation
deriving DecidableEq, Repr

/-- The variables of the translation map, and the pages it has made, each with its own frame. -/
structure TmapState where
  nextPagePtr : Nat
  pdtPaddr : Nat
  ptPaddr : Nat
  buckets : Nat → List TmapPage
  pages : List Allocation

structure State where
  frames : Frames
  /-- The frames that `bitmap_reserve` returns, in this order. -/
  supply : List Nat
  talloc : TallocState
  tmap : TmapState

/-- `bitmap_reserve`, as long as it has a frame to return. -/
def bitmapReserve (state : State) : Except Fault (Nat × State) :=
  match state.supply with
  | [] => .error .exhausted
  | frame :: rest => .ok (frame, { state with supply := rest })

section Code

variable (pdpts : Pdpts)

/-! ## The translation map -/

/-- The end of a directory in `add_tmap_page`. -/
def newTmapPdt (state : State) : Except Fault State := do
  let (pdt, state) ← bitmapReserve state
  return { state with
    frames := (state.frames.clear pdt).link pdpts.tmap (pdptIndex state.tmap.nextPagePtr) pdt
    tmap := { state.tmap with pdtPaddr := pdt } }

/-- The end of a page table in `add_tmap_page`. -/
def newTmapPt (state : State) : Except Fault State := do
  let (pt, state) ← bitmapReserve state
  let index := pdtIndex state.tmap.nextPagePtr
  let state := { state with
    frames := (state.frames.clear pt).link state.tmap.pdtPaddr index pt
    tmap := { state.tmap with ptPaddr := pt } }
  if index = 511 then newTmapPdt pdpts state else return state

/-- `add_tmap_page`. It ends with accesses to the page that it made. -/
def addTmapPage (state : State) : Except Fault (Allocation × State) := do
  let (page, state) ← bitmapReserve state
  let index := ptIndex state.tmap.nextPagePtr
  let made : Allocation := ⟨page, state.tmap.nextPagePtr⟩
  let state := { state with
    frames := (state.frames.clear page).link state.tmap.ptPaddr index page
    tmap := { state.tmap with nextPagePtr := u64 (state.tmap.nextPagePtr + pageSize) } }
  let state ← if index = 511 then newTmapPt pdpts state else pure state
  let _ ← state.frames.access pdpts.tmap made.vaddr
  return (made, { state with tmap := { state.tmap with pages := state.tmap.pages ++ [made] } })

/-- The loop of `paging_tmap_map`: `none` when all pages are full. -/
def insertEntry (frames : Frames) (entry : Allocation) :
    List TmapPage → Except Fault (Option (List TmapPage))
  | [] => return none
  | page :: rest => do
      let _ ← frames.access pdpts.tmap page.vaddr
      if page.entries.length ≠ tmapPageEntries then
        return some ({ page with entries := page.entries ++ [entry] } :: rest)
      let inserted ← insertEntry frames entry rest
      return inserted.map (page :: ·)

def TmapState.setBucket (tmap : TmapState) (hash : Nat) (chain : List TmapPage) : TmapState :=
  { tmap with buckets := Function.update tmap.buckets hash chain }

/-- `paging_tmap_map`. -/
def tmapMap (state : State) (entry : Allocation) : Except Fault State := do
  let hash := tmapHash entry.paddr
  let chain := state.tmap.buckets hash
  match ← insertEntry pdpts state.frames entry chain with
  | some inserted => return { state with tmap := state.tmap.setBucket hash inserted }
  | none => do
      let (made, state) ← addTmapPage pdpts state
      let _ ← state.frames.access pdpts.tmap made.vaddr
      return { state with tmap := state.tmap.setBucket hash (⟨made.vaddr, [entry]⟩ :: chain) }

/-- The loops of `paging_tmap_unmap`: the pages after it. -/
def eraseEntry (frames : Frames) (paddr : Nat) : List TmapPage → Except Fault (List TmapPage)
  | [] => return []
  | page :: rest => do
      let _ ← frames.access pdpts.tmap page.vaddr
      match page.entries.findIdx? (·.paddr == paddr) with
      | some i => return { page with entries := page.entries.eraseIdx i } :: rest
      | none => return page :: (← eraseEntry frames paddr rest)

/-- `paging_tmap_unmap`. -/
def tmapUnmap (state : State) (paddr : Nat) : Except Fault State := do
  let hash := tmapHash paddr
  let chain ← eraseEntry pdpts state.frames paddr (state.tmap.buckets hash)
  return { state with tmap := state.tmap.setBucket hash chain }

/-- The loop of `paging_tmap_init` from bucket `i` on. -/
def firstPages (i : Nat) : Nat → State → Except Fault State
  | 0, state => return state
  | count + 1, state => do
      let (made, state) ← addTmapPage pdpts state
      firstPages (i + 1) count
        { state with tmap := state.tmap.setBucket i [⟨made.vaddr, []⟩] }

/-- `paging_tmap_init`. -/
def tmapInit (state : State) : Except Fault State := do
  let (pdt, state) ← bitmapReserve state
  let (pt, state) ← bitmapReserve state
  let frames := ((state.frames.clear pt).clear pdt).link pdt (pdtIndex tmapVaddr) pt
  let state := { state with
    frames := frames.link pdpts.tmap (pdptIndex tmapVaddr) pdt
    tmap := { state.tmap with pdtPaddr := pdt, ptPaddr := pt } }
  firstPages pdpts 0 tmapBuckets state

/-! ## The table allocator -/

/-- The end of a directory in `add_pt`. -/
def newTallocPdt (state : State) : Except Fault State := do
  let (pdt, state) ← bitmapReserve state
  return { state with
    frames := (state.frames.clear pdt).link pdpts.talloc (pdptIndex state.talloc.currentVaddr) pdt
    talloc := { state.talloc with pdtPaddr := pdt } }

/-- `add_pt`. The page table maps itself in its first slot. -/
def addPt (state : State) : Except Fault State := do
  let (pt, state) ← bitmapReserve state
  let index := pdtIndex state.talloc.currentVaddr
  let state := { state with
    frames := (state.frames.clear pt).link state.talloc.pdtPaddr index pt
    talloc := { state.talloc with ptPaddr := pt } }
  let state ← if index = 511 then newTallocPdt pdpts state else pure state
  return { state with
    frames := (state.frames.clear pt).link pt 0 pt
    talloc := { state.talloc with
      currentVaddr := u64 (state.talloc.currentVaddr + 512 * pageSize)
      ptCount := state.talloc.ptCount + 1 } }

/-- `paging_talloc_init`. -/
def tallocInit (state : State) : Except Fault State := do
  let (pdt, state) ← bitmapReserve state
  let state := { state with
    frames := (state.frames.clear pdt).link pdpts.talloc (pdptIndex tallocVaddr) pdt
    talloc := { state.talloc with pdtPaddr := pdt, ptCount := 0 } }
  addPt pdpts state

/-- The `for` loop of `paging_talloc_alloc`: the first entry that is not present. -/
def freeEntry (row : Nat → Entry) : Option Nat :=
  (List.range' 1 511).find? fun i => !(row i).present

/-- The `while` loop of `paging_talloc_alloc` from page table `currentPt` on. -/
def findSlot : Nat → State → Nat → Except Fault (State × Nat × Nat)
  | 0, _, _ => .error .nontermination
  | fuel + 1, state, currentPt => do
      let frame ← state.frames.access pdpts.talloc (slotAddress currentPt 0)
      match freeEntry (state.frames frame) with
      | some i => return (state, currentPt, i)
      | none => do
          let state ← if state.talloc.ptCount ≤ currentPt + 1 then addPt pdpts state
            else pure state
          findSlot fuel state (currentPt + 1)

/-- The body of the loops of `paging_talloc_alloc`, for entry `i` of page table `pt`. -/
def takeSlot (state : State) (pt i : Nat) : Except Fault (Allocation × State) := do
  let (paddr, state) ← bitmapReserve state
  let frame ← state.frames.access pdpts.talloc (slotAddress pt 0)
  let frames := state.frames.link frame i paddr
  let alloc : Allocation := ⟨paddr, slotAddress pt i⟩
  let cleared ← frames.access pdpts.talloc alloc.vaddr
  let state ← tmapMap pdpts { state with
    frames := frames.clear cleared
    talloc := { state.talloc with tables := state.talloc.tables ++ [alloc] } } alloc
  return (alloc, state)

/-- `paging_talloc_alloc`. -/
def tallocAlloc (state : State) : Except Fault (Allocation × State) := do
  let (state, pt, i) ← findSlot pdpts (state.talloc.ptCount + 2) state 0
  takeSlot pdpts state pt i

/-- `paging_talloc_free`. -/
def tallocFree (state : State) (alloc : Allocation) : Except Fault State :=
  tmapUnmap pdpts state alloc.paddr

/-! ## Runs -/

/-- The part of `paging_init` that clears the `pdpt` of each window, and then the two calls that set
the windows up. -/
def start (frames : Frames) (supply : List Nat) : Except Fault State := do
  let state ← tmapInit pdpts
    { frames := (frames.clear pdpts.tmap).clear pdpts.talloc
      supply := supply
      talloc := ⟨tallocVaddr, 0, 0, 0, []⟩
      tmap := ⟨tmapVaddr, 0, 0, fun _ => [], []⟩ }
  tallocInit pdpts state

end Code

/-- The frames are pages, and each of them comes only once. -/
structure Fresh (pdpts : Pdpts) (supply : List Nat) : Prop where
  nodup : supply.Nodup
  page : ∀ frame ∈ supply, pageSize ∣ frame ∧ frame < 2 ^ 52
  apart : ∀ frame ∈ supply, frame ≠ pdpts.talloc ∧ frame ≠ pdpts.tmap

inductive Op where
  | alloc
  | addPage
  | free (alloc : Allocation)
  /-- The kernel writes an entry of a table that it was handed. -/
  | store (alloc : Allocation) (index : Nat) (entry : Entry)
  /-- Another part of the kernel takes a frame. -/
  | reserve

inductive Step (pdpts : Pdpts) (state : State) : Op → State → Prop
  | alloc {alloc : Allocation} {next : State}
      (hreturn : tallocAlloc pdpts state = .ok (alloc, next)) : Step pdpts state .alloc next
  | addPage {made : Allocation} {next : State}
      (hreturn : addTmapPage pdpts state = .ok (made, next)) : Step pdpts state .addPage next
  | free {alloc : Allocation} {next : State} (hheld : alloc ∈ state.talloc.tables)
      (hreturn : tallocFree pdpts state alloc = .ok next) : Step pdpts state (.free alloc) next
  | store {alloc : Allocation} {index frame : Nat} {entry : Entry}
      (hheld : alloc ∈ state.talloc.tables)
      (haccess : state.frames.access pdpts.talloc alloc.vaddr = .ok frame) :
      Step pdpts state (.store alloc index entry)
        { state with
          frames := Function.update state.frames frame
            (Function.update (state.frames frame) index entry) }
  | reserve {frame : Nat} {next : State} (hreturn : bitmapReserve state = .ok (frame, next)) :
      Step pdpts state .reserve next

def windows (pdpts : Pdpts) : Library.Transition.System State Op where
  init state := ∃ frames supply, Fresh pdpts supply ∧ start pdpts frames supply = .ok state
  step := Step pdpts

/-- Each table and each page made so far is mapped to its own frame. -/
structure Mapped (pdpts : Pdpts) (state : State) : Prop where
  tables : ∀ alloc ∈ state.talloc.tables,
    state.frames.translate pdpts.talloc alloc.vaddr = some alloc.paddr
  pages : ∀ made ∈ state.tmap.pages,
    state.frames.translate pdpts.tmap made.vaddr = some made.paddr

end PKernel.Windows
