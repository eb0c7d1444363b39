import PKernel.Paging.VirtualCanonical

/-! # Requests and gaps

A page is free when no client holds it. A gap is a maximal run of free pages, and
the free nodes are the gaps. `valloc_alloc` takes the lowest gap that is long
enough, and `valloc_reserve` grants a request exactly when its pages are free.
-/

namespace PKernel.Valloc

open Library.LinkedList Library.Tiling Library.Transition

variable {regions : List Region} {world : World} {places : List Nat} {live : List (Nat × Nat)}

/-- A page of the address space that lies in no live range. -/
def FreePage (live : List (Nat × Nat)) (page : Nat) : Prop :=
  pageSize * page < regionSize ∧ ∀ range ∈ live,
    ¬(range.1 ≤ pageSize * page ∧ pageSize * page < range.1 + pageSize * range.2)

/-- The `count` pages from `first` on are free. -/
def FreeRun (live : List (Nat × Nat)) (first count : Nat) : Prop :=
  ∀ page, first ≤ page → page < first + count → FreePage live page

/-- A run of free pages that no free page extends. -/
structure Gap (live : List (Nat × Nat)) (first count : Nat) : Prop where
  pos : 0 < count
  free : FreeRun live first count
  before : ∀ page, page + 1 = first → ¬FreePage live page
  behind : ¬FreePage live (first + count)

/-! ## Free nodes are gaps -/

namespace Invariant

variable {first count page : Nat}

end Invariant

/-! ## Requests -/

variable {size vaddr : Nat}

/-- What the two kinds of requests do in a state, for the number of pages that
cover the size. -/
structure Exact (world : World) : Prop where
  alloc : ∀ size newNode, 0 < size → size ≤ regionSize → world.valloc.nodes newNode = none →
    (∃ first count valloc, vallocAlloc walkBound world.valloc size newNode =
        .ok (pageSize * first, valloc) ∧
      Gap world.live first count ∧ divUp size pageSize ≤ count ∧
      ∀ other length, Gap world.live other length → divUp size pageSize ≤ length →
        first ≤ other) ∨
    (vallocAlloc walkBound world.valloc size newNode = .error (.entryError 0x123) ∧
      ∀ first, ¬FreeRun world.live first (divUp size pageSize))
  reserve : ∀ first size newBefore newAfter, pageSize * first < regionSize → 0 < size →
    size ≤ regionSize → world.valloc.nodes newBefore = none →
    world.valloc.nodes newAfter = none → newBefore ≠ newAfter →
    ∃ result valloc regions, vallocReserve walkBound world.valloc (pageSize * first) size
        newBefore newAfter = .ok (result, valloc) ∧ Spells valloc regions ∧
      ((result = pageSize * first ∧
          (reserved regions).Perm ((pageSize * first, divUp size pageSize) :: world.live)) ↔
        FreeRun world.live first (divUp size pageSize)) ∧
      (¬FreeRun world.live first (divUp size pageSize) → result = 0 ∧ valloc = world.valloc)

namespace Invariant

end Invariant

end PKernel.Valloc
