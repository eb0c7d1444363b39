import PKernel.Library.Transition
import PKernel.Paging.VirtualAllocator

/-! # Runs of the virtual allocator

A run starts from `valloc_init` and allocates, reserves and releases ranges in
any order, with new nodes at any addresses the heap has free. The clients' view
is the list of live ranges. In every state of every run the node list spells a
well-formed region list whose regions in use are the live ranges.
-/

namespace PKernel.Valloc

open Library.LinkedList Library.Tiling Library.Transition

/-- More steps than any list of non-empty regions is long. -/
def walkBound : Nat := 2 ^ 36 + 1

/-- The allocator, and the ranges its clients hold: first address and number of
pages. -/
structure World where
  valloc : Valloc
  live : List (Nat × Nat)

inductive Op where
  | alloc (size newNode : Nat)
  | reserve (vaddr size newBefore newAfter : Nat)
  | release (vaddr : Nat)

/-- Whether a call of `valloc_reserve` that returned `result` made its range
live. A refused request returns `NULL`, which is also the address of a request
at 0; that one is granted if its pages are not in use. -/
def Granted (live : List (Nat × Nat)) (vaddr sizePages result : Nat) : Prop :=
  result = vaddr ∧ (vaddr = 0 → ∀ range ∈ live, Apart (vaddr, sizePages) range)

instance (live : List (Nat × Nat)) (vaddr sizePages result : Nat) :
    Decidable (Granted live vaddr sizePages result) := inferInstanceAs (Decidable (_ ∧ _))

/-- One call that returns. New nodes lie at addresses not in use. -/
inductive Step (world : World) : Op → World → Prop
  | alloc {size newNode vaddr : Nat} {valloc : Valloc} (hpos : 0 < size)
      (hsize : size ≤ regionSize) (hfresh : world.valloc.nodes newNode = none)
      (hreturn : vallocAlloc walkBound world.valloc size newNode = .ok (vaddr, valloc)) :
      Step world (.alloc size newNode) ⟨valloc, (vaddr, divUp size pageSize) :: world.live⟩
  | reserve {vaddr size newBefore newAfter result : Nat} {valloc : Valloc} (hpos : 0 < size)
      (hsize : size ≤ regionSize) (hvaddr : vaddr < 2 ^ 64)
      (hnewBefore : world.valloc.nodes newBefore = none)
      (hnewAfter : world.valloc.nodes newAfter = none) (hne : newBefore ≠ newAfter)
      (hreturn : vallocReserve walkBound world.valloc vaddr size newBefore newAfter =
        .ok (result, valloc)) :
      Step world (.reserve vaddr size newBefore newAfter)
        ⟨valloc, if Granted world.live vaddr (divUp size pageSize) result then
          (vaddr, divUp size pageSize) :: world.live else world.live⟩
  | release {range : Nat × Nat} {found : Bool} {valloc : Valloc} (hlive : range ∈ world.live)
      (hreturn : vallocRelease walkBound world.valloc range.1 = .ok (found, valloc)) :
      Step world (.release range.1) ⟨valloc, world.live.erase range⟩

/-- `valloc_init` is called on a `valloc_t` in memory, apart from the new node. -/
def system : System World Op where
  init world := ∃ valloc node, (valloc.nodes valloc.head).isSome ∧
    (valloc.nodes valloc.tail).isSome ∧ valloc.head ≠ valloc.tail ∧ valloc.nodes node = none ∧
    vallocInit valloc node = .ok world.valloc ∧ world.live = []
  step := Step

/-- The nodes spell a well-formed list whose regions in use are the live ranges. -/
structure Invariant (world : World) (places : List Nat) (regions : List Region) : Prop where
  represents :
    Represents world.valloc.nodes world.valloc.head world.valloc.tail places regions
  wellFormed : WellFormed regions
  live : (reserved regions).Perm world.live

/-- What holds between calls, for the nodes at `places` and the `regions` they
hold, in the order of the list. -/
structure Consistent (world : World) (places : List Nat) (regions : List Region) : Prop where
  /-- The forward and the backward links between the sentinels agree. -/
  links : Represents world.valloc.nodes world.valloc.head world.valloc.tail places regions
  tiles : Tiles Region.startAddr Region.bytes 0 regions regionSize
  aligned : ∀ region ∈ regions, pageSize ∣ region.startAddr
  nonempty : ∀ region ∈ regions, 0 < region.sizePages
  coalesced : regions.IsChain fun earlier later => ¬(earlier.isFree = true ∧ later.isFree = true)
  live : (reserved regions).Perm world.live
  disjoint : world.live.Pairwise Apart
  /-- `valloc_release` of a live range returns true. -/
  release : ∀ range ∈ world.live,
    ∃ valloc, vallocRelease walkBound world.valloc range.1 = .ok (true, valloc)
  /-- `valloc_alloc` returns, or stops for want of a large enough free region. -/
  alloc : ∀ size newNode, world.valloc.nodes newNode = none →
    (∃ vaddr valloc, vallocAlloc walkBound world.valloc size newNode = .ok (vaddr, valloc)) ∨
      vallocAlloc walkBound world.valloc size newNode = .error (.entryError 0x123)

variable {world next : World} {places : List Nat} {regions : List Region} {op : Op}

/-- Non-empty regions are at most as many as there are pages. -/
theorem WellFormed.length_lt (hwell : WellFormed regions) : regions.length < walkBound := by
  have hcount : ∀ (pieces : List Region) (low : Nat), (∀ piece ∈ pieces, 0 < piece.sizePages) →
      Tiles Region.startAddr Region.bytes low pieces regionSize →
      low + pageSize * pieces.length ≤ regionSize := by
    intro pieces
    induction pieces with
    | nil =>
        intro low _ htiles
        exact Nat.le_of_eq (tiles_nil.mp htiles)
    | cons piece pieces ih =>
        intro low hpos htiles
        have hfirst := hpos piece List.mem_cons_self
        have hrest := ih _ (fun piece hpiece => hpos piece (List.mem_cons_of_mem _ hpiece)) htiles.2
        simp only [List.length_cons, Region.bytes, pageSize] at hrest ⊢
        omega
  have := hcount regions 0 hwell.nonempty hwell.tiles
  unfold pageSize regionSize at this
  unfold walkBound
  omega

theorem vallocInit_spec {valloc : Valloc} {node : Nat} (hhead : (valloc.nodes valloc.head).isSome)
    (htail : (valloc.nodes valloc.tail).isSome) (hne : valloc.head ≠ valloc.tail)
    (hfresh : valloc.nodes node = none) :
    ∃ nodes, vallocInit valloc node = .ok { valloc with nodes } ∧
      Represents nodes valloc.head valloc.tail [node] initial ∧
      ∀ other, other ≠ node → valloc.nodes other = none → nodes other = none := by
  obtain ⟨headCell, hheadCell⟩ := Option.isSome_iff_exists.mp hhead
  obtain ⟨tailCell, htailCell⟩ := Option.isSome_iff_exists.mp htail
  have hneHead : valloc.head ≠ node := by
    intro heq
    simp [heq, hfresh] at hheadCell
  have hneTail : valloc.tail ≠ node := by
    intro heq
    simp [heq, hfresh] at htailCell
  refine ⟨Function.update (Function.update (Function.update valloc.nodes node
      (some ⟨⟨true, 0, regionSize / pageSize⟩, valloc.tail, valloc.head⟩)) valloc.head
      (some ⟨{ headCell.value with isFree := false }, node, 0⟩)) valloc.tail
      (some ⟨{ tailCell.value with isFree := false }, 0, node⟩), ?_, ⟨?_, ?_, ?_⟩, ?_⟩
  · simp [vallocInit, writeNode, readNode, hheadCell, htailCell, hneHead, hneTail, hne.symm]
  · simp [Library.LinkedList.Joined, hneHead.symm, hneTail.symm, hne]
  · simp [hneHead, hneTail.symm, hne]
  · simp [hneHead.symm, hneTail.symm, initial]
  · intro other hother hnone
    have hotherHead : other ≠ valloc.head := by
      rintro rfl
      simp [hheadCell] at hnone
    have hotherTail : other ≠ valloc.tail := by
      rintro rfl
      simp [htailCell] at hnone
    simp [hother, hotherHead, hotherTail, hnone]

namespace Invariant

theorem init (hinit : system.init world) : ∃ places regions, Invariant world places regions := by
  obtain ⟨valloc, node, hhead, htail, hne, hfresh, hreturn, hlive⟩ := hinit
  obtain ⟨nodes, hinit, hrep, -⟩ := vallocInit_spec hhead htail hne hfresh
  have hvalloc := Except.ok.inj (hinit.symm.trans hreturn)
  refine ⟨[node], initial, by rw [← hvalloc]; exact hrep, initial_wellFormed, ?_⟩
  rw [hlive]
  exact List.Perm.refl _

/-- A range is granted exactly when it is page-aligned and vacant. -/
theorem granted_iff (hworld : Invariant world places regions) {vaddr size result : Nat}
    {new : List Region} (hpos : 0 < size) (hsize : size ≤ regionSize) (hvaddr : vaddr < 2 ^ 64)
    (hreserve : reserve regions vaddr size = .ok (result, new)) :
    Granted world.live vaddr (divUp size pageSize) result ↔
      pageSize ∣ vaddr ∧ Vacant regions vaddr (divUp size pageSize) := by
  obtain ⟨hpages, hbound⟩ := sizePages_bounds hpos hsize
  have hvacant := @WellFormed.vacant_iff regions vaddr hworld.wellFormed _ hpages
  constructor
  · rintro ⟨rfl, hzero⟩
    by_contra hrefused
    obtain ⟨rfl, rfl⟩ := Prod.mk.inj
      (reserve_refused hworld.wellFormed hpos hsize hvaddr hrefused hreserve)
    refine hrefused ⟨Nat.dvd_zero _, hvacant.mpr ⟨?_, ?_⟩⟩
    · unfold pageSize regionSize at *
      omega
    · intro range hrange
      exact hzero rfl range (hworld.live.mem_iff.mp hrange)
  · rintro ⟨haligned, hfree⟩
    obtain ⟨granted, hgranted, -, -⟩ :=
      reserve_granted hworld.wellFormed hpos hsize haligned hfree
    cases hgranted.symm.trans hreserve
    refine ⟨rfl, ?_⟩
    intro _ range hrange
    exact (hvacant.mp hfree).2 range (hworld.live.mem_iff.mpr hrange)

theorem step (hworld : Invariant world places regions) (hstep : Step world op next) :
    ∃ places regions, Invariant next places regions := by
  have hbound := hworld.wellFormed.length_lt
  cases hstep with
  | @alloc size newNode vaddr valloc hpos hsize hfresh hreturn =>
      have hrefines := vallocAlloc_refines hworld.represents hbound hfresh size
      rw [hreturn] at hrefines
      generalize halloc : alloc regions size = result at hrefines
      cases hrefines with
      | ok hrep =>
          obtain ⟨hwell, -, hperm⟩ := alloc_spec hworld.wellFormed hpos hsize halloc
          exact ⟨_, _, hrep, hwell, hperm.trans (hworld.live.cons _)⟩
  | @reserve vaddr size newBefore newAfter result valloc hpos hsize hvaddr hnewBefore hnewAfter
      hne hreturn =>
      have hrefines := vallocReserve_refines hworld.represents hbound hnewBefore hnewAfter hne vaddr
        size
      rw [hreturn] at hrefines
      generalize hreserve : reserve regions vaddr size = result at hrefines
      cases hrefines with
      | ok hrep =>
          have hgranted := hworld.granted_iff hpos hsize hvaddr hreserve
          split
          · next hyes =>
              obtain ⟨haligned, hvacant⟩ := hgranted.mp hyes
              obtain ⟨new, hnew, hwell, hperm⟩ :=
                reserve_granted hworld.wellFormed hpos hsize haligned hvacant
              cases hnew.symm.trans hreserve
              exact ⟨_, _, hrep, hwell, hperm.trans (hworld.live.cons _)⟩
          · next hno =>
              obtain ⟨rfl, rfl⟩ := Prod.mk.inj (reserve_refused hworld.wellFormed hpos hsize hvaddr
                (fun hyes => hno (hgranted.mpr hyes)) hreserve)
              exact ⟨_, _, hrep, hworld.wellFormed, hworld.live⟩
  | @release range found valloc hlive hreturn =>
      have hrefines := vallocRelease_refines hworld.represents hbound range.1
      obtain ⟨new, hrelease, hwell, hperm⟩ :=
        release_spec hworld.wellFormed (hworld.live.mem_iff.mpr hlive)
      rw [hreturn, hrelease] at hrefines
      cases hrefines with
      | ok hrep =>
          refine ⟨_, _, hrep, hwell, ?_⟩
          have := (hperm.symm.trans hworld.live).erase range
          simpa using this

theorem consistent (hworld : Invariant world places regions) :
    Consistent world places regions := by
  have hwell := hworld.wellFormed
  refine ⟨hworld.represents, hwell.tiles, fun _ hregion => hwell.aligned hregion, hwell.nonempty,
    hwell.coalesced, hworld.live, ?_, ?_, ?_⟩
  · exact (hworld.live.pairwise_iff Or.symm).mp hwell.reserved_pairwise
  · intro range hrange
    have hrefines := vallocRelease_refines hworld.represents hwell.length_lt range.1
    obtain ⟨new, hrelease, -⟩ := release_spec hwell (hworld.live.mem_iff.mpr hrange)
    rw [hrelease] at hrefines
    generalize vallocRelease walkBound world.valloc range.1 = result at hrefines ⊢
    cases hrefines with
    | ok hrep => exact ⟨_, rfl⟩
  · intro size newNode hfresh
    have hrefines := vallocAlloc_refines hworld.represents hwell.length_lt hfresh size
    generalize vallocAlloc walkBound world.valloc size newNode = result at hrefines ⊢
    generalize halloc : Valloc.alloc regions size = outcome at hrefines
    cases hrefines with
    | error fault =>
        obtain ⟨rfl, -⟩ := alloc_error halloc
        exact .inr rfl
    | ok hrep => exact .inl ⟨_, _, rfl⟩

end Invariant

theorem invariant_inductive :
    system.Inductive fun world => ∃ places regions, Invariant world places regions where
  init _ hinit := Invariant.init hinit
  step _ _ _ := by
    rintro ⟨places, regions, hworld⟩ hstep
    exact hworld.step hstep

theorem valloc_consistent {world : World} (hreach : system.Reachable world) :
    ∃ places regions, Consistent world places regions := by
  obtain ⟨places, regions, hworld⟩ := hreach.invariant invariant_inductive
  exact ⟨places, regions, hworld.consistent⟩

/-- One page taken from a `valloc_t` with its sentinels at 16 and 56. -/
theorem exists_reachable_alloc : ∃ (world : World) (places : List Nat), world.live = [(0, 1)] ∧
    system.Reachable world ∧ Represents world.valloc.nodes world.valloc.head world.valloc.tail
      places [⟨false, 0, 1⟩, ⟨true, 4096, 2 ^ 36 - 1⟩] := by
  obtain ⟨nodes, hinit, hrep, hfresh⟩ := @vallocInit_spec
    ⟨fun node => if node = 16 ∨ node = 56 then some ⟨⟨true, 0, 0⟩, 0, 0⟩ else none, 16, 56⟩ 96
    (by decide) (by decide) (by decide) (by decide)
  have hreach : system.Reachable ⟨⟨nodes, 16, 56⟩, []⟩ := .init
    ⟨_, 96, by decide, by decide, by decide, by decide, hinit, rfl⟩
  have hnew : nodes 136 = none := hfresh 136 (by decide) (by decide)
  have hrefines : Refines ⟨nodes, 16, 56⟩ (vallocAlloc walkBound ⟨nodes, 16, 56⟩ 4096 136)
      (alloc initial 4096) := vallocAlloc_refines hrep initial_wellFormed.length_lt hnew 4096
  have halloc : alloc initial 4096 =
      .ok (0, [⟨false, 0, 1⟩, ⟨true, 4096, 2 ^ 36 - 1⟩]) := by rfl
  rw [halloc] at hrefines
  generalize hreturn : vallocAlloc walkBound ⟨nodes, 16, 56⟩ 4096 136 = result at hrefines
  cases hrefines with
  | ok hplaces =>
      have hstep := @Step.alloc ⟨⟨nodes, 16, 56⟩, []⟩ 4096 136 0 _ (by decide) (by decide) hnew
        hreturn
      exact ⟨_, _, rfl, System.Reachable.step hreach hstep, hplaces⟩

theorem valloc_consistent_after_alloc : ∃ world : World, world.live = [(0, 1)] ∧
    system.Reachable world ∧ ∃ places regions, Consistent world places regions := by
  obtain ⟨world, _, hlive, hreach, _⟩ := exists_reachable_alloc
  exact ⟨world, hlive, hreach, valloc_consistent hreach⟩

end PKernel.Valloc
