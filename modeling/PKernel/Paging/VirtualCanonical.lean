import PKernel.Paging.VirtualRun

/-! # The node list depends only on the live ranges

Free nodes are maximal gaps between the ranges in use, so these determine the
list. Releasing a range that was just handed out brings back the list from
before, and the order of releases does not matter. A release of an address at
which no live range starts changes nothing.
-/

namespace PKernel.Valloc

open Library.LinkedList Library.Tiling Library.Transition

variable {regions left right : List Region} {world : World}

/-- The node list between the sentinels holds these regions. -/
def Spells (valloc : Valloc) (regions : List Region) : Prop :=
  ∃ places, Represents valloc.nodes valloc.head valloc.tail places regions

/-- `valloc_release` of one address after the other. -/
def releaseAll : Valloc → List Nat → Except Fault Valloc
  | valloc, [] => .ok valloc
  | valloc, vaddr :: rest => do
      let (_, valloc) ← vallocRelease walkBound valloc vaddr
      releaseAll valloc rest

/-! ## Regions are determined by the ranges in use -/

theorem markedIn_of_reserved
    (hsame : ∀ range ∈ reserved left, range ∈ reserved right) :
    MarkedIn Region.startAddr Region.bytes (fun region => !region.isFree) left right := by
  intro region hregion hused
  obtain ⟨twin, htwin, htwinUsed, hrange⟩ := mem_reserved.mp
    (hsame _ (mem_reserved.mpr ⟨region, hregion, by simpa using hused, rfl⟩))
  obtain ⟨hstart, hsize⟩ := Prod.mk.inj hrange
  exact ⟨twin, htwin, by simpa using htwinUsed, hstart.symm, by rw [Region.bytes, ← hsize]; rfl⟩

theorem WellFormed.coalesced_used (hwell : WellFormed regions) :
    Coalesced (fun region : Region => !region.isFree) regions := by
  refine hwell.coalesced.imp fun earlier later hapart => ?_
  cases hfree : earlier.isFree <;> simp_all

theorem WellFormed.eq_of_reserved (hleft : WellFormed left) (hright : WellFormed right)
    (hsame : ∀ range, range ∈ reserved left ↔ range ∈ reserved right) : left = right := by
  have hpos : ∀ {regions : List Region}, WellFormed regions → ∀ region ∈ regions,
      0 < region.bytes := by
    intro regions hwell region hregion
    exact Nat.mul_pos (by decide) (hwell.nonempty region hregion)
  have hmap := hleft.tiles.map_eq_of_marked hright.tiles (hpos hleft) (hpos hright)
    hleft.coalesced_used hright.coalesced_used (markedIn_of_reserved fun range => (hsame range).mp)
    (markedIn_of_reserved fun range => (hsame range).mpr)
  refine List.map_injective_iff.mpr ?_ hmap
  rintro ⟨isFree, startAddr, sizePages⟩ ⟨isFree', startAddr', sizePages'⟩ heq
  simp only [Region.bytes, Prod.mk.injEq] at heq
  obtain ⟨rfl, hbytes, hused⟩ := heq
  obtain rfl := Bool.not_inj hused
  rw [Nat.eq_of_mul_eq_mul_left (by decide) hbytes]

/-- Where no region in use starts, `valloc_release` finds nothing or a free node
that it leaves as it is. -/
theorem WellFormed.release_stray (hwell : WellFormed regions) {vaddr : Nat}
    (hstray : ∀ range ∈ reserved regions, range.1 ≠ vaddr) :
    (Valloc.release regions vaddr).2 = regions := by
  unfold Valloc.release
  split
  · rfl
  next before node after hsplit =>
    obtain ⟨rfl, hstart, _⟩ := splitFirst_eq_some.mp hsplit
    have hfree : node.isFree = true := by
      by_contra hused
      refine hstray _ (mem_reserved.mpr ⟨node, by simp, by simpa using hused, rfl⟩) ?_
      simpa using hstart
    obtain ⟨hbefore, hafter⟩ := hwell.neighbours_of_free hfree
    have hnext : joinNext node after = (node, after) := by
      cases after with
      | nil => rfl
      | cons next after => simp [joinNext, hafter next rfl]
    have hprev : joinPrev before node = (before, node) := by
      unfold joinPrev
      split
      · rfl
      next prev hlast => simp [hbefore prev hlast]
    obtain ⟨isFree, startAddr, sizePages⟩ := node
    obtain rfl : isFree = true := hfree
    simp [hnext, hprev]

/-! ## All calls -/

/-- The calls of the clients, and releases of other addresses. -/
inductive Call (world : World) : Op → World → Prop
  | step {op : Op} {next : World} (hstep : Step world op next) : Call world op next
  | stray {vaddr : Nat} {found : Bool} {valloc : Valloc}
      (hstray : ∀ range ∈ world.live, range.1 ≠ vaddr)
      (hreturn : vallocRelease walkBound world.valloc vaddr = .ok (found, valloc)) :
      Call world (.release vaddr) ⟨valloc, world.live⟩

def calls : System World Op := { system with step := Call }

namespace Invariant

theorem call {places : List Nat} {op : Op} {next : World}
    (hworld : Invariant world places regions) (hcall : Call world op next) :
    ∃ places regions, Invariant next places regions := by
  cases hcall with
  | step hstep => exact hworld.step hstep
  | @stray vaddr found valloc hstray hreturn =>
      have hrefines := vallocRelease_refines hworld.represents hworld.wellFormed.length_lt vaddr
      have hsame := @WellFormed.release_stray _ hworld.wellFormed vaddr
        fun range hrange => hstray range (hworld.live.mem_iff.mp hrange)
      generalize Valloc.release regions vaddr = result at hrefines hsame
      rw [hreturn] at hrefines
      cases hrefines with
      | ok hrep =>
          simp only at hsame
          subst hsame
          exact ⟨_, _, hrep, hworld.wellFormed, hworld.live⟩

end Invariant

theorem calls_inductive :
    calls.Inductive fun world => ∃ places regions, Invariant world places regions where
  init _ hinit := Invariant.init hinit
  step _ _ _ := by
    rintro ⟨places, regions, hworld⟩ hcall
    exact hworld.call hcall

theorem calls_of_system (hreach : system.Reachable world) : calls.Reachable world := by
  induction hreach with
  | init hinit => exact .init hinit
  | step _ hstep ih => exact .step ih (.step hstep)

/-! ## Releases -/

namespace Invariant

variable {places others : List Nat} {next : World}

theorem spells (hworld : Invariant world places regions) : Spells world.valloc regions :=
  ⟨places, hworld.represents⟩

theorem eq_of_spells (hworld : Invariant world places left)
    (hspells : Spells world.valloc right) : left = right := by
  obtain ⟨others, hrep⟩ := hspells
  exact hworld.represents.unique hrep

/-- Equal live ranges, equal lists. -/
theorem eq_of_live (hworld : Invariant world places left) (hnext : Invariant next others right)
    (hlive : next.live.Perm world.live) : left = right := by
  refine hworld.wellFormed.eq_of_reserved hnext.wellFormed fun range => ?_
  rw [hworld.live.mem_iff, hnext.live.mem_iff, hlive.mem_iff]

/-- A live range can be released, and the run goes on from there. -/
theorem release (hworld : Invariant world places regions) {range : Nat × Nat}
    (hrange : range ∈ world.live) :
    ∃ after places left, vallocRelease walkBound world.valloc range.1 = .ok (true, after) ∧
      Invariant ⟨after, world.live.erase range⟩ places left := by
  obtain ⟨after, hrelease⟩ := hworld.consistent.release range hrange
  obtain ⟨places, left, hafter⟩ := hworld.step (.release hrange hrelease)
  exact ⟨after, places, left, hrelease, hafter⟩

/-- Releasing the range that was handed out last brings back the list. -/
theorem undo (hworld : Invariant world places left) (hnext : Invariant next others right)
    {range : Nat × Nat} (hlive : next.live = range :: world.live) :
    ∃ after, vallocRelease walkBound next.valloc range.1 = .ok (true, after) ∧
      Spells after left := by
  have hrange : range ∈ next.live := by
    rw [hlive]
    exact List.mem_cons_self
  obtain ⟨after, places, last, hrelease, hafter⟩ := hnext.release hrange
  have hback : next.live.erase range = world.live := by
    rw [hlive, List.erase_cons_head]
  obtain rfl := hworld.eq_of_live hafter (List.Perm.of_eq hback)
  exact ⟨after, hrelease, hafter.spells⟩

theorem releaseAll_spec {ranges : List (Nat × Nat)} (hworld : Invariant world places regions)
    (hranges : ∀ range ∈ ranges, range ∈ world.live) (hnodup : ranges.Nodup) :
    ∃ after places left, releaseAll world.valloc (ranges.map Prod.fst) = .ok after ∧
      Invariant ⟨after, world.live.diff ranges⟩ places left := by
  induction ranges generalizing world places regions with
  | nil => exact ⟨_, _, _, rfl, hworld⟩
  | cons range ranges ih =>
      obtain ⟨hnotMem, hnodup⟩ := List.nodup_cons.mp hnodup
      obtain ⟨after, places, left, hrelease, hafter⟩ :=
        hworld.release (hranges range List.mem_cons_self)
      have hrest : ∀ other ∈ ranges, other ∈ world.live.erase range := by
        intro other hother
        have hne : other ≠ range := by
          rintro rfl
          exact hnotMem hother
        exact (List.mem_erase_of_ne hne).mpr (hranges other (List.mem_cons_of_mem _ hother))
      obtain ⟨last, places, left, hall, hlast⟩ := ih hafter hrest hnodup
      refine ⟨last, places, left, ?_, ?_⟩
      · rw [List.map_cons, releaseAll, hrelease]
        exact hall
      · rwa [List.diff_cons]

end Invariant

/-- What releases do to the node list `regions` of a state. -/
structure Reversible (world : World) (regions : List Region) : Prop where
  alloc : ∀ size newNode vaddr valloc, 0 < size → size ≤ regionSize →
    world.valloc.nodes newNode = none →
    vallocAlloc walkBound world.valloc size newNode = .ok (vaddr, valloc) →
    ∃ after, vallocRelease walkBound valloc vaddr = .ok (true, after) ∧ Spells after regions
  reserve : ∀ vaddr size newBefore newAfter result valloc, 0 < size → size ≤ regionSize →
    vaddr < 2 ^ 64 → world.valloc.nodes newBefore = none → world.valloc.nodes newAfter = none →
    newBefore ≠ newAfter →
    vallocReserve walkBound world.valloc vaddr size newBefore newAfter = .ok (result, valloc) →
    Granted world.live vaddr (divUp size pageSize) result →
    ∃ after, vallocRelease walkBound valloc result = .ok (true, after) ∧ Spells after regions
  /-- Two orders of the same live ranges. -/
  order : ∀ first second : List (Nat × Nat), first.Perm second → first.Nodup →
    (∀ range ∈ first, range ∈ world.live) →
    ∃ left right last, releaseAll world.valloc (first.map Prod.fst) = .ok left ∧
      releaseAll world.valloc (second.map Prod.fst) = .ok right ∧
      Spells left last ∧ Spells right last ∧ (reserved last).Perm (world.live.diff first)

theorem valloc_release_inverse {world : World} {regions : List Region}
    (hreach : calls.Reachable world) (hspells : Spells world.valloc regions) :
    Reversible world regions := by
  obtain ⟨places, spelled, hworld⟩ := hreach.invariant calls_inductive
  obtain rfl := hworld.eq_of_spells hspells
  refine ⟨?_, ?_, ?_⟩
  · intro size newNode vaddr valloc hpos hsize hfresh hreturn
    obtain ⟨others, next, hnext⟩ := hworld.step (.alloc hpos hsize hfresh hreturn)
    exact hworld.undo hnext rfl
  · intro vaddr size newBefore newAfter result valloc hpos hsize hvaddr hnewBefore hnewAfter hne
      hreturn hgranted
    obtain ⟨others, next, hnext⟩ := hworld.step
      (.reserve hpos hsize hvaddr hnewBefore hnewAfter hne hreturn)
    rw [if_pos hgranted] at hnext
    rw [hgranted.1]
    exact hworld.undo hnext rfl
  · intro first second hperm hnodup hranges
    obtain ⟨left, places, last, hleft, hlast⟩ := hworld.releaseAll_spec hranges hnodup
    obtain ⟨right, others, twin, hright, htwin⟩ := hworld.releaseAll_spec
      (fun range hrange => hranges range (hperm.mem_iff.mpr hrange)) (hperm.nodup_iff.mp hnodup)
    have hsame : world.live.diff first = world.live.diff second := hperm.diff_left _
    obtain rfl := hlast.eq_of_live htwin (List.Perm.of_eq hsame.symm)
    exact ⟨left, right, last, hleft, hright, hlast.spells, htwin.spells, hlast.live⟩

theorem valloc_release_inverse_after_alloc : ∃ world : World, world.live = [(0, 1)] ∧
    calls.Reachable world ∧ Reversible world [⟨false, 0, 1⟩, ⟨true, 4096, 2 ^ 36 - 1⟩] := by
  obtain ⟨world, places, hlive, hreach, hrep⟩ := exists_reachable_alloc
  have hcalls := calls_of_system hreach
  exact ⟨world, hlive, hcalls, valloc_release_inverse hcalls ⟨places, hrep⟩⟩

end PKernel.Valloc
