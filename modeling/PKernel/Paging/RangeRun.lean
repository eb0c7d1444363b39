import PKernel.Paging.Ranges
import PKernel.Paging.ReferenceRun

/-! # The ranges of mappings in runs

In a run that requests addresses only where the virtual allocator can grant
them, the mappings of a context never overlap and each has its own region of
the address space. The functions that add mappings take a refused request,
which `valloc_reserve` reports as address 0, for a mapping at address 0.
-/

namespace PKernel.Pman

open Library.Transition
open Valloc (WellFormed Vacant Apart reserved)

/-- The context, the address and the number of pages of a call that asks for an
address. -/
def Op.request (state : State) : Op → Option (Nat × Nat × Nat)
  | .addAlloc context _ vaddr size =>
      if vaddr = 0 then none else some (context, vaddr, divUp size pageSize)
  | .addMap context protection vaddr _ size =>
      if vaddr = 0 && !protection.vreserve then none
      else some (context, vaddr, divUp size pageSize)
  | .addBorrowed context _ lender vaddr | .addShared context _ lender vaddr =>
      if vaddr = 0 then none
      else (state.mappings lender).map fun mapping => (context, vaddr, mapping.sizePages)
  | .newContext | .prepareWrite _ | .unmap _ => none

/-- The request is unaligned or overlaps a live mapping of the context. -/
def Clashes (world : World) (op : Op) : Prop :=
  ∃ context vaddr sizePages, op.request world.state = some (context, vaddr, sizePages) ∧
    (¬pageSize ∣ vaddr ∨ ∃ id mapping, world.state.mappings id = some mapping ∧
      mapping.context = context ∧ ¬Apart (vaddr, sizePages) mapping.range)

/-- The request is page-aligned and for a vacant range, and what is mapped from
a physical address has at least one page. -/
def Grantable (world : World) (op : Op) : Prop :=
  (∀ context vaddr sizePages, op.request world.state = some (context, vaddr, sizePages) →
    pageSize ∣ vaddr ∧ ∀ target, world.state.contexts context = some target →
      Vacant target.regions vaddr sizePages) ∧
  ∀ context protection vaddr paddr size, op = .addMap context protection vaddr paddr size →
    0 < divUp size pageSize

/-- What is to hold of the ranges of mappings between calls. -/
structure RangesConsistent (system : System World Op) (world : World) : Prop where
  apart : ∀ first second mapping other, first ≠ second →
    world.state.mappings first = some mapping → world.state.mappings second = some other →
    mapping.context = other.context → Apart mapping.range other.range
  node : ∀ id mapping, world.state.mappings id = some mapping →
    ∃ context, world.state.contexts mapping.context = some context ∧
      context.regions.count ⟨false, mapping.vaddr, mapping.sizePages⟩ = 1
  refused : ∀ op next, system.step world op next → Clashes world op → next = world

variable {palloc : State → Nat → Option (List Nat)} {world next : World} {op : Op}
  {windows : Nat → List (Nat × Nat)}

theorem grantable_loan {state : State} {created held : List Nat} {context lender vaddr : Nat}
    (hcounted : Counted state held) (hlaid : LaidOut windows state)
    (hgrantable : Grantable ⟨state, created⟩ op)
    (hrequest : ∀ source, vaddr ≠ 0 → state.mappings lender = some source →
      op.request state = some (context, vaddr, source.sizePages)) :
    ∀ target source, state.contexts context = some target → state.mappings lender = some source →
      Placeable target.regions vaddr source.sizePages false := by
  intro target source htarget hsource
  obtain ⟨home, hhome⟩ := Option.isSome_iff_exists.mp (hcounted.context lender source hsource)
  refine ⟨(hlaid.sizePages_bounds hsource hhome).1, ?_⟩
  by_cases hvaddr : vaddr = 0
  · exact .inl ⟨hvaddr, rfl⟩
  · obtain ⟨haligned, hvacant⟩ := hgrantable.1 context vaddr source.sizePages
      (hrequest source hvaddr hsource)
    exact .inr ⟨haligned, hvacant target htarget⟩

theorem grantable_addAlloc {state : State} {context vaddr size id : Nat} {protection : Protection}
    {created : List Nat} {after : State}
    (hgrantable : Grantable ⟨state, created⟩ (.addAlloc context protection vaddr size))
    (hreturn : addAlloc palloc state context protection vaddr size = .ok (id, after)) :
    ∀ target, state.contexts context = some target →
      Placeable target.regions vaddr (divUp size pageSize) false := by
  intro target htarget
  obtain ⟨_, _, _, _, _, hpages, _⟩ := addAlloc_eq_ok hreturn
  refine ⟨Nat.pos_of_ne_zero hpages, ?_⟩
  by_cases hvaddr : vaddr = 0
  · exact .inl ⟨hvaddr, rfl⟩
  · obtain ⟨haligned, hvacant⟩ := hgrantable.1 context vaddr (divUp size pageSize)
      (by simp [Op.request, hvaddr])
    exact .inr ⟨haligned, hvacant target htarget⟩

theorem grantable_addMap {context vaddr paddr size : Nat} {protection : Protection}
    (hgrantable : Grantable world (.addMap context protection vaddr paddr size)) :
    ∀ target, world.state.contexts context = some target →
      Placeable target.regions vaddr (divUp size pageSize) protection.vreserve := by
  intro target htarget
  refine ⟨hgrantable.2 _ _ _ _ _ rfl, ?_⟩
  by_cases hvaddr : vaddr = 0 ∧ protection.vreserve = false
  · exact .inl hvaddr
  · obtain ⟨haligned, hvacant⟩ := hgrantable.1 context vaddr (divUp size pageSize)
      (by simpa [Op.request] using hvaddr)
    exact .inr ⟨haligned, hvacant target htarget⟩

theorem step_laidOut (hworld : CountedWorld world) (hlaid : LaidOut windows world.state)
    (hgrantable : Grantable world op) (hstep : Step palloc world op next) :
    LaidOut windows next.state := by
  have hcounted := hworld.counted
  cases hstep with
  | newContext => exact newContext_laidOut hcounted hlaid
  | @addAlloc context vaddr size id protection next hsize hreturn =>
      exact addAlloc_laidOut hcounted hlaid hsize (grantable_addAlloc hgrantable hreturn) hreturn
  | @addMap context vaddr paddr size id protection next hsize hreturn =>
      exact addMap_laidOut hcounted hlaid hsize (grantable_addMap hgrantable) hreturn
  | @addBorrowed context lender vaddr id protection next hreturn =>
      refine addLoan_laidOut (fun _ => rfl) hcounted hlaid ?_ hreturn
      exact grantable_loan hcounted hlaid hgrantable (by simp +contextual [Op.request])
  | @addShared context lender vaddr id protection next hreturn =>
      refine addLoan_laidOut (fun _ => rfl) hcounted hlaid ?_ hreturn
      exact grantable_loan hcounted hlaid hgrantable (by simp +contextual [Op.request])
  | prepareWrite hreturn => exact prepareWrite_laidOut hcounted hlaid hreturn
  | unmapRoot hcreated hreturn => exact unmap_root_laidOut hcounted hlaid hcreated hreturn
  | unmapLoan hloan hreturn =>
      obtain ⟨mapping, hmapping, hlender⟩ := Option.bind_eq_some_iff.mp hloan
      exact (unmap_loan_laidOut hcounted hlaid hmapping hlender hreturn).1

/-- What was reserved before the first mapping stays reserved. -/
theorem Booted.laidOut {state : State} (hbooted : Booted state) :
    LaidOut (fun id => ((state.contexts id).map fun context =>
      reserved context.regions).getD []) state := by
  constructor
  case wellFormed => exact fun id context hcontext => (hbooted.contexts id context hcontext).1
  case nodup =>
    intro id context hcontext
    rw [(hbooted.contexts id context hcontext).2]
    exact List.nodup_nil
  case listed =>
    intro id context hcontext other
    simp [(hbooted.contexts id context hcontext).2, hbooted.mappings]
  case ranges =>
    intro id context hcontext
    simp [(hbooted.contexts id context hcontext).2, hcontext]
  case freshContext =>
    intro id hle
    simp [hbooted.fresh id hle]
  case loanSize =>
    intro id mapping lender root hmapping
    simp [hbooted.mappings] at hmapping

theorem laidOut_inductive : ((system palloc).restrict Grantable).Inductive fun world =>
    CountedWorld world ∧ ∃ windows, LaidOut windows world.state where
  init world hinit := ⟨(@system_inductive palloc).init world hinit, _, hinit.1.laidOut⟩
  step world op next := by
    rintro ⟨hworld, windows, hlaid⟩ ⟨hgrantable, hstep⟩
    exact ⟨step_countedWorld hworld hstep, windows,
      step_laidOut hworld hlaid hgrantable hstep⟩

/-- A request that can be granted does not clash. -/
theorem not_clashes_of_grantable (hworld : CountedWorld world)
    (hlaid : LaidOut windows world.state) (hgrantable : Grantable world op) :
    ¬Clashes world op := by
  rintro ⟨context, vaddr, sizePages, hrequest, hclash⟩
  obtain ⟨haligned, hvacant⟩ := hgrantable.1 context vaddr sizePages hrequest
  rcases hclash with hunaligned | ⟨id, mapping, hmapping, rfl, hoverlap⟩
  · exact hunaligned haligned
  · obtain ⟨target, htarget⟩ :=
      Option.isSome_iff_exists.mp (hworld.counted.context id mapping hmapping)
    exact hoverlap ((hlaid.wellFormed _ target htarget).apart_of_vacant (hvacant target htarget)
      (hlaid.mem_reserved hmapping htarget))

/-- In every state of every run whose requests can all be granted, the mappings
of a context lie apart from each other, each in a region of its own. -/
theorem ranges_consistent
    (hreach : ((system palloc).restrict Grantable).Reachable world) :
    RangesConsistent ((system palloc).restrict Grantable) world := by
  obtain ⟨hworld, windows, hlaid⟩ := hreach.invariant laidOut_inductive
  constructor
  case apart =>
    intro first second mapping other hne hmapping hother hcontext
    obtain ⟨target, htarget⟩ :=
      Option.isSome_iff_exists.mp (hworld.counted.context first mapping hmapping)
    exact hlaid.apart hne hmapping hother hcontext htarget
  case node =>
    intro id mapping hmapping
    obtain ⟨target, htarget⟩ :=
      Option.isSome_iff_exists.mp (hworld.counted.context id mapping hmapping)
    refine ⟨target, htarget, ?_⟩
    obtain ⟨⟨isFree, startAddr, sizePages⟩, hregion, hused, hrange⟩ :=
      Valloc.mem_reserved.mp (hlaid.mem_reserved hmapping htarget)
    cases hrange
    obtain rfl : isFree = false := hused
    exact List.count_eq_one_of_mem (hlaid.wellFormed _ target htarget).nodup hregion
  case refused =>
    intro op next hstep hclashes
    exact absurd hclashes (not_clashes_of_grantable hworld hlaid hstep.1)

/-- A page of the kernel, lent to a new context at an address of its choice. -/
theorem ranges_consistent_after_loan : ∃ world : World, world.state.nextMapping = 2 ∧
    ((system fun _ _ => some [0x5000]).restrict Grantable).Reachable world ∧
      RangesConsistent ((system fun _ _ => some [0x5000]).restrict Grantable) world := by
  have hcalls : ∃ allocated lent,
      addAlloc (fun _ _ => some [0x5000]) (newContext emptyState).2 0
        ⟨true, false, false, false⟩ 0 4096 = .ok (0, allocated) ∧
      addShared allocated 1 ⟨true, false, false, false⟩ 0 0x8000 = .ok (1, lent) ∧
      lent.nextMapping = 2 ∧
      (Op.addShared 1 ⟨true, false, false, false⟩ 0 0x8000).request allocated =
        some (1, 0x8000, 1) ∧
      allocated.contexts 1 = some ⟨Valloc.initial, fun _ => none, []⟩ :=
    ⟨_, _, rfl, rfl, rfl, rfl, rfl⟩
  obtain ⟨allocated, lent, hallocated, hlent, hnext, hrequest, hcontext⟩ := hcalls
  have hinit : ((system fun _ _ => some [0x5000]).restrict Grantable).Reachable
      ⟨emptyState, []⟩ := .init ⟨emptyState_booted, rfl⟩
  have hstep : ∀ {world next : World} {op : Op},
      ((system fun _ _ => some [0x5000]).restrict Grantable).Reachable world →
      Step (fun _ _ => some [0x5000]) world op next → Grantable world op →
      ((system fun _ _ => some [0x5000]).restrict Grantable).Reachable next :=
    fun hreach hstep hgrantable => hreach.step ⟨hgrantable, hstep⟩
  have hcreate := hstep hinit .newContext ⟨by simp [Op.request], by simp⟩
  have halloc := hstep hcreate (.addAlloc (by decide) hallocated) ⟨by simp [Op.request], by simp⟩
  have hreach := hstep halloc (.addShared hlent) (by
    refine ⟨?_, by simp⟩
    intro context vaddr sizePages hasked
    obtain ⟨rfl, rfl, rfl⟩ : 1 = context ∧ 0x8000 = vaddr ∧ 1 = sizePages := by
      simpa using hrequest.symm.trans hasked
    refine ⟨by decide, ?_⟩
    intro target htarget
    cases hcontext.symm.trans htarget
    exact ⟨_, List.mem_cons_self, rfl, by decide, by decide⟩)
  exact ⟨_, hnext, hreach, ranges_consistent hreach⟩

/-- A request at the unaligned address 0x1001 is refused, and makes a mapping of
page 0 that is not in use in the address space of the context. -/
theorem mapping_unreserved : ∃ world : World,
    (system fun _ _ => some [0x5000]).Reachable world ∧
      world.state.mappings 1 = some ⟨1, ⟨true, false, false, false⟩, 0, 1, .shared 0⟩ ∧
      (world.state.contexts 1).map Context.regions = some Valloc.initial ∧
      ¬RangesConsistent (system fun _ _ => some [0x5000]) world := by
  have hcalls : ∃ allocated lent,
      addAlloc (fun _ _ => some [0x5000]) (newContext emptyState).2 0
        ⟨true, false, false, false⟩ 0 4096 = .ok (0, allocated) ∧
      addShared allocated 1 ⟨true, false, false, false⟩ 0 0x1001 = .ok (1, lent) ∧
      lent.mappings 1 = some ⟨1, ⟨true, false, false, false⟩, 0, 1, .shared 0⟩ ∧
      (lent.contexts 1).map Context.regions = some Valloc.initial :=
    ⟨_, _, rfl, rfl, rfl, rfl⟩
  obtain ⟨allocated, lent, hallocated, hlent, hmapping, hregions⟩ := hcalls
  have hinit : (system fun _ _ => some [0x5000]).Reachable ⟨emptyState, []⟩ :=
    .init ⟨emptyState_booted, rfl⟩
  have hreach : (system fun _ _ => some [0x5000]).Reachable ⟨lent, [0]⟩ :=
    ((hinit.step .newContext).step (.addAlloc (by decide) hallocated)).step (.addShared hlent)
  refine ⟨⟨lent, [0]⟩, hreach, hmapping, hregions, fun hconsistent => ?_⟩
  obtain ⟨context, hcontext, hcount⟩ := hconsistent.node 1 _ hmapping
  have hinitial : context.regions = Valloc.initial :=
    Option.some.inj ((congrArg (Option.map Context.regions) hcontext).symm.trans hregions)
  rw [hinitial] at hcount
  exact absurd hcount (by decide)

end PKernel.Pman
