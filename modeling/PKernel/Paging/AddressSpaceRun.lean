import PKernel.Library.Transition
import PKernel.Paging.AddressSpaces

/-! # What a context leaves behind

`paging_talloc_free` takes a table out of the translation map and nothing else: its
slot stays present and its page reserved. No call of the manager gives a slot back,
so a context that is made and freed leaves at least one more slot occupied, whatever
was mapped and unmapped in between.
-/

namespace PKernel.AddressSpaces

open Bitmap Talloc Library.Transition
open PageTables (Flags PagingMapping)
open Pman (Kind Mapping Protection)

/-! ## Slots -/

section Slots

variable {area : Area} {world created next : World} {context vaddr size paddr id lender : Nat}
  {protection : Protection} {mapping : Mapping}

/-- No slot of the table allocator is given back. -/
def Keeps (world next : World) : Prop := Grows world.allocator next.allocator

theorem Keeps.refl (world : World) : Keeps world world := Grows.refl _

theorem Keeps.trans (hfirst : Keeps world created) (hsecond : Keeps created next) :
    Keeps world next :=
  Grows.trans hfirst hsecond

theorem advance_grows {count : Nat} {allocator after : Allocator}
    (hcall : advance area count allocator = .ok after) : Grows allocator after := by
  induction count generalizing after with
  | zero =>
      simp only [advance, pure_eq_ok] at hcall
      cases hcall
      exact Grows.refl allocator
  | succ count ih =>
      obtain ⟨middle, hmiddle, hcall⟩ := bind_eq_ok.mp hcall
      obtain ⟨⟨allocation, last⟩, hlast, hcall⟩ := bind_eq_ok.mp hcall
      cases hcall
      exact (ih hmiddle).trans (tallocAlloc_spec hlast).1

theorem mapEx_keeps {sizePages : Nat} {flags : Flags} {paging : PagingMapping}
    (hcall : mapEx area world context paddr vaddr sizePages flags = .ok (paging, next)) :
    Keeps world next := by
  obtain ⟨top, _, hcall⟩ := bind_eq_ok.mp hcall
  obtain ⟨⟨_, mapping, tables⟩, _, hcall⟩ := bind_eq_ok.mp hcall
  obtain ⟨allocator, hadvance, hcall⟩ := bind_eq_ok.mp hcall
  cases hcall
  exact advance_grows hadvance

theorem mapEach_keeps {flags : Flags} {paddrs : List Nat} {paging : List PagingMapping}
    (hcall : mapEach area context flags world vaddr paddrs = .ok (paging, next)) :
    Keeps world next := by
  induction paddrs generalizing world vaddr paging with
  | nil =>
      simp only [mapEach, pure_eq_ok, Except.ok.injEq, Prod.mk.injEq] at hcall
      exact hcall.2 ▸ Keeps.refl world
  | cons paddr paddrs ih =>
      obtain ⟨⟨mapping, mapped⟩, hmap, hcall⟩ := bind_eq_ok.mp hcall
      obtain ⟨⟨rest, final⟩, hrest, hcall⟩ := bind_eq_ok.mp hcall
      cases hcall
      exact (mapEx_keeps hmap).trans (ih hrest)

theorem mapRoot_keeps {flags : Flags} {root : Mapping} {paging : List PagingMapping}
    (hcall : mapRoot area world context flags vaddr root = .ok (paging, next)) :
    Keeps world next := by
  unfold mapRoot at hcall
  split at hcall
  next => exact mapEach_keeps hcall
  next =>
    obtain ⟨⟨mapping, mapped⟩, hmap, hcall⟩ := bind_eq_ok.mp hcall
    cases hcall
    exact mapEx_keeps hmap
  all_goals
    cases hcall
    exact Keeps.refl world

theorem mapFor_keeps {write : Bool} {root : Mapping} {new : Nat}
    (hcall : mapFor area world id write root = .ok (new, next)) : Keeps world next := by
  obtain ⟨mapping, _, hcall⟩ := bind_eq_ok.mp hcall
  obtain ⟨⟨paging, mapped⟩, hmap, hcall⟩ := bind_eq_ok.mp hcall
  cases hcall
  have hkeeps : Keeps world mapped := mapRoot_keeps hmap
  exact hkeeps

theorem addAlloc_keeps (hcall : addAlloc area world context protection vaddr size = .ok (id, next)) :
    Keeps world next := by
  obtain ⟨⟨palloc, words⟩, _, hcall⟩ := bind_eq_ok.mp hcall
  obtain ⟨⟨new, state⟩, _, hcall⟩ := bind_eq_ok.mp hcall
  obtain ⟨root, _, hcall⟩ := bind_eq_ok.mp hcall
  have hmapped := mapFor_keeps hcall
  exact Grows.trans (Grows.of_pts rfl) hmapped

theorem addMap_keeps
    (hcall : addMap area world context protection vaddr paddr size = .ok (id, next)) :
    Keeps world next := by
  obtain ⟨⟨new, state⟩, _, hcall⟩ := bind_eq_ok.mp hcall
  obtain ⟨root, _, hcall⟩ := bind_eq_ok.mp hcall
  have hmapped := mapFor_keeps hcall
  exact Grows.trans (Grows.of_pts rfl) hmapped

theorem addLoan_keeps {kind : Nat → Kind} {write : Bool}
    (hcall : addLoan area kind write world context protection lender vaddr = .ok (id, next)) :
    Keeps world next := by
  obtain ⟨root, _, hcall⟩ := bind_eq_ok.mp hcall
  obtain ⟨⟨new, state⟩, _, hcall⟩ := bind_eq_ok.mp hcall
  obtain ⟨rootMapping, _, hcall⟩ := bind_eq_ok.mp hcall
  have hmapped := mapFor_keeps hcall
  exact hmapped

theorem dropReference_keeps (hcall : dropReference world id mapping = .ok next) :
    Keeps world next := by
  obtain ⟨state, _, hcall⟩ := bind_eq_ok.mp hcall
  split at hcall
  next =>
    obtain ⟨unmapped, hunmapped, hcall⟩ := bind_eq_ok.mp hcall
    obtain ⟨palloc, _, hcall⟩ := bind_eq_ok.mp hcall
    cases hcall
    obtain ⟨tables, rfl⟩ := unmapPages_eq_ok hunmapped
    exact Grows.of_pts rfl
  next =>
    cases hcall
    exact Keeps.refl world

theorem unmapWith_keeps {fuel : Nat} (hcall : unmapWith fuel world id = .ok next) :
    Keeps world next := by
  induction fuel generalizing world id next with
  | zero => simp [unmapWith] at hcall
  | succ fuel ih =>
      obtain ⟨mapping, _, hcall⟩ := bind_eq_ok.mp hcall
      split at hcall
      next => exact dropReference_keeps hcall
      next lender _ =>
        obtain ⟨unlinked, _, hcall⟩ := bind_eq_ok.mp hcall
        obtain ⟨dropped, hdropped, hcall⟩ := bind_eq_ok.mp hcall
        obtain ⟨discarded, _, hcall⟩ := bind_eq_ok.mp hcall
        obtain ⟨tables, rfl⟩ := unmapPages_eq_ok hcall
        have hkeeps := ih hdropped
        exact hkeeps

theorem unmapAll_keeps {fuel : Nat} (hcall : unmapAll context fuel world = .ok next) :
    Keeps world next := by
  induction fuel generalizing world with
  | zero => simp [unmapAll] at hcall
  | succ fuel ih =>
      obtain ⟨target, _, hcall⟩ := bind_eq_ok.mp hcall
      split at hcall
      next =>
        simp only [pure_eq_ok, Except.ok.injEq] at hcall
        exact hcall ▸ Keeps.refl world
      next =>
        obtain ⟨unmapped, hunmapped, hcall⟩ := bind_eq_ok.mp hcall
        exact (unmapWith_keeps hunmapped).trans (ih hcall)

/-- `paging_talloc_free` is no exception. -/
theorem freeContext_keeps (hcall : freeContext world context = .ok next) : Keeps world next := by
  obtain ⟨unmapped, hunmapped, hcall⟩ := bind_eq_ok.mp hcall
  obtain ⟨allocation, _, hcall⟩ := bind_eq_ok.mp hcall
  simp only [pure_eq_ok, Except.ok.injEq] at hcall
  have hfreed : Grows unmapped.allocator next.allocator := hcall ▸ Grows.of_pts rfl
  exact (unmapAll_keeps hunmapped).trans hfreed

/-- A new context takes a slot that was free. -/
theorem newContext_takes (hcall : newContext area world = .ok (context, next)) :
    Keeps world next ∧ ∃ pt i, world.allocator.present pt i = false ∧
      next.allocator.present pt i = true := by
  obtain ⟨⟨allocation, allocator⟩, htake, hcall⟩ := bind_eq_ok.mp hcall
  cases hcall
  obtain ⟨hgrows, pt, i, hfree, htaken, _⟩ := tallocAlloc_spec htake
  exact ⟨hgrows, pt, i, hfree, htaken⟩

end Slots

/-! ## Runs -/

/-- The calls that change address spaces. -/
inductive Op where
  | newContext
  | freeContext (context : Nat)
  | addAlloc (context : Nat) (protection : Protection) (vaddr size : Nat)
  | addMap (context : Nat) (protection : Protection) (vaddr paddr size : Nat)
  | addBorrowed (context : Nat) (protection : Protection) (lender vaddr : Nat)
  | addShared (context : Nat) (protection : Protection) (lender vaddr : Nat)
  | unmap (id : Nat)

def Op.perform (area : Area) (world : World) : Op → Except Fault World
  | newContext => do return (← AddressSpaces.newContext area world).2
  | freeContext context => AddressSpaces.freeContext world context
  | addAlloc context protection vaddr size => do
      return (← AddressSpaces.addAlloc area world context protection vaddr size).2
  | addMap context protection vaddr paddr size => do
      return (← AddressSpaces.addMap area world context protection vaddr paddr size).2
  | addBorrowed context protection lender vaddr => do
      return (← AddressSpaces.addBorrowed area world context protection lender vaddr).2
  | addShared context protection lender vaddr => do
      return (← AddressSpaces.addShared area world context protection lender vaddr).2
  | unmap id => AddressSpaces.unmap world id

/-- Runs from any state. -/
def managerSystem (area : Area) : System World Op where
  init _ := True
  step world op next := op.perform area world = .ok next

/-- The reserved pages and the occupied slots are what they were. -/
structure Restored (area : Area) (before after : World) : Prop where
  pages : ∀ i < area.availablePages,
    getIndex after.allocator.words i = getIndex before.allocator.words i
  slots : ∀ pt i, after.allocator.present pt i = before.allocator.present pt i

section Runs

variable {area : Area} {world created used freed next : World} {context : Nat} {op : Op}

theorem perform_keeps (hcall : op.perform area world = .ok next) : Keeps world next := by
  cases op with
  | newContext =>
      obtain ⟨⟨context, made⟩, hmade, hcall⟩ := bind_eq_ok.mp hcall
      exact Except.ok.inj hcall ▸ (newContext_takes hmade).1
  | freeContext context => exact freeContext_keeps hcall
  | addAlloc context protection vaddr size =>
      obtain ⟨⟨id, made⟩, hmade, hcall⟩ := bind_eq_ok.mp hcall
      exact Except.ok.inj hcall ▸ addAlloc_keeps hmade
  | addMap context protection vaddr paddr size =>
      obtain ⟨⟨id, made⟩, hmade, hcall⟩ := bind_eq_ok.mp hcall
      exact Except.ok.inj hcall ▸ addMap_keeps hmade
  | addBorrowed context protection lender vaddr =>
      obtain ⟨⟨id, made⟩, hmade, hcall⟩ := bind_eq_ok.mp hcall
      exact Except.ok.inj hcall ▸ addLoan_keeps hmade
  | addShared context protection lender vaddr =>
      obtain ⟨⟨id, made⟩, hmade, hcall⟩ := bind_eq_ok.mp hcall
      exact Except.ok.inj hcall ▸ addLoan_keeps hmade
  | unmap id => exact unmapWith_keeps hcall

theorem keeps_of_reachable (hrun : ((managerSystem area).startAt world).Reachable next) :
    Keeps world next := by
  induction hrun with
  | init hinit => exact hinit ▸ Keeps.refl world
  | step _ hstep ih => exact ih.trans (perform_keeps hstep)

/-- A context that is made and freed is never without trace. -/
theorem newContext_never_restored (hnew : newContext area world = .ok (context, created))
    (hrun : ((managerSystem area).startAt created).Reachable used)
    (hfree : freeContext used context = .ok freed) : ¬ Restored area world freed := by
  intro hrestored
  obtain ⟨_, pt, i, hbefore, htaken⟩ := newContext_takes hnew
  have hkeeps := (keeps_of_reachable hrun).trans (freeContext_keeps hfree)
  have hafter : freed.allocator.present pt i = true := hkeeps pt i htaken
  rw [hrestored.slots, hbefore] at hafter
  exact Bool.false_ne_true hafter

end Runs

/-! ## One context -/

/-- A page region of 1024 pages. -/
def smallArea : Area := ⟨0x100000, 1024, by decide, by decide, by decide⟩

/-- After the start of the kernel: 320 pages are reserved, one page table of the table
allocator is there, and its first slot has the kernel's table. -/
def booted : World where
  state :=
    { contexts := Function.update (fun _ => none) Pman.kernelContext
        (some ⟨Valloc.initial, fun _ => none, []⟩)
      mappings := fun _ => none
      nextContext := 1
      nextMapping := 0
      memory := fun _ => 0
      roots := []
      released := [] }
  tables := ⟨fun _ _ => .zero, fun _ => 0, fun _ => none, [⟨0x23f000, slotAddress 0 1⟩]⟩
  allocator :=
    { words := fun i => if i < 5 then BitVec.allOnes 64 else 0
      pts := [fun i => i == 0 || i == 1]
      tmap := ⟨fun _ => [[]], 256⟩ }
  topLevel := Function.update (fun _ => none) Pman.kernelContext
    (some ⟨0x23f000, slotAddress 0 1⟩)
  pallocs _ := none
  paging _ := []

/-- The first free page. -/
theorem bitmapReserve_booted : bitmapReserve smallArea booted.allocator.words =
    (0x240000, setIndex booted.allocator.words 320) := by
  have hfirst : ((List.range smallArea.availablePages).find? fun i =>
      !getIndex booted.allocator.words i) = some 320 := by
    rw [List.find?_range_eq_some]
    refine ⟨by decide, List.mem_range.mpr (by decide), ?_⟩
    intro i hi
    have hwords : booted.allocator.words (i / 64) = BitVec.allOnes 64 :=
      if_pos (show i / 64 < 5 by omega)
    have hbit : i % 64 < 64 := Nat.mod_lt _ (by decide)
    rw [getIndex_eq, hwords, BitVec.getLsbD_allOnes, decide_eq_true hbit]
    rfl
  rw [bitmapReserve, hfirst]
  rfl

/-- A context made and freed right after the start takes the second slot and the first
free page. -/
theorem newContext_booted : ∃ created freed, newContext smallArea booted = .ok (1, created) ∧
    freeContext created 1 = .ok freed ∧ freed.allocator.present 0 2 = true ∧
      getIndex freed.allocator.words 320 = true := by
  have htake : takeSlot smallArea booted.allocator 0 2 = .ok (⟨0x240000, slotAddress 0 2⟩,
      ⟨setIndex booted.allocator.words 320,
        booted.allocator.pts.modify 0 fun bits => Function.update bits 2 true,
        ⟨Function.update booted.allocator.tmap.buckets (tmapHash 0x240000) [[0x240000]], 256⟩⟩) := by
    simp only [takeSlot, bitmapReserve_booted]
    rfl
  have hslot : booted.allocator.freeSlot = some (0, 2) := by rfl
  simp only [newContext, tallocAlloc, hslot, htake, ok_bind]
  exact ⟨_, _, rfl, rfl, rfl, rfl⟩

/-- Nothing mapped in between. -/
theorem newContext_never_restored_unused : ∃ created freed,
    newContext smallArea booted = .ok (1, created) ∧ freeContext created 1 = .ok freed ∧
      ¬ Restored smallArea booted freed := by
  obtain ⟨created, freed, hnew, hfree, _⟩ := newContext_booted
  exact ⟨created, freed, hnew, hfree, newContext_never_restored hnew (.init rfl) hfree⟩

/-- The second slot, and the page behind it, stay taken. -/
theorem newContext_leaves_slot : ∃ created freed,
    newContext smallArea booted = .ok (1, created) ∧ freeContext created 1 = .ok freed ∧
      booted.allocator.present 0 2 = false ∧ freed.allocator.present 0 2 = true ∧
      getIndex booted.allocator.words 320 = false ∧ getIndex freed.allocator.words 320 = true ∧
      ¬ Restored smallArea booted freed := by
  obtain ⟨created, freed, hnew, hfree, hafter, hset⟩ := newContext_booted
  have hbefore : booted.allocator.present 0 2 = false := rfl
  refine ⟨created, freed, hnew, hfree, hbefore, hafter, rfl, hset, ?_⟩
  intro hrestored
  rw [hrestored.slots, hbefore] at hafter
  exact Bool.false_ne_true hafter

end PKernel.AddressSpaces
