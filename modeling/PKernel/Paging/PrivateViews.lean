import PKernel.Library.PrivateMemory
import PKernel.Paging.Separation

/-! # What a process has in its private mappings

The bytes that a process reads at the addresses of its private mappings, and where its stores go.
A process reads through its page table, so what it reads is in the frames of the root behind the
mapping that the address is in. A store goes through where the mapping is not borrowed and may be
written.
-/

namespace PKernel.Pman

open Library.PrivateMemory

/-! ## Through the page table -/

/-- Where a store of a process goes, if its page table lets it through. -/
def storable (state : State) (context vaddr : Nat) : Option Nat := do
  let target ← state.contexts context
  let leaf ← target.table (vaddr / pageSize)
  if leaf.flags.userSuper && leaf.flags.readWrite then some (leaf.paddr + vaddr % pageSize)
  else none

/-- Memory after a store to a physical address. -/
def State.stored (state : State) (paddr : Nat) (byte : UInt8) : State :=
  { state with memory := Function.update state.memory paddr byte }

/-- The byte that a process reads at an address in a private mapping, and whether the mapping may
be written. -/
def privateCell (state : State) (context vaddr : Nat) : Option (Cell UInt8) :=
  match getVaddr state context vaddr with
  | .ok (some id) => do
      let mapping ← state.mappings id
      let byte ← loadUser state context vaddr
      if mapping.protection.shared then none else some ⟨byte, mapping.protection.write⟩
  | .ok none => none
  | .error _ => none

/-- The private memory of each process. -/
def memories (state : State) : Memories Nat Nat UInt8 := fun context =>
  if context = kernelContext then none
  else (state.contexts context).map fun _ => privateCell state context

/-! ## Through the loans -/

/-- An address of a process is in a loan. -/
structure Within (state : State) (context vaddr id : Nat) (loan : Mapping) (lender : Nat) :
    Prop where
  live : state.loan? id = some loan
  home : loan.context = context
  low : loan.vaddr ≤ vaddr
  high : vaddr < loan.vaddr + loan.sizePages * pageSize
  lender : loan.kind.lender? = some lender

section Views

variable {windows : Nat → List (Nat × Nat)} {state : State} {held : List Nat}
  {context vaddr id lender paddr : Nat} {loan : Mapping} {cell : Cell UInt8}

theorem Within.holds (hwithin : Within state context vaddr id loan lender) :
    Holds state context vaddr id loan :=
  ⟨(State.loan?_eq_some.mp hwithin.live).1, hwithin.home, hwithin.low, hwithin.high⟩

theorem Settled.within (hsettled : Settled windows held state) (huser : context ≠ kernelContext)
    (hholds : Holds state context vaddr id loan) :
    ∃ lender, Within state context vaddr id loan lender := by
  have hloan := hsettled.loan_of_user hholds.live (hholds.home ▸ huser)
  obtain ⟨lender, _, hlender, _⟩ := hsettled.lender hloan
  exact ⟨lender, hloan, hholds.home, hholds.low, hholds.high, hlender⟩

/-- An address is in one loan at most. -/
theorem Settled.within_unique (hsettled : Settled windows held state)
    (hwithin : Within state context vaddr id loan lender) {otherId otherLender : Nat}
    {other : Mapping} (hother : Within state context vaddr otherId other otherLender) :
    otherId = id ∧ other = loan ∧ otherLender = lender := by
  have hfirst := hsettled.sound.getVaddr_eq hwithin.holds
  have hsecond := hsettled.sound.getVaddr_eq hother.holds
  obtain rfl : id = otherId := Option.some.inj (Except.ok.inj (hfirst.symm.trans hsecond))
  cases hwithin.live.symm.trans hother.live
  exact ⟨rfl, rfl, Option.some.inj (hother.lender.symm.trans hwithin.lender)⟩

/-- What is behind an address, in the page table and in memory. -/
theorem Settled.leaf_within (hsettled : Settled windows held state)
    (huser : context ≠ kernelContext) (hwithin : Within state context vaddr id loan lender) :
    ∃ target leaf, state.contexts context = some target ∧
      target.table (vaddr / pageSize) = some leaf ∧ leaf.flags.userSuper = true ∧
      leaf.flags.readWrite = loan.writes ∧
      leaf.paddr + vaddr % pageSize = state.place lender (vaddr - loan.vaddr) := by
  obtain ⟨hloan, hhome, hlow, hhigh, hlender⟩ := hwithin
  have hmapping := (State.loan?_eq_some.mp hloan).1
  obtain ⟨lender', root, hlender', hroot, _, _, hrootId⟩ := hsettled.lender hloan
  cases hlender.symm.trans hlender'
  obtain ⟨target, htarget⟩ :=
    Option.isSome_iff_exists.mp (hsettled.counted.context id loan hmapping)
  have hoffset : vaddr - loan.vaddr < loan.sizePages * pageSize := by omega
  obtain ⟨frame, hleaf, hplace⟩ := hsettled.sound.leaf hmapping htarget hrootId hroot hoffset
  rw [Nat.add_sub_cancel' hlow] at hleaf hplace
  refine ⟨target, _, hhome ▸ htarget, hleaf, ?_, rfl, ?_⟩
  · simpa [Mapping.flags, flagsOf, hhome] using huser
  · rw [hplace, State.place_eq hroot]

theorem privateCell_eq_some (hsettled : Settled windows held state)
    (huser : context ≠ kernelContext) :
    privateCell state context vaddr = some cell ↔
      ∃ id loan lender, Within state context vaddr id loan lender ∧
        loan.protection.shared = false ∧
        cell = ⟨state.memory (state.place lender (vaddr - loan.vaddr)), loan.protection.write⟩ := by
  have hread : ∀ {id lender : Nat} {loan : Mapping}, Within state context vaddr id loan lender →
      loadUser state context vaddr =
        some (state.memory (state.place lender (vaddr - loan.vaddr))) := by
    intro id lender loan hwithin
    obtain ⟨target, leaf, htarget, hleaf, hsuper, _, hplace⟩ := hsettled.leaf_within huser hwithin
    simp [loadUser, htarget, hleaf, hsuper, hplace]
  constructor
  · intro hcell
    unfold privateCell at hcell
    split at hcell
    next id hget =>
      obtain ⟨target, htarget, hfind⟩ := bind_eq_ok.mp hget
      obtain ⟨loan, hlive, hcell⟩ := Option.bind_eq_some_iff.mp hcell
      obtain ⟨byte, hbyte, hcell⟩ := Option.bind_eq_some_iff.mp hcell
      rcases getVaddr_cases vaddr hsettled.laidOut (State.context_eq_ok.mp htarget) with
        ⟨id', loan', hget', hholds⟩ | ⟨hnone, _⟩
      · obtain rfl : id = id' := Option.some.inj (Except.ok.inj (hget.symm.trans hget'))
        cases hlive.symm.trans hholds.live
        obtain ⟨lender, hwithin⟩ := hsettled.within huser hholds
        rw [hread hwithin, Option.some.injEq] at hbyte
        cases hshared : loan.protection.shared with
        | true => simp [hshared] at hcell
        | false =>
            refine ⟨id, loan, lender, hwithin, hshared, ?_⟩
            simpa [hshared, hbyte] using hcell.symm
      · rw [hget] at hnone
        cases hnone
    next => cases hcell
    next => cases hcell
  · rintro ⟨id, loan, lender, hwithin, hprivate, rfl⟩
    unfold privateCell
    simp only [hsettled.sound.getVaddr_eq hwithin.holds, hwithin.holds.live, hread hwithin,
      Option.bind_eq_bind, Option.bind_some, hprivate, Bool.false_eq_true, if_false]

/-- Outside of the loans nothing is mapped. -/
theorem storable_eq_some (hsettled : Settled windows held state)
    (huser : context ≠ kernelContext) (hwindows : windows context = []) :
    storable state context vaddr = some paddr ↔
      ∃ id loan lender, Within state context vaddr id loan lender ∧ loan.writes = true ∧
        paddr = state.place lender (vaddr - loan.vaddr) := by
  constructor
  · intro hstorable
    obtain ⟨target, htarget, hstorable⟩ := Option.bind_eq_some_iff.mp hstorable
    obtain ⟨leaf, hleaf, hstorable⟩ := Option.bind_eq_some_iff.mp hstorable
    obtain ⟨range, hrange, hin⟩ := hsettled.mirrored.inside _ target _ htarget
      (by rw [hleaf]; rfl)
    have hperm := hsettled.laidOut.ranges _ target htarget
    rw [hwindows, List.append_nil] at hperm
    obtain ⟨id, hid, rfl⟩ := List.mem_map.mp (hperm.mem_iff.mp hrange)
    obtain ⟨loan, hlive, hhome⟩ := (hsettled.laidOut.listed _ target htarget id).mp hid
    obtain ⟨first, hfirst⟩ := (hsettled.laidOut.vacant_release hlive (hhome ▸ htarget)).1
    have hholds : Holds state context vaddr id loan := by
      refine ⟨hlive, hhome, ?_, ?_⟩ <;>
        simp only [State.range, hlive, Option.map_some, Option.getD_some, Mapping.range, InRange,
          hfirst] at hin ⊢ <;> unfold pageSize at * <;> omega
    obtain ⟨lender, hwithin⟩ := hsettled.within huser hholds
    obtain ⟨target', leaf', htarget', hleaf', _, hwrites, hplace⟩ :=
      hsettled.leaf_within huser hwithin
    cases htarget.symm.trans htarget'
    cases hleaf.symm.trans hleaf'
    simp only [Bool.and_eq_true, Option.ite_none_right_eq_some, Option.some.injEq] at hstorable
    exact ⟨id, loan, lender, hwithin, hwrites ▸ hstorable.1.2, hstorable.2.symm.trans hplace⟩
  · rintro ⟨id, loan, lender, hwithin, hwrites, rfl⟩
    obtain ⟨target, leaf, htarget, hleaf, hsuper, hflag, hplace⟩ :=
      hsettled.leaf_within huser hwithin
    simp [storable, htarget, hleaf, hsuper, hflag, hwrites, hplace]

end Views

end PKernel.Pman
