import PKernel.Paging.Separation

/-! # Unsharing a mapping

`pman_context_prepare_write` for a mapping that was lent for copying on write. Where its root has
no other reference the mapping takes the root over; else it gets a copy. Either way its loan is
replaced by one at the same address, of a root that no other loan is of, with the bytes that the
process has read there before.
-/

namespace PKernel.Pman

open Library.Lookup
open Function (update update_of_ne update_self)

/-- A loan is replaced by a shared one like it. -/
structure Replaces (state : State) (id : Nat) (loan : Mapping) (user rootId : Nat)
    (next : State) : Prop where
  fresh : user ≠ id → state.loan? user = none
  loans : next.loan? = update (update state.loan? id none) user
    (some { loan with kind := .shared rootId })
  leaves : Leaves state next

/-- A borrowed loan is replaced by one of a root that is the process's own. -/
structure Unshares (held : List Nat) (state : State) (id : Nat) (loan : Mapping)
    (lender user rootId : Nat) (next : State) : Prop where
  fresh : user ≠ id → state.loan? user = none
  loans : next.loan? = update (update state.loan? id none) user
    (some { loan with kind := .shared rootId })
  own : rootId ∉ held ∧ ∀ other found, state.loan? other = some found →
    found.kind.lender? = some rootId → other = id
  frames : FramesApart next
  copied : ∀ offset < loan.sizePages * pageSize,
    next.memory (next.place rootId offset) = state.memory (state.place lender offset)
  /-- The bytes of the other roots stay. -/
  others : ∀ other root, other ≠ rootId → next.mappings other = some root →
    root.kind.isRoot = true → ∀ offset < root.sizePages * pageSize,
      next.memory (next.place other offset) = state.memory (state.place other offset)
  present : ∀ context, (next.contexts context).isSome = (state.contexts context).isSome

variable {palloc : State → Nat → Option (List Nat)} {windows : Nat → List (Nat × Nat)}
  {state allocated : State} {held : List Nat} {id copyId rootId lender : Nat} {loan root : Mapping}

/-- The last calls of `pman_context_prepare_write`, on both paths. -/
theorem Settled.remap (hsettled : Settled windows (rootId :: held) state)
    (hloan : state.loan? id = some loan) (hroot : state.mappings rootId = some root)
    (hsize : root.sizePages = loan.sizePages) :
    ∃ user removed shared next, Remaps state id loan rootId user removed shared next ∧
      Settled windows held next ∧ Replaces state id loan user rootId next := by
  obtain ⟨lender, lent, hlender, hlent, _, _, _⟩ := hsettled.lender hloan
  obtain ⟨removed, hremove, hremoved, hunlent, hleaves, haligned, hvacant, _⟩ :=
    hsettled.unmapLoan hloan hlender hlent
  -- the root is held, so it is still there
  obtain ⟨before, hbefore, hbeforeRoot⟩ := hremoved.counted.held rootId List.mem_cons_self
  obtain ⟨found, references, hfound, rfl⟩ := hleaves.roots rootId before hbefore hbeforeRoot
  cases hroot.symm.trans hfound
  obtain ⟨target, htarget⟩ : ∃ target, removed.contexts loan.context = some target := by
    rw [← Option.isSome_iff_exists, hleaves.present]
    exact hsettled.counted.context id loan (State.loan?_eq_some.mp hloan).1
  obtain ⟨user, shared, hshare, hshared, hlends, _⟩ := hremoved.addLoan loan.protection .shared
    loan.protection.write (fun _ => rfl) (fun _ _ _ => rfl) hbefore hbeforeRoot htarget haligned
    (hsize ▸ hvacant target htarget)
  obtain ⟨next, hdrop, hnext, hreleased, hleft⟩ := hshared.release
  refine ⟨user, removed, shared, next, ⟨hremove, hshare, hdrop⟩, hnext, ?_, ?_,
    (hleaves.trans hlends.leaves).trans hleft⟩
  · intro hne
    have hfresh := hlends.fresh
    rwa [hunlent, update_of_ne hne] at hfresh
  · rw [hreleased, hlends.loans, hunlent, ← hsize]
    rfl

/-- Where nobody else refers to the root. -/
theorem Settled.takesOver (hsettled : Settled windows held state) (hapart : FramesApart state)
    (hloan : state.loan? id = some loan) (hlender : loan.kind.lender? = some rootId)
    (hroot : state.mappings rootId = some root) (hisRoot : root.kind.isRoot = true)
    (hone : root.kind.references = 1) :
    ∃ user next, TakesOver state id loan rootId user next ∧ Settled windows held next ∧
      Unshares held state id loan rootId user rootId next := by
  obtain ⟨hcounted, hlaid, hmirrored, hrooted⟩ := hsettled
  have hraised : Settled windows (rootId :: held) (state.setMapping rootId
      (root.withReferences (root.kind.references + 1))) :=
    ⟨hcounted.raise hroot hisRoot, hlaid.recount hroot _, hmirrored.recount hroot _,
      hrooted.recount hroot _⟩
  have hloans : (state.setMapping rootId
      (root.withReferences (root.kind.references + 1))).loan? = state.loan? :=
    State.loan?_recount hroot hisRoot rfl
  have hsize := hlaid.loanSize id loan rootId root (State.loan?_eq_some.mp hloan).1 hlender hroot
  obtain ⟨user, removed, shared, next, ⟨hremove, hshare, hdrop⟩, hnext, hreplaces⟩ :=
    hraised.remap (by rw [hloans]; exact hloan) (update_self _ _ _) hsize
  have hleft : RootsLeft state next :=
    (RootsLeft.of_recounted (.setMapping hroot _)).trans hreplaces.leaves.roots
  have hbytes : ∀ other root, next.mappings other = some root → root.kind.isRoot = true →
      ∀ offset, next.memory (next.place other offset) =
        state.memory (state.place other offset) := by
    intro other found hfound hfoundRoot offset
    obtain ⟨_, _, _, _, hplaces⟩ := hleft.before hfound hfoundRoot
    rw [hplaces, hreplaces.leaves.memory]
    rfl
  have hnew : next.loan? user = some { loan with kind := .shared rootId } := by
    rw [hreplaces.loans, update_self]
  obtain ⟨lender, found, hfoundLender, hfound, hfoundRoot, _, _⟩ := hnext.lender hnew
  obtain rfl : rootId = lender := Option.some.inj hfoundLender
  refine ⟨user, next, ⟨_, removed, shared, addReference_eq_ok hroot, hremove, hshare, hdrop⟩, hnext,
    hloans ▸ hreplaces.fresh, ?_, ?_, hapart.left hleft, ?_, ?_, hreplaces.leaves.present⟩
  · rw [hreplaces.loans, hloans]
  · exact Settled.sole ⟨hcounted, hlaid, hmirrored, hrooted⟩ hloan hlender hroot hisRoot hone
  · exact fun offset _ => hbytes rootId found hfound hfoundRoot offset
  · exact fun other root _ hother hotherRoot offset _ => hbytes other root hother hotherRoot offset

/-- Where others refer to the root, and there is memory for a copy. -/
theorem Settled.copiesOut (hsettled : Settled windows held state) (hapart : FramesApart state)
    (hexact : Exact palloc) (hfresh : Fresh palloc) (hloan : state.loan? id = some loan)
    (hlender : loan.kind.lender? = some rootId)
    (hroot : state.mappings rootId = some root) (hisRoot : root.kind.isRoot = true)
    (halloc : Pman.addAlloc palloc state kernelContext ⟨true, false, false, false⟩ 0
      (u64 (root.sizePages * pageSize)) = .ok (copyId, allocated)) :
    ∃ user next, CopiesOut palloc state id loan root user next ∧ Settled windows held next ∧
      Unshares held state id loan rootId user copyId next := by
  obtain ⟨hallocated, hnew⟩ := hsettled.addAlloc hexact (u64_lt _) halloc
  have hallocatedApart := hapart.addAlloc hfresh hsettled.counted halloc
  obtain ⟨kernel, hkernel⟩ := Option.isSome_iff_exists.mp hallocated.rooted.kernel
  obtain ⟨copy, hcopy, hcopyRoot, hcopySize, _⟩ := hnew.root
  obtain ⟨home, hhome⟩ :=
    Option.isSome_iff_exists.mp (hsettled.counted.context rootId root hroot)
  rw [divUp_pages (hsettled.laidOut.sizePages_bounds hroot hhome).2] at hcopySize
  have hsize := hsettled.laidOut.loanSize id loan rootId root
    (State.loan?_eq_some.mp hloan).1 hlender hroot
  have hroot' := hnew.kept rootId root hroot
  have hne : copyId ≠ rootId := by
    rintro rfl
    rw [hnew.fresh] at hroot
    cases hroot
  have hplaces : ∀ {other : Nat} {found : Mapping}, allocated.mappings other = some found →
      found.kind.isRoot = true → ∀ j < found.sizePages * pageSize,
        translate kernel.table (found.vaddr + j) = some (allocated.place other j) := by
    intro other found hfound hfoundRoot j hj
    have hthere := hallocated.rooted.kernelRoots other found hfound hfoundRoot
    rw [hallocated.sound.translate_mapping hfound (hthere ▸ hkernel)
      (State.root_of_isRoot hfound hfoundRoot) hfound hj, State.place_eq hfound]
  -- what is copied, and what is not touched
  obtain ⟨after, hmemcpy, hcopied, hothers⟩ := @Programs.memcpy_spec kernel.table copy.vaddr
    root.vaddr _ allocated.memory _ _ (hcopySize ▸ hplaces hcopy hcopyRoot) (hplaces hroot' hisRoot)
      (fun j hj k hk hsame => hne (hallocated.place_injective hallocatedApart hcopy hcopyRoot
        hroot' hisRoot (hcopySize ▸ hj) hk hsame).1)
      (fun j hj k hk hsame => (hallocated.place_injective hallocatedApart hcopy hcopyRoot
        hcopy hcopyRoot (hcopySize ▸ hj) (hcopySize ▸ hk) hsame).2)
  have hloan' : ({ allocated with memory := after } : State).loan? id = some loan := by
    show allocated.loan? id = some loan
    rw [hnew.loans, hloan]
  obtain ⟨user, removed, shared, next, ⟨hremove, hshare, hdrop⟩, hnext, hreplaces⟩ :=
    (hallocated.store after).remap hloan' hcopy (hcopySize.trans hsize)
  have hleft : RootsLeft allocated next := hreplaces.leaves.roots
  have hmemory : next.memory = after := hreplaces.leaves.memory
  have hshared : next.loan? user = some { loan with kind := .shared copyId } := by
    rw [hreplaces.loans, update_self]
  obtain ⟨lender, left, hleftLender, hleftRoot, hleftIsRoot, _, _⟩ := hnext.lender hshared
  obtain rfl : copyId = lender := Option.some.inj hleftLender
  have hunused : user ≠ id → state.loan? user = none := hnew.loans ▸ hreplaces.fresh
  refine ⟨user, next, ⟨copyId, allocated, kernel, copy, after, removed, shared, halloc, hkernel,
    hcopy, hmemcpy, hremove, hshare, hdrop⟩, hnext, hunused, ?_, ⟨?_, ?_⟩,
    hallocatedApart.left hleft, ?_, ?_, ?_⟩
  · rw [hreplaces.loans]
    show update (update allocated.loan? id none) user _ = _
    rw [hnew.loans]
  · intro hheld
    obtain ⟨root, hroot, _⟩ := hsettled.counted.held copyId hheld
    rw [hnew.fresh] at hroot
    cases hroot
  · intro other found hfound hfoundLender
    obtain ⟨root, hroot, _⟩ := hsettled.counted.lender other found copyId
      (State.loan?_eq_some.mp hfound).1 hfoundLender
    rw [hnew.fresh] at hroot
    cases hroot
  · intro offset hoffset
    obtain ⟨_, _, _, _, hplace⟩ := hleft.before hleftRoot hleftIsRoot
    rw [hplace, hmemory, hcopied offset (hsize ▸ hoffset), hnew.memory, State.place_eq hroot',
      State.place_eq hroot]
  · intro other found hother hfound hfoundRoot offset hoffset
    obtain ⟨before, hbefore, hbeforeRoot, hbeforeSize, hplace⟩ := hleft.before hfound hfoundRoot
    rw [hplace, hmemory, hothers, hnew.memory, State.place, State.place, hnew.frames other hother]
    intro j hj hsame
    exact hother (hallocated.place_injective hallocatedApart hbefore hbeforeRoot hcopy hcopyRoot
      (hbeforeSize ▸ hoffset) (hcopySize ▸ hj) hsame.symm).1
  · intro context
    rw [hreplaces.leaves.present context]
    show (allocated.contexts context).isSome = _
    by_cases heq : context = kernelContext
    · rw [heq, hallocated.rooted.kernel, hsettled.rooted.kernel]
    · rw [hnew.contexts context heq]

/-- `pman_context_prepare_write` of a borrowed mapping of a process goes through if a copy that it
needs can be allocated. -/
theorem Settled.prepareWrite (hsettled : Settled windows held state) (hapart : FramesApart state)
    (hexact : Exact palloc) (hfresh : Fresh palloc) (hloan : state.loan? id = some loan)
    (hborrowed : loan.kind = .borrowed lender)
    (halloc : ∀ root, state.mappings lender = some root → root.kind.references ≠ 1 →
      ∃ result, Pman.addAlloc palloc state kernelContext ⟨true, false, false, false⟩ 0
        (u64 (root.sizePages * pageSize)) = .ok result) :
    ∃ user next, Pman.prepareWrite palloc state id = .ok (user, next) ∧
      Settled windows held next ∧
      ∃ rootId, Unshares held state id loan lender user rootId next := by
  have hlender : loan.kind.lender? = some lender := by rw [hborrowed]; rfl
  obtain ⟨lender', root, hlender', hroot, hisRoot, _, hrootId⟩ := hsettled.lender hloan
  cases hlender.symm.trans hlender'
  unfold Pman.prepareWrite
  rw [State.mapping_eq_ok.mpr (State.loan?_eq_some.mp hloan).1, ok_bind]
  simp only [hborrowed, hrootId, ok_bind, State.mapping_eq_ok.mpr hroot]
  by_cases hone : root.kind.references = 1
  · obtain ⟨user, next, ⟨_, _, _, hraise, hremove, hshare, hdrop⟩, hnext, hunshares⟩ :=
      hsettled.takesOver hapart hloan hlender hroot hisRoot hone
    refine ⟨user, next, ?_, hnext, lender, hunshares⟩
    simp only [hone, if_true, hraise, hremove, hshare, hdrop, ok_bind, pure_eq_ok]
  · obtain ⟨⟨copyId, allocated⟩, halloc⟩ := halloc root hroot hone
    obtain ⟨user, next, ⟨_, _, _, _, _, _, _, halloc, hkernel, hcopy, hmemcpy, hremove, hshare,
      hdrop⟩, hnext, hunshares⟩ :=
      hsettled.copiesOut hapart hexact hfresh hloan hlender hroot hisRoot halloc
    refine ⟨user, next, ?_, hnext, copyId, hunshares⟩
    simp only [hone, if_false, halloc, State.context_eq_ok.mpr hkernel, State.mapping_eq_ok.mpr hcopy,
      hmemcpy, hremove, hshare, hdrop, ok_bind, pure_eq_ok]

/-- With pages for it a copy can be allocated. -/
theorem Settled.allocates (hsettled : Settled windows held state) (hexact : Exact palloc)
    (hloan : state.loan? id = some loan) (hlender : loan.kind.lender? = some lender)
    (hroot : state.mappings lender = some root)
    (hsupplied : Supplied palloc state loan.sizePages) :
    ∃ result, Pman.addAlloc palloc state kernelContext ⟨true, false, false, false⟩ 0
      (u64 (root.sizePages * pageSize)) = .ok result := by
  obtain ⟨home, hhome⟩ := Option.isSome_iff_exists.mp (hsettled.counted.context lender root hroot)
  have hsize := hsettled.laidOut.loanSize id loan lender root
    (State.loan?_eq_some.mp hloan).1 hlender hroot
  have hbytes : divUp (u64 (root.sizePages * pageSize)) pageSize = loan.sizePages := by
    rw [divUp_pages (hsettled.laidOut.sizePages_bounds hroot hhome).2, hsize]
  obtain ⟨copyId, allocated, halloc, _⟩ := hsettled.sound.addAlloc hexact
    (u64_lt (root.sizePages * pageSize)) (hbytes ▸ hsupplied) ⟨true, false, false, false⟩
  exact ⟨_, halloc⟩

/-- With memory for a copy the call goes through, whatever the mapping is. -/
theorem Settled.prepareWrite_returns (hsettled : Settled windows held state)
    (hapart : FramesApart state) (hexact : Exact palloc) (hfresh : Fresh palloc)
    (hloan : state.loan? id = some loan) (hsupplied : Supplied palloc state loan.sizePages) :
    ∃ user next, Pman.prepareWrite palloc state id = .ok (user, next) := by
  cases hkind : loan.kind with
  | borrowed lender =>
      obtain ⟨user, next, hcall, _⟩ := hsettled.prepareWrite hapart hexact hfresh hloan hkind
        fun root hroot _ => hsettled.allocates hexact hloan (by rw [hkind]; rfl) hroot hsupplied
      exact ⟨user, next, hcall⟩
  | _ =>
      refine ⟨id, state, ?_⟩
      simp only [Pman.prepareWrite, State.mapping_eq_ok.mpr (State.loan?_eq_some.mp hloan).1, ok_bind,
        hkind, pure_eq_ok]

/-- A call that goes through has allocated the copy that it needs. -/
theorem Settled.allocates_of_prepareWrite (hsettled : Settled windows held state)
    (hloan : state.loan? id = some loan) (hborrowed : loan.kind = .borrowed lender)
    {result : Nat × State} (hcall : Pman.prepareWrite palloc state id = .ok result)
    (hroot : state.mappings lender = some root) (hmore : root.kind.references ≠ 1) :
    ∃ result, Pman.addAlloc palloc state kernelContext ⟨true, false, false, false⟩ 0
      (u64 (root.sizePages * pageSize)) = .ok result := by
  obtain ⟨lender', _, hlender, _, _, _, hrootId⟩ := hsettled.lender hloan
  obtain rfl : lender = lender' := Option.some.inj (by rw [← hlender, hborrowed]; rfl)
  obtain ⟨mapping, hmapping, hpaths⟩ := prepareWrite_eq_ok hcall
  cases (State.loan?_eq_some.mp hloan).1.symm.trans hmapping
  rcases hpaths with ⟨hkept, _⟩ | ⟨_, rootId, found, _, hfoundId, hfound, _, hpaths⟩
  · exact absurd hborrowed (hkept lender)
  cases hrootId.symm.trans hfoundId
  cases hroot.symm.trans hfound
  rcases hpaths with ⟨hone, _⟩ | ⟨_, _, _, _, _, _, _, _, halloc, _⟩
  · exact absurd hone hmore
  · exact ⟨_, halloc⟩

end PKernel.Pman
