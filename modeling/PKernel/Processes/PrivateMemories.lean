import PKernel.Paging.PrivateViews
import PKernel.Paging.Unsharing
import PKernel.Processes.Fork

/-! # What the calls do to private memory

Forking copies the private memory of the parent, unsharing a mapping changes no memory at all, a
store is seen by nobody else, and with an address space its memory is gone.
-/

namespace PKernel.Pman

open Library.PrivateMemory
open Library.Lookup

/-- What is at an address in a private share. -/
structure Share.Shows (state : State) (share : Share) (vaddr : Nat) (cell : Cell UInt8) : Prop where
  unshared : share.protection.shared = false
  low : share.vaddr ≤ vaddr
  high : vaddr < share.vaddr + share.sizePages * pageSize
  cell : ∃ lender, share.lender = some lender ∧
    cell = ⟨state.memory (state.place lender (vaddr - share.vaddr)), share.protection.write⟩

/-- Between the calls of the manager, with nothing in a process but its mappings. -/
structure Steady (held : List Nat) (state : State) : Prop where
  settled : ∃ windows, (∀ context, context ≠ kernelContext → windows context = []) ∧
    Settled windows held state
  separated : Separated held state

section Cells

variable {state next : State} {held : List Nat} {context vaddr : Nat} {cell : Cell UInt8}

theorem memories_kernel (state : State) : memories state kernelContext = none := by
  simp [memories]

theorem memories_present (huser : context ≠ kernelContext)
    (hpresent : (state.contexts context).isSome) :
    memories state context = some (privateCell state context) := by
  obtain ⟨target, htarget⟩ := Option.isSome_iff_exists.mp hpresent
  simp [memories, huser, htarget]

theorem memories_absent (habsent : state.contexts context = none) :
    memories state context = none := by
  simp [memories, habsent]

/-- Without new owners and other cells the memories are the same. -/
theorem memories_congr (context : Nat)
    (hpresent : (next.contexts context).isSome = (state.contexts context).isSome)
    (hcells : context ≠ kernelContext → ∀ vaddr cell, privateCell next context vaddr = some cell ↔
      privateCell state context vaddr = some cell) :
    memories next context = memories state context := by
  by_cases huser : context = kernelContext
  · rw [huser, memories_kernel, memories_kernel]
  have hsame : privateCell next context = privateCell state context := by
    funext vaddr
    exact Option.ext fun cell => hcells huser vaddr cell
  cases hstate : (state.contexts context).isSome with
  | true =>
      rw [memories_present huser hstate, memories_present huser (hpresent.trans hstate), hsame]
  | false =>
      have hnext := hpresent.trans hstate
      rw [memories_absent (by simpa using hnext), memories_absent (by simpa using hstate)]

theorem Steady.cell_iff (hsteady : Steady held state) (huser : context ≠ kernelContext) :
    privateCell state context vaddr = some cell ↔
      ∃ share, state.Has share ∧ share.context = context ∧ share.Shows state vaddr cell := by
  obtain ⟨windows, _, hsettled⟩ := hsteady.settled
  rw [privateCell_eq_some hsettled huser]
  constructor
  · rintro ⟨id, loan, lender, ⟨hlive, hhome, hlow, hhigh, hlender⟩, hprivate, rfl⟩
    exact ⟨loan.share, ⟨id, loan, hlive, rfl⟩, hhome, hprivate, hlow, hhigh, lender, hlender, rfl⟩
  · rintro ⟨share, ⟨id, loan, hlive, rfl⟩, hhome, hprivate, hlow, hhigh, lender, hlender, rfl⟩
    exact ⟨id, loan, lender, ⟨hlive, hhome, hlow, hhigh, hlender⟩, hprivate, rfl⟩

/-- The root behind a share is live, and the addresses of the share are offsets in it. -/
theorem Settled.share_root {windows : Nat → List (Nat × Nat)} {share : Share} {lender : Nat}
    (hsettled : Settled windows held state) (hhas : state.Has share)
    (hlender : share.lender = some lender) :
    ∃ root, state.mappings lender = some root ∧ root.kind.isRoot = true ∧
      root.sizePages = share.sizePages := by
  obtain ⟨id, loan, hlive, rfl⟩ := hhas
  obtain ⟨found, root, hfound, hroot, hisRoot, hsize, _⟩ := hsettled.lender hlive
  obtain rfl : lender = found := Option.some.inj (hlender.symm.trans hfound)
  exact ⟨root, hroot, hisRoot, hsize⟩

/-- The same bytes are behind a share. -/
def Share.Alike (share : Share) (state next : State) : Prop :=
  ∀ lender, share.lender = some lender → ∀ offset < share.sizePages * pageSize,
    next.memory (next.place lender offset) = state.memory (state.place lender offset)

theorem Share.Alike.shows_iff {share : Share} (halike : share.Alike state next) :
    share.Shows next vaddr cell ↔ share.Shows state vaddr cell := by
  constructor <;> rintro ⟨hprivate, hlow, hhigh, lender, hlender, rfl⟩ <;>
    exact ⟨hprivate, hlow, hhigh, lender, hlender, by rw [halike lender hlender _ (by omega)]⟩

/-- They are as long as its root is left and memory is not written. -/
theorem Steady.alike {share : Share} (hnext : Steady held next) (hhas : next.Has share)
    (hroots : RootsLeft state next) (hmemory : next.memory = state.memory) :
    share.Alike state next := by
  intro lender hlender offset _
  obtain ⟨windows, _, hsettled⟩ := hnext.settled
  obtain ⟨root, hroot, hisRoot, _⟩ := hsettled.share_root hhas hlender
  obtain ⟨_, _, _, _, hplaces⟩ := hroots.before hroot hisRoot
  rw [hplaces, hmemory]

/-- A process has the same memory as long as it has the same private shares, with the same bytes. -/
theorem Steady.memories_eq (hsteady : Steady held state) (hnext : Steady held next) {context : Nat}
    (hpresent : (next.contexts context).isSome = (state.contexts context).isSome)
    (hhas : ∀ share : Share, share.context = context → share.protection.shared = false →
      (next.Has share ↔ state.Has share))
    (halike : ∀ share : Share, share.context = context → share.protection.shared = false →
      next.Has share → share.Alike state next) :
    memories next context = memories state context := by
  refine memories_congr context hpresent fun huser vaddr cell => ?_
  rw [hnext.cell_iff huser, hsteady.cell_iff huser]
  refine exists_congr fun share => ?_
  constructor
  · rintro ⟨hshare, hthere, hshow⟩
    exact ⟨(hhas share hthere hshow.unshared).mp hshare, hthere,
      (halike share hthere hshow.unshared hshare).shows_iff.mp hshow⟩
  · rintro ⟨hshare, hthere, hshow⟩
    have hshare := (hhas share hthere hshow.unshared).mpr hshare
    exact ⟨hshare, hthere, (halike share hthere hshow.unshared hshare).shows_iff.mpr hshow⟩

/-- A process that does not exist has nothing. -/
theorem Steady.context_of_has (hsteady : Steady held state) {share : Share}
    (hhas : state.Has share) : (state.contexts share.context).isSome := by
  obtain ⟨windows, _, hsettled⟩ := hsteady.settled
  obtain ⟨id, loan, hlive, rfl⟩ := hhas
  exact hsettled.counted.context id loan (State.loan?_eq_some.mp hlive).1

end Cells

/-! ## New processes -/

section Fork

variable {state next : State} {held : List Nat} {parent child : Nat}

theorem Steady.newContext (hsteady : Steady held state) :
    Steady held (Pman.newContext state).2 := by
  obtain ⟨⟨windows, hempty, hsettled⟩, hseparated⟩ := hsteady
  exact ⟨⟨windows, hempty, hsettled.newContext⟩, hseparated.frames, hseparated.compatible⟩

theorem Steady.nextContext (hsteady : Steady held state) :
    state.contexts state.nextContext = none ∧ state.nextContext ≠ kernelContext := by
  obtain ⟨windows, _, hsettled⟩ := hsteady.settled
  have hfresh := (hsettled.laidOut.freshContext state.nextContext (Nat.le_refl _)).1
  refine ⟨hfresh, ?_⟩
  intro heq
  have hkernel := hsettled.rooted.kernel
  rw [← heq, hfresh] at hkernel
  cases hkernel

/-- A new process has no memory yet. -/
theorem Steady.memories_newContext (hsteady : Steady held state) :
    memories (Pman.newContext state).2 =
      apply (memories state) (.create (Pman.newContext state).1) := by
  have hnext := hsteady.newContext
  obtain ⟨hfresh, huser⟩ := hsteady.nextContext
  have hhas : ∀ share, (Pman.newContext state).2.Has share ↔ state.Has share := fun _ => Iff.rfl
  refine Function.eq_update_iff.mpr ⟨?_, ?_⟩
  · show memories (Pman.newContext state).2 state.nextContext = _
    rw [memories_present huser ((newContext_present _).mpr (.inr rfl))]
    congr 1
    funext vaddr
    rw [Option.eq_none_iff_forall_ne_some]
    intro cell hcell
    obtain ⟨share, hshare, hthere, _⟩ := (hnext.cell_iff huser).mp hcell
    have hpresent := hsteady.context_of_has ((hhas share).mp hshare)
    rw [hthere, hfresh] at hpresent
    cases hpresent
  · intro context hne
    have hne : context ≠ state.nextContext := hne
    have hroots : RootsLeft state (Pman.newContext state).2 :=
      .of_recounted (.of_sub fun _ _ hmapping => hmapping)
    exact hsteady.memories_eq hnext (by simp [Pman.newContext, hne]) (fun share _ _ => hhas share)
      fun _ _ _ hshare => hnext.alike hshare hroots rfl

/-- The child of a fork has the private memory of its parent. -/
theorem Steady.fork (hsteady : Steady held state) (huser : parent ≠ kernelContext)
    (hpresent : (state.contexts parent).isSome)
    (hcall : Pman.processCreateFork state parent = .ok (child, next)) :
    Steady held next ∧ memories next = apply (memories state) (.copy parent child) := by
  have hsteady' := hsteady
  obtain ⟨⟨windows, hempty, hsettled⟩, hseparated⟩ := hsteady
  obtain ⟨target, htarget⟩ := Option.isSome_iff_exists.mp hpresent
  obtain ⟨after, hcall', hafter, hafterSeparated, hresult⟩ :=
    hsettled.processCreateFork hseparated huser htarget
  obtain ⟨rfl, rfl⟩ : state.nextContext = child ∧ after = next :=
    Prod.mk.inj (Except.ok.inj (hcall'.symm.trans hcall))
  have hnext : Steady held after := ⟨⟨windows, hempty, hafter⟩, hafterSeparated⟩
  obtain ⟨hfresh, hchild⟩ := hsteady'.nextContext
  have halike : ∀ share, after.Has share → share.Alike state after :=
    fun share hshare => hnext.alike hshare hresult.roots hresult.memory
  refine ⟨hnext, Function.eq_update_iff.mpr ⟨?_, ?_⟩⟩
  · rw [memories_present hchild ((hresult.present _).mpr (.inr rfl)),
      memories_present huser hpresent]
    congr 1
    funext vaddr
    refine Option.ext fun cell => ?_
    rw [hnext.cell_iff hchild, hsteady'.cell_iff huser]
    constructor
    · rintro ⟨share, hshare, hthere, hshow⟩
      have hshow := (halike share hshare).shows_iff.mp hshow
      rcases (hresult.has share).mp hshare with hold | ⟨own, hown, hhome, rfl⟩
      · have hpresent := hsteady'.context_of_has hold
        rw [hthere, hfresh] at hpresent
        cases hpresent
      · exact ⟨own, hown, hhome, hshow.unshared, hshow.low, hshow.high, hshow.cell⟩
    · rintro ⟨own, hown, hhome, hshow⟩
      have hshare := (hresult.has { own with context := state.nextContext }).mpr
        (.inr ⟨own, hown, hhome, rfl⟩)
      refine ⟨_, hshare, rfl, (halike _ hshare).shows_iff.mpr ?_⟩
      exact ⟨hshow.unshared, hshow.low, hshow.high, hshow.cell⟩
  · intro context hne
    refine hsteady'.memories_eq hnext ?_ (fun share hthere _ => ?_) fun share _ _ => halike share
    · rw [Bool.eq_iff_iff, hresult.present]
      simp [hne]
    · rw [hresult.has]
      refine or_iff_left ?_
      rintro ⟨own, _, _, rfl⟩
      exact hne hthere.symm

end Fork

/-! ## Stores -/

section Store

variable {palloc : State → Nat → Option (List Nat)} {state next : State} {held : List Nat}
  {context vaddr id lender user rootId : Nat} {loan : Mapping} {byte : UInt8}

/-- A process reads in the new mapping what it has read in the old one. -/
theorem Unshares.cell {windows : Nat → List (Nat × Nat)}
    (hunshares : Unshares held state id loan lender user rootId next)
    (hsettled : Settled windows held state) (hnext : Settled windows held next)
    (hloan : state.loan? id = some loan) (hlender : loan.kind.lender? = some lender)
    (huser : context ≠ kernelContext) (cell : Cell UInt8) :
    privateCell next context vaddr = some cell ↔ privateCell state context vaddr = some cell := by
  have hnew : next.loan? user = some { loan with kind := .shared rootId } := by
    rw [hunshares.loans, Function.update_self]
  have hcases : ∀ other found, next.loan? other = some found →
      other = user ∧ found = { loan with kind := .shared rootId } ∨
        other ≠ id ∧ state.loan? other = some found := by
    intro other found hfound
    rw [hunshares.loans] at hfound
    rcases update_some_eq_some.mp hfound with hnew | ⟨_, hfound⟩
    · exact .inl hnew
    · exact .inr (update_none_eq_some.mp hfound)
  have hkept : ∀ other found, other ≠ id → state.loan? other = some found →
      next.loan? other = some found := by
    intro other found hne hfound
    have hother : other ≠ user := by
      rintro rfl
      rw [hunshares.fresh hne] at hfound
      cases hfound
    rw [hunshares.loans, Function.update_of_ne hother, Function.update_of_ne hne, hfound]
  -- the bytes behind the other loans
  have hbytes : ∀ other found root, other ≠ id → state.loan? other = some found →
      found.kind.lender? = some root → ∀ offset < found.sizePages * pageSize,
        next.memory (next.place root offset) = state.memory (state.place root offset) := by
    intro other found root hne hfound hfoundLender offset hoffset
    obtain ⟨root', mapping, hroot', hmapping, hisRoot, hsize, _⟩ :=
      hnext.lender (hkept other found hne hfound)
    cases hfoundLender.symm.trans hroot'
    refine hunshares.others root mapping ?_ hmapping hisRoot offset (hsize ▸ hoffset)
    rintro rfl
    exact hne (hunshares.own.2 other found hfound hfoundLender)
  rw [privateCell_eq_some hnext huser, privateCell_eq_some hsettled huser]
  constructor
  · rintro ⟨other, found, root, ⟨hlive, hhome, hlow, hhigh, hroot⟩, hprivate, rfl⟩
    rcases hcases other found hlive with ⟨rfl, rfl⟩ | ⟨hne, hfound⟩
    · obtain rfl : rootId = root := Option.some.inj hroot
      refine ⟨id, loan, lender, ⟨hloan, hhome, hlow, hhigh, hlender⟩, hprivate, ?_⟩
      have hlow : loan.vaddr ≤ vaddr := hlow
      have hhigh : vaddr < loan.vaddr + loan.sizePages * pageSize := hhigh
      rw [hunshares.copied (vaddr - loan.vaddr) (by omega)]
    · refine ⟨other, found, root, ⟨hfound, hhome, hlow, hhigh, hroot⟩, hprivate, ?_⟩
      rw [hbytes other found root hne hfound hroot _ (by omega)]
  · rintro ⟨other, found, root, ⟨hlive, hhome, hlow, hhigh, hroot⟩, hprivate, rfl⟩
    by_cases hother : other = id
    · subst hother
      cases hloan.symm.trans hlive
      cases hlender.symm.trans hroot
      refine ⟨user, _, rootId, ⟨hnew, hhome, hlow, hhigh, rfl⟩, hprivate, ?_⟩
      rw [hunshares.copied (vaddr - loan.vaddr) (by omega)]
    · refine ⟨other, found, root, ⟨hkept other found hother hlive, hhome, hlow, hhigh, hroot⟩,
        hprivate, ?_⟩
      rw [hbytes other found root hother hlive hroot _ (by omega)]

/-- Unsharing a mapping is not noticed by any process. -/
theorem Steady.prepareWrite (hsteady : Steady held state) (hexact : Exact palloc)
    (hfresh : Fresh palloc) (hloan : state.loan? id = some loan)
    (hborrowed : loan.kind = .borrowed lender)
    (halloc : ∀ root, state.mappings lender = some root → root.kind.references ≠ 1 →
      ∃ result, Pman.addAlloc palloc state kernelContext ⟨true, false, false, false⟩ 0
        (u64 (root.sizePages * pageSize)) = .ok result) :
    ∃ user next, Pman.prepareWrite palloc state id = .ok (user, next) ∧
      Steady held next ∧ memories next = memories state ∧
        ∃ rootId, next.loan? user = some { loan with kind := .shared rootId } := by
  obtain ⟨⟨windows, hempty, hsettled⟩, hseparated⟩ := hsteady
  obtain ⟨user, next, hcall, hnext, rootId, hunshares⟩ :=
    hsettled.prepareWrite hseparated.frames hexact hfresh hloan hborrowed halloc
  have hlender : loan.kind.lender? = some lender := by rw [hborrowed]; rfl
  have hcompatible : Compatible held next.loan? := by
    rw [hunshares.loans]
    refine (hseparated.compatible.erase id).insert ?_ (fun hnew => by cases hnew) ?_
    · intro other found root _ hfound hfoundLender hown
      obtain rfl : rootId = root := Option.some.inj hown
      obtain ⟨hne, hfound⟩ := update_none_eq_some.mp hfound
      exact absurd (hunshares.own.2 other found hfound hfoundLender) hne
    · rintro root hown hmem
      obtain rfl : rootId = root := Option.some.inj hown
      exact absurd hmem hunshares.own.1
  refine ⟨user, next, hcall, ⟨⟨windows, hempty, hnext⟩, hunshares.frames, hcompatible⟩, ?_, rootId,
    ?_⟩
  · funext context
    exact memories_congr context (hunshares.present context) fun huser vaddr cell =>
      hunshares.cell hsettled hnext hloan hlender huser cell
  · rw [hunshares.loans, Function.update_self]

/-- What may be written is not borrowed. -/
theorem Mapping.writes_eq (hloan : loan.kind.isRoot = false) :
    loan.writes = true ↔ loan.isBorrowed = false ∧ loan.protection.write = true := by
  unfold Mapping.writes Mapping.isBorrowed
  cases hkind : loan.kind with
  | alloc references paddrs => simp [hkind, Kind.isRoot] at hloan
  | map references paddr => simp [hkind, Kind.isRoot] at hloan
  | borrowed lender => simp
  | shared lender => simp

/-- Where a process may write, no other address has the byte, unless it is to be shared. -/
theorem Steady.sole (hsteady : Steady held state) {otherContext otherVaddr otherId otherLender : Nat}
    {other : Mapping} (hwithin : Within state context vaddr id loan lender)
    (hwrites : loan.writes = true)
    (hother : Within state otherContext otherVaddr otherId other otherLender)
    (hprivate : other.protection.shared = false)
    (hsame : state.place otherLender (otherVaddr - other.vaddr) =
      state.place lender (vaddr - loan.vaddr)) :
    otherContext = context ∧ otherVaddr = vaddr := by
  obtain ⟨⟨windows, _, hsettled⟩, hseparated⟩ := hsteady
  obtain ⟨found, root, hfound, hroot, hisRoot, hsize, _⟩ := hsettled.lender hwithin.live
  cases hwithin.lender.symm.trans hfound
  obtain ⟨found', root', hfound', hroot', hisRoot', hsize', _⟩ := hsettled.lender hother.live
  cases hother.lender.symm.trans hfound'
  have hhigh := hwithin.high
  have hlow := hwithin.low
  have hhigh' := hother.high
  have hlow' := hother.low
  obtain ⟨rfl, hoffset⟩ := hsettled.place_injective hseparated.frames hroot' hisRoot' hroot hisRoot
    (by rw [hsize']; omega) (by rw [hsize]; omega) hsame
  have hkind := (State.loan?_eq_some.mp hwithin.live).2
  by_cases heq : otherId = id
  · subst heq
    cases hwithin.live.symm.trans hother.live
    exact ⟨hother.home.symm.trans hwithin.home, by omega⟩
  · rcases hseparated.compatible.pairs otherId id other loan otherLender heq hother.live hwithin.live
      hother.lender hwithin.lender with ⟨_, hborrowed⟩ | ⟨hshared, _⟩
    · rw [((Mapping.writes_eq hkind).mp hwrites).1] at hborrowed
      cases hborrowed
    · rw [hprivate] at hshared
      cases hshared

/-- A store through a mapping that may be written changes one private byte at most. -/
theorem Steady.privateCell_stored (hsteady : Steady held state)
    (hwithin : Within state context vaddr id loan lender) (hwrites : loan.writes = true)
    {other otherVaddr : Nat} (hother : other ≠ kernelContext) :
    privateCell (state.stored (state.place lender (vaddr - loan.vaddr)) byte) other otherVaddr =
      if other = context ∧ otherVaddr = vaddr then
        (privateCell state other otherVaddr).map fun cell => { cell with byte }
      else privateCell state other otherVaddr := by
  obtain ⟨windows, _, hsettled⟩ := hsteady.settled
  have hafter : Settled windows held
      (state.stored (state.place lender (vaddr - loan.vaddr)) byte) := hsettled.store _
  have hbyte : ∀ {otherId root : Nat} {found : Mapping},
      Within state other otherVaddr otherId found root → found.protection.shared = false →
      Function.update state.memory (state.place lender (vaddr - loan.vaddr)) byte
        (state.place root (otherVaddr - found.vaddr)) =
      if other = context ∧ otherVaddr = vaddr then byte
        else state.memory (state.place root (otherVaddr - found.vaddr)) := by
    intro otherId root found hthere hprivate
    split
    next heq =>
      obtain ⟨rfl, rfl⟩ := heq
      obtain ⟨_, rfl, rfl⟩ := hsettled.within_unique hwithin hthere
      rw [Function.update_self]
    next hne =>
      rw [Function.update_of_ne]
      exact fun hsame => hne (hsteady.sole hwithin hwrites hthere hprivate hsame)
  cases hbefore : privateCell state other otherVaddr with
  | none =>
      have hnone : privateCell (state.stored (state.place lender (vaddr - loan.vaddr)) byte)
          other otherVaddr = none := by
        rw [Option.eq_none_iff_forall_ne_some]
        intro cell hcell
        obtain ⟨otherId, found, root, ⟨hlive, hhome, hlow, hhigh, hroot⟩, hprivate, _⟩ :=
          (privateCell_eq_some hafter hother).mp hcell
        rw [(privateCell_eq_some hsettled hother).mpr
          ⟨otherId, found, root, ⟨hlive, hhome, hlow, hhigh, hroot⟩, hprivate, rfl⟩] at hbefore
        cases hbefore
      rw [hnone]
      split <;> rfl
  | some before =>
      obtain ⟨otherId, found, root, hthere, hprivate, rfl⟩ :=
        (privateCell_eq_some hsettled hother).mp hbefore
      rw [(privateCell_eq_some hafter hother).mpr ⟨otherId, found, root, ⟨hthere.live, hthere.home,
        hthere.low, hthere.high, hthere.lender⟩, hprivate, rfl⟩]
      show some (Cell.mk (Function.update state.memory _ byte (state.place root _)) _) = _
      rw [hbyte hthere hprivate]
      split <;> rfl

/-- A store that the page table lets through. -/
theorem Steady.stored (hsteady : Steady held state) (huser : context ≠ kernelContext) {paddr : Nat}
    (hstorable : storable state context vaddr = some paddr) (byte : UInt8) :
    Steady held (state.stored paddr byte) ∧
      memories (state.stored paddr byte) =
        apply (memories state) (.store context vaddr byte) := by
  have hsteady' := hsteady
  obtain ⟨⟨windows, hempty, hsettled⟩, hseparated⟩ := hsteady
  obtain ⟨id, loan, lender, hwithin, hwrites, rfl⟩ :=
    (storable_eq_some hsettled huser (hempty context huser)).mp hstorable
  have hmapping := State.loan?_eq_some.mp hwithin.live
  have hwritable := ((Mapping.writes_eq hmapping.2).mp hwrites).2
  have hpresent : (state.contexts context).isSome := by
    rw [← hwithin.home]
    exact hsettled.counted.context id loan hmapping.1
  have hafter : ((state.stored (state.place lender (vaddr - loan.vaddr)) byte).contexts
      context).isSome := hpresent
  refine ⟨⟨⟨windows, hempty, hsettled.store _⟩, hseparated.frames, hseparated.compatible⟩,
    Function.eq_update_iff.mpr ⟨?_, ?_⟩⟩
  · rw [memories_present huser hafter, memories_present huser hpresent, Option.map_some]
    congr 1
    funext otherVaddr
    rw [hsteady'.privateCell_stored hwithin hwrites huser]
    by_cases heq : otherVaddr = vaddr
    · subst heq
      simp only [storeCell, and_self, if_true]
      cases hbefore : privateCell state context otherVaddr with
      | none => rfl
      | some cell =>
          obtain ⟨otherId, found, root, hthere, hprivate, rfl⟩ :=
            (privateCell_eq_some hsettled huser).mp hbefore
          obtain ⟨_, rfl, rfl⟩ := hsettled.within_unique hwithin hthere
          simp [hwritable]
    · simp [storeCell, heq]
  · intro other hne
    refine memories_congr other rfl fun hother otherVaddr cell => ?_
    rw [hsteady'.privateCell_stored hwithin hwrites hother, if_neg fun h => hne h.1]

/-- A store that no mapping allows changes nothing. -/
theorem Steady.refused (hsteady : Steady held state) (huser : context ≠ kernelContext)
    (hrefused : storable state context vaddr = none)
    (hunborrowed : ∀ id loan lender, Within state context vaddr id loan lender →
      loan.isBorrowed = false) (byte : UInt8) :
    memories state = apply (memories state) (.store context vaddr byte) := by
  obtain ⟨⟨windows, hempty, hsettled⟩, _⟩ := hsteady
  refine (apply_store_of_readOnly ?_).symm
  intro memory cell hmemory hcell
  have hpresent : (state.contexts context).isSome := by
    by_contra habsent
    rw [memories_absent (by simpa using habsent)] at hmemory
    cases hmemory
  cases (memories_present huser hpresent).symm.trans hmemory
  obtain ⟨id, loan, lender, hwithin, _, rfl⟩ := (privateCell_eq_some hsettled huser).mp hcell
  by_contra hwritable
  have hkind := (State.loan?_eq_some.mp hwithin.live).2
  have hwrites : loan.writes = true :=
    (Mapping.writes_eq hkind).mpr ⟨hunborrowed id loan lender hwithin, by simpa using hwritable⟩
  rw [(storable_eq_some hsettled huser (hempty context huser)).mpr
    ⟨id, loan, lender, hwithin, hwrites, rfl⟩] at hrefused
  cases hrefused

end Store

end PKernel.Pman
