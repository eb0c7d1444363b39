import PKernel.Processes.PrivateMemories
import Mathlib.Data.List.MinMax

/-! # Copy on write is not noticed

Processes are made, get pages, fork, store and exit, in any order. Mappings are lent out,
borrowed, unshared and copied behind the scenes; what the processes have in their private mappings
is at every time what they would have if `process_create_fork` copied all private pages at once and
each process had pages of its own.
-/

namespace PKernel.Pman

open Library.PrivateMemory Library.Transition
open Library.Lookup
open Function (update update_of_ne update_self)

/-! ## The code -/

section Code

variable (palloc : State → Nat → Option (List Nat))

/-- The calls by which `process_create_segment`, `syscall_map` and `thread_create_user` give pages
to a process: the address at which the kernel has them, and the mapping of the process. -/
def givePages (state : State) (context vaddr size : Nat) (protection : Protection) :
    Except Fault (Nat × Nat × State) := do
  let (kernelMapping, state) ← addAlloc palloc state kernelContext ⟨true, false, false, false⟩ 0 size
  let (userMapping, state) ← addShared state context protection kernelMapping vaddr
  let state ← unmap state kernelMapping
  let mapping ← state.mapping kernelMapping
  return (mapping.vaddr, userMapping, state)

/-- What `pman_page_fault_handler` does to the mappings of a process. -/
def faultPaging (state : State) (context vaddr : Nat) : Except Fault State := do
  match ← getVaddr state context vaddr with
  | none => return state
  | some mapping =>
      let (_, state) ← preparedMapping palloc state mapping
      return state

/-- A store of a process. One that faults is tried again when the handler has returned. -/
def userStore (state : State) (context vaddr : Nat) (byte : UInt8) : Except Fault State :=
  match storable state context vaddr with
  | some paddr => .ok (state.stored paddr byte)
  | none => do
      let state ← faultPaging palloc state context vaddr
      match storable state context vaddr with
      | some paddr => return state.stored paddr byte
      | none => return state

end Code

/-- The handler, as far as the mappings go. -/
theorem pageFaultHandler_paging {palloc : State → Nat → Option (List Nat)} {sigCount sigPage : Nat}
    {current after : Current} {vaddr : Nat}
    (hreturn : pageFaultHandler palloc sigCount sigPage current vaddr = .ok after) :
    faultPaging palloc current.paging current.pagingContext vaddr = .ok after.paging := by
  obtain ⟨inside, hinside, hcall⟩ := bind_eq_ok.mp hreturn
  unfold faultPaging
  rw [hinside, ok_bind]
  cases inside with
  | none =>
      obtain ⟨⟨sent, process, threads⟩, _, hcall⟩ := bind_eq_ok.mp hcall
      cases hcall
      rfl
  | some id =>
      obtain ⟨⟨prepared, paging⟩, hprepared, hcall⟩ := bind_eq_ok.mp hcall
      cases prepared with
      | none =>
          obtain ⟨⟨user, state⟩, _, hnone⟩ := bind_eq_ok.mp hprepared
          cases hnone
      | some user =>
          cases hcall
          simp only [hprepared, ok_bind, pure_eq_ok]

/-! ## Stores -/

section Store

variable {palloc : State → Nat → Option (List Nat)} {state next : State} {held : List Nat}
  {context vaddr : Nat} {byte : UInt8}

/-- After a fault the mapping at the address, if there is one, is not borrowed. -/
theorem Steady.faultPaging (hsteady : Steady held state) (hexact : Exact palloc)
    (hfresh : Fresh palloc) (huser : context ≠ kernelContext)
    (hcall : Pman.faultPaging palloc state context vaddr = .ok next) :
    Steady held next ∧ memories next = memories state ∧
      ∀ id loan lender, Within next context vaddr id loan lender → loan.isBorrowed = false := by
  have hsteady' := hsteady
  obtain ⟨⟨windows, hempty, hsettled⟩, hseparated⟩ := hsteady
  obtain ⟨inside, hinside, hcall⟩ := bind_eq_ok.mp hcall
  obtain ⟨target, htarget, _⟩ := bind_eq_ok.mp hinside
  rcases getVaddr_cases vaddr hsettled.laidOut (State.context_eq_ok.mp htarget) with
    ⟨id, loan, hget, hholds⟩ | ⟨hget, hnone⟩
  · obtain rfl : inside = some id := Except.ok.inj (hinside.symm.trans hget)
    obtain ⟨lender, hwithin⟩ := hsettled.within huser hholds
    obtain ⟨⟨prepared, paging⟩, hprepared, hcall⟩ := bind_eq_ok.mp hcall
    cases hcall
    obtain ⟨⟨user, after⟩, hprepare, hprepared⟩ := bind_eq_ok.mp hprepared
    obtain ⟨_, rfl⟩ := Prod.mk.inj (Except.ok.inj hprepared)
    cases hborrowed : loan.isBorrowed with
    | true =>
        have hkind : loan.kind = .borrowed lender := by
          have hlender := hwithin.lender
          unfold Mapping.isBorrowed at hborrowed
          split at hborrowed
          next other hother =>
            rw [hother] at hlender
            rw [hother, Option.some.inj hlender]
          all_goals cases hborrowed
        obtain ⟨user', after', hreturn, hnext, hsame, rootId, hnew⟩ :=
          hsteady'.prepareWrite hexact hfresh hwithin.live hkind fun root =>
            hsettled.allocates_of_prepareWrite hwithin.live hkind hprepare
        obtain ⟨rfl, rfl⟩ : user' = user ∧ after' = after :=
          Prod.mk.inj (Except.ok.inj (hreturn.symm.trans hprepare))
        refine ⟨hnext, hsame, ?_⟩
        intro other found root hother
        obtain ⟨_, _, hafter⟩ := hnext.settled
        have hthere : Within after' context vaddr user' { loan with kind := .shared rootId } rootId :=
          ⟨hnew, hwithin.home, hwithin.low, hwithin.high, rfl⟩
        obtain ⟨_, rfl, _⟩ := hafter.within_unique hthere hother
        rfl
    | false =>
        obtain ⟨mapping, hmapping, ⟨_, _, rfl⟩ | ⟨other, _, _, hkind, _⟩⟩ :=
          prepareWrite_eq_ok hprepare
        · refine ⟨hsteady', rfl, ?_⟩
          intro other found root hother
          obtain ⟨_, rfl, _⟩ := hsettled.within_unique hwithin hother
          exact hborrowed
        · cases hholds.live.symm.trans hmapping
          rw [Mapping.isBorrowed, hkind] at hborrowed
          cases hborrowed
  · obtain rfl : inside = none := Except.ok.inj (hinside.symm.trans hget)
    cases hcall
    exact ⟨hsteady', rfl, fun id loan lender hwithin => absurd hwithin.holds (hnone id loan)⟩

/-- A store, with the fault that it may lead to, is a store in a memory that nobody shares. -/
theorem Steady.userStore (hsteady : Steady held state) (hexact : Exact palloc)
    (hfresh : Fresh palloc) (huser : context ≠ kernelContext)
    (hcall : Pman.userStore palloc state context vaddr byte = .ok next) :
    Steady held next ∧ memories next = apply (memories state) (.store context vaddr byte) := by
  unfold Pman.userStore at hcall
  split at hcall
  next paddr hstorable =>
    cases hcall
    exact hsteady.stored huser hstorable byte
  next =>
    obtain ⟨after, hfault, hcall⟩ := bind_eq_ok.mp hcall
    obtain ⟨hafter, hsame, hunborrowed⟩ := hsteady.faultPaging hexact hfresh huser hfault
    rw [← hsame]
    split at hcall
    next paddr hstorable =>
      cases hcall
      exact hafter.stored huser hstorable byte
    next hrefused =>
      cases hcall
      exact ⟨hafter, hafter.refused huser hrefused hunborrowed byte⟩

end Store

/-! ## The end of a process -/

section Exit

variable {state next : State} {held : List Nat} {context : Nat} {target : Context}

/-- What is left of the windows is what was there of them. -/
theorem TornDown.settled {windows : Nat → List (Nat × Nat)} (hsettled : Settled windows held state)
    (hempty : ∀ context, context ≠ kernelContext → windows context = [])
    (hnext : Sound held next) (htorn : TornDown held context target state next) :
    ∃ windows, (∀ context, context ≠ kernelContext → windows context = []) ∧
      Settled windows held next := by
  obtain ⟨left, hleft⟩ := hnext.laidOut
  refine ⟨fun context => if context = kernelContext then left context else [],
    fun context hcontext => if_neg hcontext, hnext.counted, ⟨hleft.wellFormed, hleft.nodup,
    hleft.listed, ?_, ?_, hleft.loanSize⟩, hnext.mirrored, hnext.rooted⟩
  · intro other found hfound
    by_cases hkernel : other = kernelContext
    · rw [if_pos hkernel]
      exact hleft.ranges other found hfound
    · have hother : other ≠ context := by
        rintro rfl
        rw [htorn.absent] at hfound
        cases hfound
      rw [htorn.others other hother hkernel] at hfound
      have hperm := hsettled.laidOut.ranges other found hfound
      rw [hempty other hkernel] at hperm
      rw [if_neg hkernel]
      have hsame : found.mappings.map next.range = found.mappings.map state.range := by
        apply List.map_congr_left
        intro id hid
        obtain ⟨mapping, hmapping, hhome⟩ :=
          (hsettled.laidOut.listed other found hfound id).mp hid
        have hloan := (State.loan?_eq_some.mp (hsettled.loan_of_user hmapping (hhome ▸ hkernel))).2
        rw [State.range, State.range, htorn.loans id mapping hmapping hloan (hhome ▸ hother),
          hmapping]
      rwa [hsame]
  · intro other hother
    obtain ⟨hnone, hwindows⟩ := hleft.freshContext other hother
    refine ⟨hnone, ?_⟩
    split
    · exact hwindows
    · rfl

/-- With a process its memory is gone, and no other. -/
theorem Steady.exit (hsteady : Steady held state) (huser : context ≠ kernelContext)
    (hcall : freeContext state context = .ok next) :
    Steady held next ∧ memories next = apply (memories state) (.discard context) := by
  have hsteady' := hsteady
  obtain ⟨⟨windows, hempty, hsettled⟩, hseparated⟩ := hsteady
  obtain ⟨last, hloop, hlast⟩ := bind_eq_ok.mp hcall
  obtain ⟨target, htarget, _⟩ := bind_eq_ok.mp hloop
  have htarget := State.context_eq_ok.mp htarget
  obtain ⟨after, hcall', hnext, htorn⟩ := hsettled.sound.freeContext huser htarget
  obtain rfl : after = next := Except.ok.inj (hcall'.symm.trans hcall)
  have hrecounted : Recounted state after := by
    cases hlast
    exact (unmapAll_recounted hloop).trans (.of_sub fun _ _ h => h)
  have hleft := htorn.settled hsettled hempty hnext
  have hloans : ∀ id loan, after.loan? id = some loan ↔
      state.loan? id = some loan ∧ loan.context ≠ context := by
    intro id loan
    constructor
    · intro hloan
      obtain ⟨hmapping, hkind⟩ := State.loan?_eq_some.mp hloan
      obtain ⟨before, references, hbefore, rfl⟩ := hrecounted id loan hmapping
      have hbeforeKind : before.kind.isRoot = false := by
        simpa [Mapping.withReferences] using hkind
      rw [Mapping.withReferences_loan hbeforeKind] at hmapping ⊢
      exact ⟨State.loan?_eq_some.mpr ⟨hbefore, hbeforeKind⟩, htorn.removed id before hmapping⟩
    · rintro ⟨hloan, hhome⟩
      obtain ⟨hmapping, hkind⟩ := State.loan?_eq_some.mp hloan
      exact State.loan?_eq_some.mpr ⟨htorn.loans id loan hmapping hkind hhome, hkind⟩
  have hafter : Steady held after := ⟨hleft, hseparated.frames.left (.of_recounted hrecounted),
    hseparated.compatible.sub fun id loan hloan => ((hloans id loan).mp hloan).1⟩
  refine ⟨hafter, Function.eq_update_iff.mpr ⟨memories_absent htorn.absent, ?_⟩⟩
  intro other hother
  refine hsteady'.memories_eq hafter ?_ (fun share hthere _ => ?_) fun share _ _ hshare =>
    hafter.alike hshare (.of_recounted hrecounted) htorn.memory
  · by_cases hkernel : other = kernelContext
    · rw [hkernel, hnext.rooted.kernel, hsettled.rooted.kernel]
    · rw [htorn.others other hother hkernel]
  · constructor
    · rintro ⟨id, loan, hloan, rfl⟩
      exact ⟨id, loan, ((hloans id loan).mp hloan).1, rfl⟩
    · rintro ⟨id, loan, hloan, rfl⟩
      have hhome : loan.context ≠ context := fun heq => hother (hthere.symm.trans heq)
      exact ⟨id, loan, (hloans id loan).mpr ⟨hloan, hhome⟩, rfl⟩

end Exit

/-! ## New pages -/

/-- What is at the addresses of a new mapping whose pages have these bytes. -/
def Mapping.cells (loan : Mapping) (contents : Nat → UInt8) (vaddr : Nat) : Option (Cell UInt8) :=
  if loan.protection.shared = false ∧ loan.vaddr ≤ vaddr ∧
      vaddr < loan.vaddr + loan.sizePages * pageSize then
    some ⟨contents (vaddr - loan.vaddr), loan.protection.write⟩
  else none

section Pages

variable {palloc : State → Nat → Option (List Nat)} {state next : State} {held : List Nat}
  {context vaddr size kernVaddr user lender : Nat} {protection : Protection}

/-- A mapping of a root that nobody else has, behind the address at which the kernel has it. -/
structure Given (held : List Nat) (state : State) (context kernVaddr user : Nat) (next : State) :
    Prop where
  steady : Steady held next
  fresh : state.loan? user = none
  present : ∀ other, (next.contexts other).isSome = (state.contexts other).isSome
  loan : ∃ loan rootId root, loan.kind.lender? = some rootId ∧ loan.context = context ∧
    next.loan? = update state.loan? user (some loan) ∧
    next.mappings rootId = some root ∧ root.kind.isRoot = true ∧ root.vaddr = kernVaddr ∧
    root.sizePages = loan.sizePages ∧
    ∀ other found, state.loan? other = some found → found.kind.lender? ≠ some rootId
  roots : ∀ other found, state.loan? other = some found → ∀ lender,
    found.kind.lender? = some lender → ∀ offset,
      next.place lender offset = state.place lender offset
  memory : next.memory = state.memory

theorem Steady.givePages (hsteady : Steady held state) (hexact : Exact palloc)
    (hfresh : Fresh palloc) (huser : context ≠ kernelContext) (hsize : size < 2 ^ 64)
    (hplaceable : ∀ target, state.contexts context = some target →
      Placeable target.regions vaddr (divUp size pageSize) false)
    (hcall : Pman.givePages palloc state context vaddr size protection =
      .ok (kernVaddr, user, next)) :
    Given held state context kernVaddr user next := by
  obtain ⟨⟨windows, hempty, hsettled⟩, hseparated⟩ := hsteady
  obtain ⟨⟨rootId, allocated⟩, halloc, hcall⟩ := bind_eq_ok.mp hcall
  obtain ⟨⟨userId, shared⟩, hshare, hcall⟩ := bind_eq_ok.mp hcall
  obtain ⟨after, hdrop, hcall⟩ := bind_eq_ok.mp hcall
  obtain ⟨mapping, hmapping, hcall⟩ := bind_eq_ok.mp hcall
  simp only [pure_eq_ok, Except.ok.injEq, Prod.mk.injEq] at hcall
  obtain ⟨rfl, rfl, rfl⟩ := hcall
  have hmapping := State.mapping_eq_ok.mp hmapping
  -- the kernel's root, which is fresh
  obtain ⟨hallocated, hnew⟩ := hsettled.addAlloc hexact hsize halloc
  have hapart := hseparated.frames.addAlloc hfresh hsettled.counted halloc
  obtain ⟨root, hroot, hisRoot, hrootSize, _⟩ := hnew.root
  -- the loan of it
  have hshared : Settled windows (rootId :: held) shared := by
    refine hallocated.addLoan_settled (fun _ => rfl) (fun _ _ _ => rfl) hroot ?_ hshare
    intro target htarget
    rw [hnew.contexts context huser] at htarget
    rw [hrootSize]
    exact hplaceable target htarget
  obtain ⟨start, hlends, _⟩ :=
    addLoan_lends (fun _ => rfl) hallocated.counted hroot hisRoot hshare
  obtain ⟨after', hdrop', hnext, hreleased, hleaves⟩ := hshared.release
  obtain rfl := Except.ok.inj (hdrop'.symm.trans hdrop)
  have hunlent : ∀ other found, state.loan? other = some found →
      found.kind.lender? ≠ some rootId := by
    intro other found hfound hlender
    obtain ⟨lent, hlent, _⟩ :=
      hsettled.counted.lender other found rootId (State.loan?_eq_some.mp hfound).1 hlender
    rw [hnew.fresh] at hlent
    cases hlent
  have hloans : after'.loan? = update state.loan? userId
      (some ⟨context, protection, start, root.sizePages, .shared rootId⟩) := by
    rw [hreleased, hlends.loans, hnew.loans]
  have hleaves := hlends.leaves.trans hleaves
  have hleft : RootsLeft allocated after' := hleaves.roots
  have hlive : after'.loan? userId =
      some ⟨context, protection, start, root.sizePages, .shared rootId⟩ := by
    rw [hloans, update_self]
  obtain ⟨lender, left, hlender, hleftRoot, hleftIsRoot, hleftSize, _⟩ := hnext.lender hlive
  obtain rfl : rootId = lender := Option.some.inj hlender
  cases hmapping.symm.trans hleftRoot
  have hcompatible : Compatible held after'.loan? := by
    rw [hloans]
    refine hseparated.compatible.insert ?_ (fun hborrowed => by cases hborrowed) ?_
    · intro other found lender _ hfound hfoundLender hown
      exact absurd (hfoundLender.trans hown.symm) (hunlent other found hfound)
    · intro lender hown hmem
      obtain rfl : rootId = lender := Option.some.inj hown
      obtain ⟨found, hfound, _⟩ := hsettled.counted.held _ hmem
      rw [hnew.fresh] at hfound
      cases hfound
  constructor
  case steady => exact ⟨⟨windows, hempty, hnext⟩, hapart.left hleft, hcompatible⟩
  case fresh => rw [← hnew.loans, hlends.fresh]
  case present =>
    intro other
    rw [hleaves.present]
    by_cases hkernel : other = kernelContext
    · rw [hkernel, hallocated.rooted.kernel, hsettled.rooted.kernel]
    · rw [hnew.contexts other hkernel]
  case loan =>
    exact ⟨_, rootId, mapping, rfl, rfl, hloans, hmapping, hleftIsRoot, rfl, hleftSize, hunlent⟩
  case roots =>
    intro other found hfound lender hfoundLender offset
    have hne : other ≠ userId := by
      rintro rfl
      rw [← hnew.loans, hlends.fresh] at hfound
      cases hfound
    have hafter : after'.loan? other = some found := by
      rw [hloans, update_of_ne hne, hfound]
    obtain ⟨lender', left', hlent, hleft', hleftIsRoot', _⟩ := hnext.lender hafter
    cases hfoundLender.symm.trans hlent
    obtain ⟨_, _, _, _, hplaces⟩ := hleft.before hleft' hleftIsRoot'
    have hroots : lender ≠ rootId := by
      rintro rfl
      exact hunlent other found hfound hfoundLender
    rw [hplaces, State.place, State.place, hnew.frames lender hroots]
  case memory => rw [hleaves.memory, hnew.memory]

/-- At its address the kernel has the bytes that the process has at its own. -/
theorem Given.reached (hgiven : Given held state context kernVaddr user next) {loan : Mapping}
    (hloan : next.mappings user = some loan) :
    ∃ rootId, loan.kind.lender? = some rootId ∧
      Reached next kernVaddr (loan.sizePages * pageSize) fun i => next.place rootId i := by
  obtain ⟨⟨⟨_, _, hsettled⟩, hseparated⟩, _, _, ⟨made, rootId, root, hlender, _, hloans, hroot,
    hisRoot, hkernVaddr, hsize, _⟩, _, _⟩ := hgiven
  have hlive : next.loan? user = some made := by rw [hloans, update_self]
  cases hloan.symm.trans (State.loan?_eq_some.mp hlive).1
  have hfits : 0 + loan.sizePages * pageSize ≤ root.sizePages * pageSize := by
    rw [hsize]
    omega
  have hreached := hsettled.sound.reached (hseparated.frames.spread hroot) hroot hisRoot hfits
  have hplaces : (fun i => root.place (0 + i)) = fun i => next.place rootId i := by
    funext i
    rw [Nat.zero_add, State.place_eq hroot]
  rw [hplaces, Nat.add_zero, hkernVaddr] at hreached
  exact ⟨rootId, hlender, hreached⟩

/-- The process gets what the kernel puts into the pages, and nobody else does. -/
theorem Given.filled (hgiven : Given held state context kernVaddr user next)
    (hsteady : Steady held state) (huser : context ≠ kernelContext) {loan : Mapping}
    (hloan : next.mappings user = some loan) {memory : Nat → UInt8} {contents : Nat → UInt8}
    (hfilled : ∀ paddr, (∀ i < loan.sizePages * pageSize,
      kernelAddress next (kernVaddr + i) ≠ .ok paddr) → memory paddr = next.memory paddr)
    (hcontents : ∀ i < loan.sizePages * pageSize,
      loadByte { next with memory } (kernVaddr + i) = .ok (contents i)) :
    Steady held { next with memory } ∧
      memories { next with memory } =
        apply (memories state) (.extend context (loan.cells contents)) := by
  obtain ⟨lentId, hlent, hreached⟩ := hgiven.reached hloan
  obtain ⟨⟨⟨windows, hempty, hsettled⟩, hseparated⟩, hfresh, hpresent, ⟨made, rootId, root, hlender,
    hhome, hloans, hroot, hisRoot, _, hsize, hunlent⟩, hroots, hmemory⟩ := hgiven
  have hlive : next.loan? user = some made := by rw [hloans, update_self]
  cases hloan.symm.trans (State.loan?_eq_some.mp hlive).1
  obtain rfl := Option.some.inj (hlender.symm.trans hlent)
  have hafter : Steady held { next with memory } :=
    ⟨⟨windows, hempty, hsettled.store memory⟩, hseparated.frames, hseparated.compatible⟩
  have hhas : ∀ share, ({ next with memory } : State).Has share ↔
      state.Has share ∨ share = loan.share := has_update hfresh hloans
  -- the new share shows what was put into its pages
  have hown : ∀ vaddr cell, loan.share.Shows { next with memory } vaddr cell ↔
      loan.cells contents vaddr = some cell := by
    intro vaddr cell
    have hnew : ∀ i < loan.sizePages * pageSize, memory (next.place rootId i) = contents i := by
      intro i hi
      have hbyte := hcontents i hi
      rw [(hreached.congr memory).loadByte hi] at hbyte
      exact Except.ok.inj hbyte
    unfold Mapping.cells
    constructor
    · rintro ⟨hprivate, hlow, hhigh, lender, hfound, rfl⟩
      cases hlender.symm.trans hfound
      have hin : vaddr - loan.vaddr < loan.sizePages * pageSize :=
        Nat.sub_lt_left_of_lt_add hlow hhigh
      rw [if_pos ⟨hprivate, hlow, hhigh⟩, ← hnew _ hin]
      rfl
    · intro hcells
      split at hcells
      next hin =>
        obtain ⟨hprivate, hlow, hhigh⟩ := hin
        rw [← hnew _ (Nat.sub_lt_left_of_lt_add hlow hhigh), Option.some.injEq] at hcells
        exact ⟨hprivate, hlow, hhigh, rootId, hlender, hcells.symm⟩
      next => cases hcells
  -- and the others show what they have shown
  have hold : ∀ share, state.Has share → share.Alike state { next with memory } := by
    rintro share ⟨other, found, hfound, rfl⟩ lent hfoundLender offset hoffset
    have hne : other ≠ user := by
      rintro rfl
      rw [hfresh] at hfound
      cases hfound
    have hafter : next.loan? other = some found := by
      rw [hloans, update_of_ne hne, hfound]
    obtain ⟨lent', mapping, hlent', hmapping, hmappingRoot, hmappingSize, _⟩ :=
      hsettled.lender hafter
    obtain rfl : lent = lent' := Option.some.inj (hfoundLender.symm.trans hlent')
    show memory (next.place lent offset) = _
    rw [hfilled, hmemory, hroots other found hfound lent hfoundLender]
    intro i hi haddress
    rw [hreached.address i hi, Except.ok.injEq] at haddress
    obtain ⟨rfl, _⟩ := hsettled.place_injective hseparated.frames hroot hisRoot hmapping
      hmappingRoot (by rw [hsize]; exact hi) (by rw [hmappingSize]; exact hoffset) haddress
    exact hunlent other found hfound hfoundLender
  have hthereAfter : (({ next with memory } : State).contexts context).isSome := by
    rw [← hhome]
    exact hsettled.counted.context user loan hloan
  have hthere : (state.contexts context).isSome := by
    rw [← hpresent]
    exact hthereAfter
  refine ⟨hafter, Function.eq_update_iff.mpr ⟨?_, fun other hne => ?_⟩⟩
  · rw [memories_present huser hthereAfter, memories_present huser hthere, Option.map_some]
    congr 1
    funext vaddr
    cases hcells : loan.cells contents vaddr with
    | some cell =>
        rw [Option.some_or]
        exact (hafter.cell_iff huser).mpr
          ⟨loan.share, (hhas _).mpr (.inr rfl), hhome, (hown vaddr cell).mpr hcells⟩
    | none =>
        rw [Option.none_or]
        refine Option.ext fun cell => ?_
        rw [hafter.cell_iff huser, hsteady.cell_iff huser]
        constructor
        · rintro ⟨share, hshare, hthere, hshow⟩
          rcases (hhas share).mp hshare with hshare | rfl
          · exact ⟨share, hshare, hthere, (hold share hshare).shows_iff.mp hshow⟩
          · rw [(hown vaddr cell).mp hshow] at hcells
            cases hcells
        · rintro ⟨share, hshare, hthere, hshow⟩
          exact ⟨share, (hhas share).mpr (.inl hshare), hthere,
            (hold share hshare).shows_iff.mpr hshow⟩
  · have hother : ∀ share : Share, share.context = other →
        (({ next with memory } : State).Has share ↔ state.Has share) := by
      intro share hthere
      refine (hhas share).trans (or_iff_left ?_)
      rintro rfl
      exact hne (hthere.symm.trans hhome)
    exact hsteady.memories_eq hafter (hpresent other) (fun share hthere _ => hother share hthere)
      fun share hthere _ hshare => hold share ((hother share hthere).mp hshare)

/-- A root that the kernel holds on to is lent to be shared. -/
theorem Steady.lend (hsteady : Steady held state) (hmem : lender ∈ held)
    (hshared : protection.shared = true)
    (hplaceable : ∀ target root, state.contexts context = some target →
      state.mappings lender = some root → Placeable target.regions vaddr root.sizePages false)
    (hcall : addShared state context protection lender vaddr = .ok (user, next)) :
    Steady held next ∧ memories next = memories state := by
  have hsteady' := hsteady
  obtain ⟨⟨windows, hempty, hsettled⟩, hseparated⟩ := hsteady
  obtain ⟨root, hroot, hisRoot⟩ := hsettled.counted.held lender hmem
  have hnext : Settled windows held next := hsettled.addLoan_settled (fun _ => rfl)
    (fun _ _ _ => rfl) hroot (fun target htarget => hplaceable target root htarget hroot) hcall
  obtain ⟨start, hlends, _⟩ :=
    addLoan_lends (fun _ => rfl) hsettled.counted hroot hisRoot hcall
  have hcompatible : Compatible held next.loan? := by
    rw [hlends.loans]
    refine hseparated.compatible.insert ?_ (fun hborrowed => by cases hborrowed) fun _ _ _ => hshared
    intro other found root _ hfound hfoundLender hown
    obtain rfl : lender = root := Option.some.inj hown
    exact .inr ⟨hshared, hseparated.compatible.held other found lender hfound hfoundLender hmem⟩
  have hafter : Steady held next :=
    ⟨⟨windows, hempty, hnext⟩, hseparated.frames.left hlends.leaves.roots, hcompatible⟩
  refine ⟨hafter, funext fun other => ?_⟩
  refine hsteady'.memories_eq hafter (hlends.leaves.present other) (fun share _ hprivate => ?_)
    fun share _ _ hshare => hafter.alike hshare hlends.leaves.roots hlends.leaves.memory
  rw [has_update hlends.fresh hlends.loans]
  refine or_iff_left ?_
  rintro rfl
  rw [show (Mapping.share _).protection.shared = protection.shared from rfl, hshared] at hprivate
  cases hprivate

/-- The kernel leaves alone what is behind the private mappings. -/
def Spares (state : State) (memory : Nat → UInt8) : Prop :=
  ∀ id loan lender, state.loan? id = some loan → loan.protection.shared = false →
    loan.kind.lender? = some lender → ∀ offset < loan.sizePages * pageSize,
      memory (state.place lender offset) = state.memory (state.place lender offset)

theorem Steady.spared (hsteady : Steady held state) {memory : Nat → UInt8}
    (hspares : Spares state memory) :
    Steady held { state with memory } ∧ memories { state with memory } = memories state := by
  have hsteady' := hsteady
  obtain ⟨⟨windows, hempty, hsettled⟩, hseparated⟩ := hsteady
  have hafter : Steady held { state with memory } :=
    ⟨⟨windows, hempty, hsettled.store memory⟩, hseparated.frames, hseparated.compatible⟩
  refine ⟨hafter, funext fun other => hsteady'.memories_eq hafter rfl (fun _ _ _ => Iff.rfl) ?_⟩
  rintro share _ hprivate ⟨id, loan, hlive, rfl⟩ lender hlender offset hoffset
  exact hspares id loan lender hlive hprivate hlender offset hoffset

end Pages

/-! ## Runs -/

/-- What the processes and the kernel do, with what it is to look like. -/
inductive ProcessStep (palloc : State → Nat → Option (List Nat)) (held : List Nat) :
    State → Action Nat Nat UInt8 → State → Prop
  | create {state : State} :
      ProcessStep palloc held state (.create (newContext state).1) (newContext state).2
  /-- A process gets pages, which the kernel may fill before the process runs on. -/
  | give {state next : State} {context vaddr size kernVaddr user : Nat} {protection : Protection}
      {loan : Mapping} {memory contents : Nat → UInt8} (huser : context ≠ kernelContext)
      (hsize : size < 2 ^ 64)
      (hplaceable : ∀ target, state.contexts context = some target →
        Placeable target.regions vaddr (divUp size pageSize) false)
      (hcall : givePages palloc state context vaddr size protection = .ok (kernVaddr, user, next))
      (hloan : next.mappings user = some loan)
      (hfilled : ∀ paddr, (∀ i < loan.sizePages * pageSize,
        kernelAddress next (kernVaddr + i) ≠ .ok paddr) → memory paddr = next.memory paddr)
      (hcontents : ∀ i < loan.sizePages * pageSize,
        loadByte { next with memory } (kernVaddr + i) = .ok (contents i)) :
      ProcessStep palloc held state (.extend context (loan.cells contents)) { next with memory }
  | lend {state next : State} {context lender vaddr user : Nat} {protection : Protection}
      (hmem : lender ∈ held) (hshared : protection.shared = true)
      (hplaceable : ∀ target root, state.contexts context = some target →
        state.mappings lender = some root → Placeable target.regions vaddr root.sizePages false)
      (hcall : addShared state context protection lender vaddr = .ok (user, next)) :
      ProcessStep palloc held state .silent next
  | fork {state next : State} {parent child : Nat} (huser : parent ≠ kernelContext)
      (hpresent : (state.contexts parent).isSome)
      (hcall : processCreateFork state parent = .ok (child, next)) :
      ProcessStep palloc held state (.copy parent child) next
  | store {state next : State} {context vaddr : Nat} {byte : UInt8}
      (huser : context ≠ kernelContext)
      (hcall : userStore palloc state context vaddr byte = .ok next) :
      ProcessStep palloc held state (.store context vaddr byte) next
  | exit {state next : State} {context : Nat} (huser : context ≠ kernelContext)
      (hcall : freeContext state context = .ok next) :
      ProcessStep palloc held state (.discard context) next
  | kernel {state : State} {memory : Nat → UInt8} (hspares : Spares state memory) :
      ProcessStep palloc held state .silent { state with memory }

/-- The kernel before the first process: it may hold roots, whose frames are apart. -/
structure Unpeopled (held : List Nat) (state : State) : Prop where
  sound : Sound held state
  alone : state.nextContext = 1
  frames : FramesApart state
  unlent : ∀ id, state.loan? id = none

/-- Runs of processes that share pages. -/
def processes (palloc : State → Nat → Option (List Nat)) (held : List Nat) :
    System State (Action Nat Nat UInt8) where
  init := Unpeopled held
  step := ProcessStep palloc held

section Runs

variable {palloc : State → Nat → Option (List Nat)} {held : List Nat} {state next : State}
  {label : Action Nat Nat UInt8} {labels : List (Action Nat Nat UInt8)}

theorem Unpeopled.steady (hunpeopled : Unpeopled held state) :
    Steady held state ∧ memories state = fun _ => none := by
  obtain ⟨hsound, halone, hframes, hunlent⟩ := hunpeopled
  obtain ⟨windows, hsettled⟩ := hsound.settled
  have hfresh : ∀ context, context ≠ kernelContext →
      state.contexts context = none ∧ windows context = [] := by
    intro context huser
    refine hsettled.laidOut.freshContext context ?_
    rw [halone]
    exact Nat.one_le_iff_ne_zero.mpr huser
  refine ⟨⟨⟨windows, fun context huser => (hfresh context huser).2, hsettled⟩, hframes, ?_⟩, ?_⟩
  · refine ⟨fun first _ loan _ _ _ hloan => ?_, fun id loan hloan => ?_,
      fun id loan _ hloan => ?_⟩ <;> simp [hunlent] at hloan
  · funext context
    by_cases huser : context = kernelContext
    · rw [huser, memories_kernel]
    · exact memories_absent (hfresh context huser).1

/-- One step, in both machines. -/
theorem ProcessStep.spec (hexact : Exact palloc) (hfresh : Fresh palloc)
    (hsteady : Steady held state) (hstep : ProcessStep palloc held state label next) :
    Steady held next ∧ memories next = apply (memories state) label := by
  cases hstep with
  | create => exact ⟨hsteady.newContext, hsteady.memories_newContext⟩
  | give huser hsize hplaceable hcall hloan hfilled hcontents =>
      exact (hsteady.givePages hexact hfresh huser hsize hplaceable hcall).filled hsteady huser
        hloan hfilled hcontents
  | lend hmem hshared hplaceable hcall => exact hsteady.lend hmem hshared hplaceable hcall
  | fork huser hpresent hcall => exact hsteady.fork huser hpresent hcall
  | store huser hcall => exact hsteady.userStore hexact hfresh huser hcall
  | exit huser hcall => exact hsteady.exit huser hcall
  | kernel hspares => exact hsteady.spared hspares

theorem steady_inductive (hexact : Exact palloc) (hfresh : Fresh palloc) :
    (processes palloc held).Inductive (Steady held) where
  init _ hinit := hinit.steady.1
  step _ _ _ hsteady hstep := (ProcessStep.spec hexact hfresh hsteady hstep).1

/-- In every run each process has in its private mappings what it would have if forking copied all
private pages at once. -/
theorem memories_unshared (hexact : Exact palloc) (hfresh : Fresh palloc)
    (htrace : (processes palloc held).Trace labels state) :
    memories state = labels.foldl apply fun _ => none :=
  htrace.view_eq (steady_inductive hexact hfresh) (fun _ hinit => hinit.steady.2)
    fun _ _ _ hsteady hstep => (ProcessStep.spec hexact hfresh hsteady hstep).2

/-! ## What always goes through -/

theorem Steady.userStore_returns {context vaddr : Nat} (hsteady : Steady held state)
    (hexact : Exact palloc) (hfresh : Fresh palloc) (huser : context ≠ kernelContext)
    (hpresent : (state.contexts context).isSome)
    (hsupplied : ∀ id loan, Holds state context vaddr id loan →
      Supplied palloc state loan.sizePages) (byte : UInt8) :
    ∃ next, Pman.userStore palloc state context vaddr byte = .ok next := by
  obtain ⟨windows, _, hsettled⟩ := hsteady.settled
  obtain ⟨target, htarget⟩ := Option.isSome_iff_exists.mp hpresent
  have hfault : ∃ after, Pman.faultPaging palloc state context vaddr = .ok after := by
    rcases getVaddr_cases vaddr hsettled.laidOut htarget with
      ⟨id, loan, hget, hholds⟩ | ⟨hget, _⟩
    · have hloan := hsettled.loan_of_user hholds.live (hholds.home ▸ huser)
      obtain ⟨user, next, hcall⟩ :=
        hsettled.prepareWrite_returns hsteady.separated.frames hexact hfresh hloan
          (hsupplied id loan hholds)
      refine ⟨next, ?_⟩
      simp only [Pman.faultPaging, hget, ok_bind, preparedMapping, hcall, pure_eq_ok]
    · exact ⟨state, by simp only [Pman.faultPaging, hget, ok_bind, pure_eq_ok]⟩
  unfold Pman.userStore
  split
  next => exact ⟨_, rfl⟩
  next =>
    obtain ⟨after, hafter⟩ := hfault
    rw [hafter, ok_bind]
    split <;> exact ⟨_, rfl⟩

end Runs

/-! ## A process and its child -/

/-- The end of the frames of a mapping. -/
def Mapping.top (mapping : Mapping) : Nat :=
  match mapping.kind with
  | .alloc _ paddrs => (paddrs.map (· + pageSize)).foldr max 0
  | .map _ paddr => paddr + mapping.sizePages * pageSize
  | .borrowed _ | .shared _ => 0

/-- The pages above those of all mappings. -/
def pagesAbove (state : State) (count : Nat) : Option (List Nat) :=
  pagesFrom (((List.range state.nextMapping).map fun id =>
    ((state.mappings id).map Mapping.top).getD 0).foldr max 0x5000) state count

theorem Mapping.frame?_le_top {root : Mapping} {page frame : Nat}
    (hframe : root.frame? page = some frame) : frame + pageSize ≤ root.top := by
  unfold Mapping.frame? at hframe
  unfold Mapping.top
  cases hkind : root.kind with
  | alloc references paddrs =>
      simp only [hkind] at hframe
      exact List.le_max_of_le' 0 (List.mem_map_of_mem (List.mem_of_getElem? hframe)) le_rfl
  | map references paddr =>
      simp only [hkind, Option.ite_none_right_eq_some, Option.some.injEq] at hframe
      obtain ⟨hpage, rfl⟩ := hframe
      have hend : (page + 1) * pageSize ≤ root.sizePages * pageSize := Nat.mul_le_mul_right _ hpage
      rw [Nat.add_mul, Nat.one_mul] at hend
      simp only
      omega
  | borrowed lender => simp only [hkind, reduceCtorEq] at hframe
  | shared lender => simp only [hkind, reduceCtorEq] at hframe

theorem pagesAbove_exact : Exact pagesAbove := fun state count paddrs hpaddrs =>
  pagesFrom_exact _ state count paddrs hpaddrs

theorem pagesAbove_fresh : Fresh pagesAbove := by
  intro state held count paddrs hcounted hpaddrs
  cases hpaddrs
  constructor
  · rw [List.pairwise_map]
    refine List.pairwise_lt_range.imp fun {i j} hlt => ?_
    unfold PagesApart pageSize
    omega
  · intro paddr hpaddr id page frame hframe
    obtain ⟨i, _, rfl⟩ := List.mem_map.mp hpaddr
    obtain ⟨root, hroot, hframe⟩ := Option.bind_eq_some_iff.mp hframe
    have hid : id < state.nextMapping := by
      by_contra hge
      rw [hcounted.fresh id (Nat.le_of_not_lt hge)] at hroot
      cases hroot
    have htop := Mapping.frame?_le_top hframe
    have hmem : root.top ∈ (List.range state.nextMapping).map fun id =>
        ((state.mappings id).map Mapping.top).getD 0 :=
      List.mem_map.mpr ⟨id, List.mem_range.mpr hid, by rw [hroot]; rfl⟩
    have := List.le_max_of_le' 0x5000 hmem htop
    unfold PagesApart
    omega

/-- Nothing is mapped, and there is no process. -/
theorem emptyState_unpeopled : Unpeopled [] emptyState := by
  have hreach : (kernelRuns pagesAbove).Reachable ⟨emptyState, []⟩ := .init ⟨emptyState_orderly, rfl⟩
  refine ⟨sound_of_reachable pagesAbove_exact hreach, rfl, ?_, fun _ => rfl⟩
  intro first second i j frame other _ hframe
  cases hframe

/-- A process with one page at 0x8000, and its child, which has stored a byte there. -/
theorem processes_forked : ∃ (loan : Mapping) (contents : Nat → UInt8) (forked stored : State),
    loan.protection = ⟨true, false, false, false⟩ ∧ loan.vaddr = 0x8000 ∧ loan.sizePages = 1 ∧
      (processes pagesAbove []).Trace
        [.create 1, .extend 1 (loan.cells contents), .copy 1 2] forked ∧
      (forked.contexts 2).isSome ∧
      (processes pagesAbove []).Trace
        [.create 1, .extend 1 (loan.cells contents), .copy 1 2, .store 2 0x8123 7] stored := by
  have hcalls : ∃ given loan forked child borrowed target,
      givePages pagesAbove (newContext emptyState).2 1 0x8000 4096 ⟨true, false, false, false⟩ =
        .ok (0, 1, given) ∧
      given.mappings 1 = some loan ∧ loan.protection = ⟨true, false, false, false⟩ ∧
      loan.vaddr = 0x8000 ∧ loan.sizePages = 1 ∧ (given.contexts 1).isSome ∧
      (newContext emptyState).2.contexts 1 = some ⟨Valloc.initial, fun _ => none, []⟩ ∧
      processCreateFork given 1 = .ok (2, forked) ∧
      forked.contexts 2 = some child ∧ child.mappings = [2] ∧
      forked.mappings 2 = some borrowed ∧ borrowed.sizePages = 1 ∧
      forked.contexts kernelContext = some target ∧
      target.regions = [⟨false, 0, 1⟩, ⟨true, 0x1000, 0xFFFFFFFFF⟩] :=
    ⟨_, _, _, _, _, _, rfl, rfl, rfl, rfl, rfl, rfl, rfl, rfl, rfl, rfl, rfl, rfl, rfl, rfl⟩
  obtain ⟨given, loan, forked, child, borrowed, target, hgive, hloan, hprotection, hvaddr,
    hsize, hpresent, hfree, hfork, hchild, hlisted, hborrowed, hborrowedSize, hkernel, hregions⟩ := hcalls
  have hinductive : (processes pagesAbove []).Inductive (Steady []) :=
    steady_inductive pagesAbove_exact pagesAbove_fresh
  have hcreate : ProcessStep pagesAbove [] emptyState (.create 1) (newContext emptyState).2 :=
    .create
  have hinit : (processes pagesAbove []).Trace [] emptyState := .init emptyState_unpeopled
  have hcreated : (processes pagesAbove []).Trace [.create 1] (newContext emptyState).2 :=
    hinit.step hcreate
  have hplaceable : ∀ target, (newContext emptyState).2.contexts 1 = some target →
      Placeable target.regions 0x8000 (divUp 4096 pageSize) false := by
    intro target htarget
    cases hfree.symm.trans htarget
    exact ⟨by decide, .inr ⟨by decide, _, List.mem_cons_self, rfl, by decide, by decide⟩⟩
  obtain ⟨rootId, _, hreached⟩ := ((hcreated.reachable.invariant hinductive).givePages
    pagesAbove_exact pagesAbove_fresh Nat.one_ne_zero (by decide) hplaceable hgive).reached hloan
  have hgiven := hcreated.step (.give Nat.one_ne_zero (by decide) hplaceable hgive hloan
    (fun _ _ => rfl) fun i hi => hreached.loadByte hi)
  have hforked := hgiven.step (.fork Nat.one_ne_zero hpresent hfork)
  have hsteady := hforked.reachable.invariant hinductive
  have hchildPresent : (forked.contexts 2).isSome := by rw [hchild]; rfl
  -- the kernel has addresses left for a copy of the one page of the child
  have hsupplied : ∀ id found, Holds forked 2 0x8123 id found →
      Supplied pagesAbove forked found.sizePages := by
    intro id found hholds
    obtain ⟨windows, _, hsettled⟩ := hsteady.settled
    have hid := (hsettled.laidOut.listed 2 child hchild id).mpr ⟨found, hholds.live, hholds.home⟩
    rw [hlisted, List.mem_singleton] at hid
    subst hid
    cases hborrowed.symm.trans hholds.live
    rw [hborrowedSize]
    refine ⟨Nat.one_pos, rfl, ?_⟩
    intro other hother
    cases hkernel.symm.trans hother
    rw [hregions]
    exact ⟨_, List.mem_cons_of_mem _ List.mem_cons_self, rfl, by decide⟩
  obtain ⟨stored, hstored⟩ := hsteady.userStore_returns pagesAbove_exact pagesAbove_fresh
    (Nat.succ_ne_zero 1) hchildPresent hsupplied 7
  exact ⟨loan, _, forked, stored, hprotection, hvaddr, hsize, hforked, hchildPresent,
    hforked.step (.store (Nat.succ_ne_zero 1) hstored)⟩

/-- The child sees its byte, and the parent what was there before. -/
theorem memories_unshared_forked : ∃ (contents : Nat → UInt8) (state : State),
    (memories state 1).bind (· 0x8123) = some ⟨contents 0x123, true⟩ ∧
      (memories state 2).bind (· 0x8123) = some ⟨7, true⟩ := by
  obtain ⟨loan, contents, _, stored, hprotection, hvaddr, hsize, _, _, htrace⟩ := processes_forked
  have hcell : loan.cells contents 0x8123 = some ⟨contents 0x123, true⟩ := by
    rw [Mapping.cells, hprotection, hvaddr, hsize]
    rfl
  refine ⟨contents, stored, ?_⟩
  rw [memories_unshared pagesAbove_exact pagesAbove_fresh htrace]
  simp [apply, storeCell, update, hcell]

end PKernel.Pman
