import PKernel.Paging.Separation

/-! # The address space of a forked process

`process_create_fork` goes through the mappings of the parent. Private ones become read-only in
both processes: the child gets a borrowed mapping, and the parent another one in place of its own.
Mappings that are to be shared are shared with the child.
-/

namespace PKernel.Pman

open Valloc (Apart)
open Library.Lookup
open Function (update update_comm update_of_ne update_self)

/-! ## The code -/

/-- The second loop of `process_create_fork`, for one mapping. -/
def forkMapping (parent child : Nat) (state : State) (id : Nat) : Except Fault State := do
  let mapping ← state.mapping id
  if mapping.protection.shared then
    match mapping.kind with
    | .shared _ =>
        let root ← state.root id
        let (_, state) ← addShared state child mapping.protection root mapping.vaddr
        return state
    -- "oh dear"
    | .borrowed _ => return state
    | .alloc _ _ | .map _ _ => return state
  else
    let root ← state.root id
    let (_, state) ← addBorrowed state child mapping.protection root mapping.vaddr
    let state ← unmap state id
    let (_, state) ← addBorrowed state parent mapping.protection root mapping.vaddr
    return state

/-- The loop, over the mappings that the first loop has taken down. -/
def forkMappings (parent child : Nat) : List Nat → State → Except Fault State
  | [], state => .ok state
  | id :: ids, state => do
      let state ← forkMapping parent child state id
      forkMappings parent child ids state

/-- `process_create_fork`, as far as the mappings go: the page tables of the new context, the kernel
stack of the new thread and the blocks of the heap are there. -/
def processCreateFork (state : State) (parent : Nat) : Except Fault (Nat × State) := do
  let (child, state) := newContext state
  let target ← state.context parent
  let state ← forkMappings parent child target.mappings state
  return (child, state)

/-! ## What a process has -/

/-- A loan, but for its number and for whether it can be written to yet. -/
structure Share where
  context : Nat
  protection : Protection
  vaddr : Nat
  sizePages : Nat
  lender : Option Nat
deriving DecidableEq

def Mapping.share (loan : Mapping) : Share :=
  ⟨loan.context, loan.protection, loan.vaddr, loan.sizePages, loan.kind.lender?⟩

/-- A process has a share of a root. -/
def State.Has (state : State) (share : Share) : Prop :=
  ∃ id loan, state.loan? id = some loan ∧ loan.share = share

/-- What one turn of the loop changes. -/
structure ForkStep (state : State) (child id : Nat) (loan : Mapping) (next : State) : Prop where
  has : ∀ share, next.Has share ↔
    state.Has share ∨ share = { loan.share with context := child }
  kept : ∀ other found, other ≠ id → state.loan? other = some found →
    next.loan? other = some found
  leaves : Leaves state next

/-- What the loop changes. -/
structure Forked (state : State) (child : Nat) (ids : List Nat) (next : State) : Prop where
  has : ∀ share, next.Has share ↔ state.Has share ∨
    ∃ id ∈ ids, ∃ loan, state.loan? id = some loan ∧
      share = { loan.share with context := child }
  leaves : Leaves state next

section Loans

variable {windows : Nat → List (Nat × Nat)} {state next : State} {held : List Nat}
  {parent child id lender : Nat} {loan root : Mapping}

/-- The loans of a private mapping's root are all borrowed, and can be joined by others. -/
theorem Compatible.fork {loans : Nat → Option Mapping} (hcompatible : Compatible held loans)
    (hloan : loans id = some loan) (hprivate : loan.protection.shared = false)
    (hlender : loan.kind.lender? = some lender) (first second context other : Nat)
    (vaddr sizePages : Nat) :
    Compatible held (update (update (update loans id none) first
      (some ⟨context, loan.protection, vaddr, sizePages, .borrowed lender⟩)) second
      (some ⟨other, loan.protection, vaddr, sizePages, .borrowed lender⟩)) := by
  have hheld : lender ∉ held := by
    intro hmem
    have := hcompatible.held id loan lender hloan hlender hmem
    rw [hprivate] at this
    cases this
  have hborrowed : ∀ other found, other ≠ id → loans other = some found →
      found.kind.lender? = some lender → found.isBorrowed = true := by
    intro other found hne hfound hfoundLender
    rcases hcompatible.pairs id other loan found lender hne.symm hloan hfound hlender hfoundLender
      with ⟨_, hother⟩ | ⟨hshared, _⟩
    · exact hother
    · rw [hprivate] at hshared
      cases hshared
  have hrest : ∀ other found, update loans id none other = some found →
      found.kind.lender? = some lender → found.isBorrowed = true := by
    intro other found hfound hfoundLender
    obtain ⟨hne, hfound⟩ := update_none_eq_some.mp hfound
    exact hborrowed other found hne hfound hfoundLender
  have hown : ∀ lender', some lender = some lender' → lender' ∈ held →
      loan.protection.shared = true := by
    rintro lender' heq hmem
    exact absurd (Option.some.inj heq ▸ hmem) hheld
  have hfirst : Compatible held (update (update loans id none) first
      (some ⟨context, loan.protection, vaddr, sizePages, .borrowed lender⟩)) := by
    refine (hcompatible.erase id).insert ?_ (fun _ => hprivate) hown
    intro other found lender' _ hfound hfoundLender heq
    obtain rfl : lender = lender' := Option.some.inj heq
    exact .inl ⟨rfl, hrest other found hfound hfoundLender⟩
  refine hfirst.insert ?_ (fun _ => hprivate) hown
  intro other found lender' _ hfound hfoundLender heq
  obtain rfl : lender = lender' := Option.some.inj heq
  rcases update_some_eq_some.mp hfound with ⟨_, rfl⟩ | ⟨_, hfound⟩
  · exact .inl ⟨rfl, rfl⟩
  · exact .inl ⟨rfl, hrest other found hfound hfoundLender⟩

/-- The loans of a shared mapping's root are all to be shared, and can be joined by another. -/
theorem Compatible.share {loans : Nat → Option Mapping} (hcompatible : Compatible held loans)
    (hloan : loans id = some loan) (hshared : loan.protection.shared = true)
    (hkind : loan.kind = .shared lender) (first context vaddr sizePages : Nat) :
    Compatible held (update loans first
      (some ⟨context, loan.protection, vaddr, sizePages, .shared lender⟩)) := by
  have hlender : loan.kind.lender? = some lender := by rw [hkind]; rfl
  refine hcompatible.insert ?_ (fun hborrowed => by cases hborrowed) (fun _ _ _ => hshared)
  intro other found lender' _ hfound hfoundLender hown
  obtain rfl : lender = lender' := Option.some.inj hown
  right
  by_cases heq : other = id
  · subst heq
    cases hloan.symm.trans hfound
    exact ⟨hshared, hshared⟩
  · rcases hcompatible.pairs id other loan found lender (Ne.symm heq) hloan hfound hlender
      hfoundLender with ⟨hborrowed, _⟩ | ⟨_, hother⟩
    · simp [Mapping.isBorrowed, hkind] at hborrowed
    · exact ⟨hshared, hother⟩

/-- A new loan is one more share. -/
theorem has_update (hfresh : state.loan? id = none)
    (hloans : next.loan? = update state.loan? id (some loan)) (share : Share) :
    next.Has share ↔ state.Has share ∨ share = loan.share := by
  constructor
  · rintro ⟨other, found, hfound, rfl⟩
    rw [hloans] at hfound
    rcases update_some_eq_some.mp hfound with ⟨_, rfl⟩ | ⟨_, hfound⟩
    · exact .inr rfl
    · exact .inl ⟨other, found, hfound, rfl⟩
  · rintro (⟨other, found, hfound, rfl⟩ | rfl)
    · refine ⟨other, found, ?_, rfl⟩
      rw [hloans]
      exact update_of_fresh hfresh hfound
    · exact ⟨id, loan, by rw [hloans, update_self], rfl⟩

end Loans

/-! ## One mapping -/

section Step

variable {windows : Nat → List (Nat × Nat)} {state : State} {held : List Nat}
  {parent child id : Nat} {loan : Mapping}

/-- The two processes of a fork, and a mapping of the parent whose turn it is. -/
structure Turn (windows : Nat → List (Nat × Nat)) (held : List Nat) (state : State)
    (parent child id : Nat) (loan : Mapping) : Prop where
  settled : Settled windows held state
  separated : Separated held state
  user : child ≠ kernelContext
  present : (state.contexts child).isSome
  empty : windows child = []
  live : state.loan? id = some loan
  home : loan.context = parent
  /-- The child has nothing at its addresses yet. -/
  apart : ∀ share, state.Has share → share.context = child →
    Apart loan.range (share.vaddr, share.sizePages)

/-- The addresses of the mapping are vacant in the child. -/
theorem Turn.vacant (hturn : Turn windows held state parent child id loan) :
    pageSize ∣ loan.vaddr ∧ ∃ target, state.contexts child = some target ∧
      Valloc.Vacant target.regions loan.vaddr loan.sizePages := by
  obtain ⟨hsettled, _, huser, hchild, hwindows, hloan, hhome, hapart⟩ := hturn
  have hmapping := (State.loan?_eq_some.mp hloan).1
  obtain ⟨home, hhome'⟩ := Option.isSome_iff_exists.mp (hsettled.counted.context id loan hmapping)
  obtain ⟨target, htarget⟩ := Option.isSome_iff_exists.mp hchild
  refine ⟨(hsettled.laidOut.vacant_release hmapping hhome').1, target, htarget,
    hsettled.vacant htarget hwindows (hsettled.laidOut.sizePages_bounds hmapping hhome').1 ?_ ?_⟩
  · have := hsettled.sound.range_le hmapping
    rw [Nat.mul_comm]
    unfold Valloc.regionSize
    omega
  · intro other found hfound hthere
    have hother := hsettled.loan_of_user hfound (hthere ▸ huser)
    exact hapart found.share ⟨other, found, hother, rfl⟩ hthere

/-- A mapping that is to be shared. -/
theorem Turn.share (hturn : Turn windows held state parent child id loan)
    (hshared : loan.protection.shared = true) :
    ∃ next, forkMapping parent child state id = .ok next ∧ Settled windows held next ∧
      Separated held next ∧ ForkStep state child id loan next := by
  obtain ⟨haligned, target, htarget, hvacant⟩ := hturn.vacant
  obtain ⟨hsettled, hseparated, huser, hchild, hwindows, hloan, hhome, hapart⟩ := hturn
  obtain ⟨lender, root, hlender, hroot, hisRoot, hsize, hrootId⟩ := hsettled.lender hloan
  have hmapping := (State.loan?_eq_some.mp hloan).1
  have hkind : loan.kind = .shared lender := by
    cases hkind : loan.kind with
    | alloc references paddrs => simp [hkind, Kind.lender?] at hlender
    | map references paddr => simp [hkind, Kind.lender?] at hlender
    | borrowed other =>
        have := hseparated.compatible.borrowed id loan hloan (by rw [Mapping.isBorrowed, hkind])
        rw [hshared] at this
        cases this
    | shared other =>
        rw [hkind] at hlender
        rw [Option.some.inj hlender]
  obtain ⟨new, next, hcall, hnext, hlends, _⟩ := hsettled.addLoan loan.protection .shared
    loan.protection.write (fun _ => rfl) (fun _ _ _ => rfl) hroot hisRoot htarget haligned
    (hsize ▸ hvacant)
  refine ⟨next, ?_, hnext, ⟨hseparated.frames.left hlends.leaves.roots, ?_⟩, ?_, ?_,
    hlends.leaves⟩
  · unfold forkMapping
    rw [State.mapping_eq_ok.mpr hmapping, ok_bind]
    simp only [hshared, if_true, hkind, hrootId, ok_bind]
    rw [show addShared state child loan.protection lender loan.vaddr = .ok (new, next) from hcall]
    rfl
  · rw [hlends.loans]
    exact hseparated.compatible.share hloan hshared hkind _ _ _ _
  · intro share
    rw [has_update hlends.fresh hlends.loans]
    have hsame : Mapping.share ⟨child, loan.protection, loan.vaddr, root.sizePages,
        .shared lender⟩ = { loan.share with context := child } := by
      simp [Mapping.share, hkind, hsize, Kind.lender?]
    rw [hsame]
  · intro other found _ hfound
    rw [hlends.loans]
    exact update_of_fresh hlends.fresh hfound

/-- A private mapping. -/
theorem Turn.borrow (hturn : Turn windows held state parent child id loan)
    (hprivate : loan.protection.shared = false) :
    ∃ next, forkMapping parent child state id = .ok next ∧ Settled windows held next ∧
      Separated held next ∧ ForkStep state child id loan next := by
  obtain ⟨haligned, target, htarget, hvacant⟩ := hturn.vacant
  obtain ⟨hsettled, hseparated, huser, hchild, hwindows, hloan, hhome, hapart⟩ := hturn
  obtain ⟨lender, root, hlender, hroot, hisRoot, hsize, hrootId⟩ := hsettled.lender hloan
  have hmapping := (State.loan?_eq_some.mp hloan).1
  -- the child's mapping, and with it another reference to the root
  obtain ⟨first, lent, hcall, hlent, hlends, hraised⟩ := hsettled.addLoan loan.protection .borrowed
    false (fun _ => rfl) (fun _ _ _ => rfl) hroot hisRoot htarget haligned (hsize ▸ hvacant)
  have hloan' : lent.loan? id = some loan := by
    rw [hlends.loans]
    exact update_of_fresh hlends.fresh hloan
  have hpositive := hsettled.counted.positive lender root hroot hisRoot
  have hraisedRoot :
      (root.withReferences (root.kind.references + 1)).kind.references =
        root.kind.references + 1 := Kind.setReferences_references hisRoot
  -- so that it stays when the parent's goes
  obtain ⟨removed, hremove, hremoved, hunlent, hleaves, _, hvacant', hroot'⟩ :=
    hlent.unmapLoan hloan' hlender hraised
  have hroot' := hroot' (by omega)
  have hisRoot' : ((root.withReferences (root.kind.references + 1)).withReferences
      ((root.withReferences (root.kind.references + 1)).kind.references - 1)).kind.isRoot =
        true := by simpa [Mapping.withReferences] using hisRoot
  obtain ⟨again, hagain⟩ : ∃ target, removed.contexts loan.context = some target := by
    rw [← Option.isSome_iff_exists, hleaves.present]
    exact hlent.counted.context id loan (State.loan?_eq_some.mp hloan').1
  obtain ⟨second, next, hcall', hnext, hlends', _⟩ := hremoved.addLoan loan.protection .borrowed
    false (fun _ => rfl) (fun _ _ _ => rfl) hroot' hisRoot' hagain haligned
    (by simpa [Mapping.withReferences, hsize] using hvacant' again hagain)
  have hfirst : first ≠ id := by
    rintro rfl
    rw [hlends.fresh] at hloan
    cases hloan
  have hsecond : second ≠ first := by
    rintro rfl
    have hfresh := hlends'.fresh
    rw [hunlent, hlends.loans, update_of_ne hfirst, update_self] at hfresh
    cases hfresh
  have hshape : (root.withReferences (root.kind.references + 1)).withReferences
      ((root.withReferences (root.kind.references + 1)).kind.references - 1) = root := by
    rw [hraisedRoot, Nat.add_sub_cancel, Mapping.withReferences_idem,
      Mapping.withReferences_self hisRoot]
  rw [hshape, hsize] at hlends'
  have hloans : next.loan? = update (update (update state.loan? id none)
      first (some ⟨child, loan.protection, loan.vaddr, loan.sizePages, .borrowed lender⟩)) second
      (some ⟨loan.context, loan.protection, loan.vaddr, loan.sizePages, .borrowed lender⟩) := by
    rw [hlends'.loans, hunlent, hlends.loans, hsize, update_comm hfirst.symm]
  have hkept : ∀ other found, other ≠ id → state.loan? other = some found →
      next.loan? other = some found := by
    intro other found hne hfound
    rw [hlends'.loans]
    refine update_of_fresh hlends'.fresh ?_
    rw [hunlent, update_of_ne hne, hlends.loans]
    exact update_of_fresh hlends.fresh hfound
  have hleft : Leaves state next := (hlends.leaves.trans hleaves).trans hlends'.leaves
  refine ⟨next, ?_, hnext, ⟨hseparated.frames.left hleft.roots, ?_⟩, ?_, hkept, hleft⟩
  · unfold forkMapping
    rw [State.mapping_eq_ok.mpr hmapping, ok_bind]
    simp only [hprivate, Bool.false_eq_true, if_false, hrootId, ok_bind]
    rw [show addBorrowed state child loan.protection lender loan.vaddr = .ok (first, lent)
      from hcall, ok_bind]
    simp only [hremove, ok_bind]
    rw [← hhome, show addBorrowed removed loan.context loan.protection lender loan.vaddr =
      .ok (second, next) from hcall']
    rfl
  · rw [hloans]
    exact hseparated.compatible.fork hloan hprivate hlender _ _ _ _ _ _
  · intro share
    have hown : Mapping.share ⟨loan.context, loan.protection, loan.vaddr, loan.sizePages,
        .borrowed lender⟩ = loan.share := by
      rw [Mapping.share, Mapping.share, hlender]
      rfl
    have hnew : Mapping.share ⟨child, loan.protection, loan.vaddr, loan.sizePages,
        .borrowed lender⟩ = { loan.share with context := child } := by
      rw [Mapping.share, Mapping.share, hlender]
      rfl
    constructor
    · rintro ⟨other, found, hfound, rfl⟩
      rw [hloans] at hfound
      rcases update_some_eq_some.mp hfound with ⟨_, rfl⟩ | ⟨_, hfound⟩
      · exact .inl ⟨id, loan, hloan, hown.symm⟩
      rcases update_some_eq_some.mp hfound with ⟨_, rfl⟩ | ⟨_, hfound⟩
      · exact .inr hnew
      · exact .inl ⟨other, found, (update_none_eq_some.mp hfound).2, rfl⟩
    · rintro (⟨other, found, hfound, rfl⟩ | rfl)
      · by_cases hother : other = id
        · subst hother
          cases hloan.symm.trans hfound
          exact ⟨second, _, by rw [hloans, update_self], hown⟩
        · exact ⟨other, found, hkept other found hother hfound, rfl⟩
      · refine ⟨first, _, ?_, hnew⟩
        rw [hloans, update_of_ne hsecond.symm, update_self]

theorem Turn.forkMapping (hturn : Turn windows held state parent child id loan) :
    ∃ next, Pman.forkMapping parent child state id = .ok next ∧ Settled windows held next ∧
      Separated held next ∧ ForkStep state child id loan next := by
  cases hshared : loan.protection.shared with
  | true => exact hturn.share hshared
  | false => exact hturn.borrow hshared

end Step

/-! ## All mappings -/

section Run

variable {windows : Nat → List (Nat × Nat)} {state : State} {held : List Nat}
  {parent child : Nat} {target : Context}

/-- The loop goes through, whatever the parent has and has shared before. -/
theorem Settled.forkMappings (hsettled : Settled windows held state)
    (hseparated : Separated held state) (ids : List Nat) (huser : child ≠ kernelContext)
    (hpresent : (state.contexts child).isSome) (hempty : windows child = [])
    (hnodup : ids.Nodup)
    (hids : ∀ id ∈ ids, ∃ loan, state.loan? id = some loan ∧ loan.context = parent)
    (hapart : ∀ id ∈ ids, ∀ loan, state.loan? id = some loan → ∀ share, state.Has share →
      share.context = child → Apart loan.range (share.vaddr, share.sizePages)) :
    ∃ next, Pman.forkMappings parent child ids state = .ok next ∧ Settled windows held next ∧
      Separated held next ∧ Forked state child ids next := by
  induction ids generalizing state with
  | nil =>
      exact ⟨state, rfl, hsettled, hseparated, fun share => by simp,
        .of_recounted (.refl state), rfl, fun _ => rfl⟩
  | cons id ids ih =>
      obtain ⟨hnew, hnodup⟩ := List.nodup_cons.mp hnodup
      obtain ⟨loan, hloan, hhome⟩ := hids id List.mem_cons_self
      obtain ⟨between, hcall, hbetween, hseparated', hstep⟩ :=
        Turn.forkMapping ⟨hsettled, hseparated, huser, hpresent, hempty, hloan, hhome,
          hapart id List.mem_cons_self loan hloan⟩
      have hsame : ∀ other ∈ ids, ∀ found, between.loan? other = some found ↔
          state.loan? other = some found := by
        intro other hother found
        have hne : other ≠ id := fun heq => hnew (heq ▸ hother)
        constructor
        · intro hfound
          obtain ⟨before, hbefore, _⟩ := hids other (List.mem_cons_of_mem _ hother)
          rw [hstep.kept other before hne hbefore] at hfound
          rw [hbefore, hfound]
        · exact hstep.kept other found hne
      have hidsNext : ∀ other ∈ ids, ∃ loan, between.loan? other = some loan ∧
          loan.context = parent := by
        intro other hother
        obtain ⟨found, hfound, hthere⟩ := hids other (List.mem_cons_of_mem _ hother)
        exact ⟨found, (hsame other hother found).mpr hfound, hthere⟩
      -- the child has got the addresses of one mapping, and the others are apart from it
      have hapartNext : ∀ other ∈ ids, ∀ found, between.loan? other = some found →
          ∀ share, between.Has share → share.context = child →
            Apart found.range (share.vaddr, share.sizePages) := by
        intro other hother found hfound share hshare hthere
        have hfound := (hsame other hother found).mp hfound
        rcases (hstep.has share).mp hshare with hshare | rfl
        · exact hapart other (List.mem_cons_of_mem _ hother) found hfound share hshare hthere
        · obtain ⟨before, hbefore, hbeforeHome⟩ := hids other (List.mem_cons_of_mem _ hother)
          cases hfound.symm.trans hbefore
          have hne : other ≠ id := fun heq => hnew (heq ▸ hother)
          have hmapping := (State.loan?_eq_some.mp hfound).1
          obtain ⟨home, hhome'⟩ := Option.isSome_iff_exists.mp
            (hsettled.counted.context other found hmapping)
          exact hsettled.laidOut.apart hne hmapping (State.loan?_eq_some.mp hloan).1
            (hbeforeHome.trans hhome.symm) hhome'
      obtain ⟨next, hrest, hnext, hnextSeparated, hforked⟩ := ih hbetween hseparated'
        (by rw [hstep.leaves.present]; exact hpresent) hnodup hidsNext hapartNext
      refine ⟨next, ?_, hnext, hnextSeparated, ?_, hstep.leaves.trans hforked.leaves⟩
      · rw [Pman.forkMappings, hcall, ok_bind, hrest]
      · intro share
        rw [hforked.has, hstep.has, or_assoc]
        refine or_congr_right ?_
        constructor
        · rintro (rfl | ⟨other, hother, found, hfound, rfl⟩)
          · exact ⟨id, List.mem_cons_self, loan, hloan, rfl⟩
          · exact ⟨other, List.mem_cons_of_mem _ hother, found, (hsame other hother found).mp hfound,
              rfl⟩
        · rintro ⟨other, hother, found, hfound, rfl⟩
          rcases List.mem_cons.mp hother with rfl | hother
          · cases hloan.symm.trans hfound
            exact .inl rfl
          · exact .inr ⟨other, hother, found, (hsame other hother found).mpr hfound, rfl⟩

/-- What a fork leaves behind: the child has what the parent has, under the same addresses, and
nobody has anything less. -/
structure ForkResult (state : State) (parent child : Nat) (next : State) : Prop where
  fresh : state.contexts child = none
  has : ∀ share, next.Has share ↔ state.Has share ∨
    ∃ own, state.Has own ∧ own.context = parent ∧ share = { own with context := child }
  roots : RootsLeft state next
  memory : next.memory = state.memory
  present : ∀ context, (next.contexts context).isSome ↔
    (state.contexts context).isSome ∨ context = child

theorem Settled.newContext (hsettled : Settled windows held state) :
    Settled windows held (Pman.newContext state).2 := by
  obtain ⟨hcounted, hlaid, hmirrored, hrooted⟩ := hsettled
  have hkeeps : ∀ context, (state.contexts context).isSome →
      ((Pman.newContext state).2.contexts context).isSome := by
    intro context hcontext
    by_cases heq : context = state.nextContext
    · simp [Pman.newContext, heq]
    · simpa [Pman.newContext, heq] using hcontext
  exact ⟨hcounted.congr rfl rfl rfl rfl hkeeps, newContext_laidOut hcounted hlaid,
    newContext_mirrored hmirrored hcounted hlaid, hkeeps _ hrooted.kernel, hrooted.kernelRoots⟩

theorem newContext_present (context : Nat) :
    ((Pman.newContext state).2.contexts context).isSome ↔
      (state.contexts context).isSome ∨ context = state.nextContext := by
  by_cases heq : context = state.nextContext
  · simp [newContext, heq]
  · simp [newContext, heq]

/-- `process_create_fork` of a live process. -/
theorem Settled.processCreateFork (hsettled : Settled windows held state)
    (hseparated : Separated held state) (huser : parent ≠ kernelContext)
    (htarget : state.contexts parent = some target) :
    ∃ next, Pman.processCreateFork state parent = .ok (state.nextContext, next) ∧
      Settled windows held next ∧ Separated held next ∧
      ForkResult state parent state.nextContext next := by
  obtain ⟨hfresh, hempty⟩ := hsettled.laidOut.freshContext state.nextContext (Nat.le_refl _)
  have hchild : state.nextContext ≠ kernelContext := by
    intro heq
    have hkernel := hsettled.rooted.kernel
    rw [← heq, hfresh] at hkernel
    cases hkernel
  have hne : parent ≠ state.nextContext := by
    rintro rfl
    rw [hfresh] at htarget
    cases htarget
  have htarget' : (Pman.newContext state).2.contexts parent = some target := by
    simpa [Pman.newContext, hne] using htarget
  have hids : ∀ id ∈ target.mappings, ∃ loan,
      (Pman.newContext state).2.loan? id = some loan ∧ loan.context = parent := by
    intro id hid
    obtain ⟨mapping, hmapping, hhome⟩ := (hsettled.laidOut.listed _ target htarget id).mp hid
    exact ⟨mapping, hsettled.loan_of_user hmapping (hhome ▸ huser), hhome⟩
  have hnobody : ∀ share, (Pman.newContext state).2.Has share →
      share.context ≠ state.nextContext := by
    rintro share ⟨id, loan, hloan, rfl⟩ heq
    have hmapping : state.mappings id = some loan := (State.loan?_eq_some.mp hloan).1
    have hcontext := hsettled.counted.context id loan hmapping
    rw [show loan.context = state.nextContext from heq, hfresh] at hcontext
    cases hcontext
  obtain ⟨next, hcall, hnext, hnextSeparated, hforked⟩ := hsettled.newContext.forkMappings
    ⟨hseparated.frames, hseparated.compatible⟩ target.mappings hchild
    ((newContext_present _).mpr (.inr rfl)) hempty (hsettled.laidOut.nodup _ target htarget) hids
    (fun _ _ _ _ share hshare hthere => absurd hthere (hnobody share hshare))
  refine ⟨next, ?_, hnext, hnextSeparated, hfresh, ?_, hforked.leaves.roots,
    hforked.leaves.memory, ?_⟩
  · rw [Pman.processCreateFork]
    show (do
      let target ← (Pman.newContext state).2.context parent
      let state' ← Pman.forkMappings parent state.nextContext target.mappings
        (Pman.newContext state).2
      return (state.nextContext, state')) = _
    rw [State.context_eq_ok.mpr htarget', ok_bind, hcall, ok_bind, pure_eq_ok]
  · intro share
    rw [hforked.has]
    refine or_congr_right ?_
    constructor
    · rintro ⟨id, hid, loan, hloan, rfl⟩
      obtain ⟨found, hfound, hhome⟩ := hids id hid
      cases hloan.symm.trans hfound
      exact ⟨loan.share, ⟨id, loan, hloan, rfl⟩, hhome, rfl⟩
    · rintro ⟨own, ⟨id, loan, hloan, rfl⟩, hhome, rfl⟩
      refine ⟨id, ?_, loan, hloan, rfl⟩
      exact (hsettled.laidOut.listed _ target htarget id).mpr
        ⟨loan, (State.loan?_eq_some.mp hloan).1, hhome⟩
  · intro context
    rw [hforked.leaves.present, newContext_present]

end Run

end PKernel.Pman
