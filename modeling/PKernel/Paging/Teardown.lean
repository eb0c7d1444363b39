import PKernel.Paging.Resizing

/-! # Tearing down an address space

`pman_free_context` unmaps the first mapping of a context until none is left. All roots being in
the kernel's context, the mappings of any other context are loans. Each goes with one reference to
its root, and the roots that lose their last one go along. Nothing else changes.
-/

namespace PKernel.Pman

open Library.Tally Library.Transition
open Function (update_of_ne update_self)

/-! ## What is left of the mappings -/

/-- The references that some mappings have to a root. -/
def State.lost (state : State) (gone : List Nat) (id : Nat) : Nat :=
  gone.countP fun loan => state.lenderOf loan = some id

/-- What is left of a mapping without so many of its references. A root goes with the last. -/
def Mapping.charged (mapping : Mapping) (lost : Nat) : Option Mapping :=
  if mapping.kind.isRoot = true ∧ mapping.kind.references ≤ lost then none
  else some (mapping.withReferences (mapping.kind.references - lost))

section Charged

variable {mapping left : Mapping} {first second lost : Nat}

theorem Mapping.withReferences_loan (hloan : mapping.kind.isRoot = false) (references : Nat) :
    mapping.withReferences references = mapping := by
  obtain ⟨context, protection, vaddr, sizePages, kind⟩ := mapping
  cases kind with
  | alloc references paddrs => cases hloan
  | map references paddr => cases hloan
  | borrowed lender => rfl
  | shared lender => rfl

theorem Mapping.charged_loan (hloan : mapping.kind.isRoot = false) (lost : Nat) :
    mapping.charged lost = some mapping := by
  rw [charged, if_neg (by simp [hloan]), withReferences_loan hloan]

theorem Mapping.charged_zero (hpositive : mapping.kind.isRoot = true → 0 < mapping.kind.references) :
    mapping.charged 0 = some mapping := by
  cases hisRoot : mapping.kind.isRoot with
  | false => exact charged_loan hisRoot 0
  | true =>
      have hleft := hpositive hisRoot
      rw [charged, if_neg (by omega), Nat.sub_zero, withReferences_self hisRoot]

/-- A mapping stays where it is. -/
theorem Mapping.charged_some (hleft : mapping.charged lost = some left) :
    left.context = mapping.context ∧ left.range = mapping.range ∧
      left.kind.isRoot = mapping.kind.isRoot ∧ left.kind.lender? = mapping.kind.lender? := by
  unfold charged at hleft
  split at hleft
  · cases hleft
  · cases hleft
    exact ⟨rfl, rfl, Kind.setReferences_isRoot, Kind.setReferences_lender?⟩

theorem Mapping.charged_charged :
    ((mapping.charged first).bind fun left => left.charged second) =
      mapping.charged (first + second) := by
  cases hisRoot : mapping.kind.isRoot with
  | false =>
      rw [charged_loan hisRoot, charged_loan hisRoot, Option.bind_some, charged_loan hisRoot]
  | true =>
      by_cases hfirst : mapping.kind.references ≤ first
      · rw [charged, if_pos ⟨hisRoot, hfirst⟩, charged, if_pos ⟨hisRoot, by omega⟩,
          Option.bind_none]
      · have hcount : ∀ references,
            (mapping.withReferences references).kind.references = references :=
          fun _ => Kind.setReferences_references hisRoot
        have hroot : ∀ references, (mapping.withReferences references).kind.isRoot = true :=
          fun _ => Kind.setReferences_isRoot.trans hisRoot
        rw [charged, if_neg (fun h => hfirst h.2), Option.bind_some, charged, charged, hcount,
          hroot, hisRoot]
        by_cases hboth : mapping.kind.references ≤ first + second
        · rw [if_pos ⟨rfl, by omega⟩, if_pos ⟨rfl, hboth⟩]
        · rw [if_neg (by omega), if_neg (by omega)]
          simp [withReferences, Nat.sub_sub]

end Charged

/-! ## Unmapping the loans of a context -/

/-- A root of the kernel that is there before, and not after. -/
structure Freed (state next : State) (id : Nat) (root : Mapping) : Prop where
  live : state.mappings id = some root
  home : root.context = kernelContext
  gone : next.mappings id = none

/-- The context of the kernel without the roots that go, and without the pages in their ranges. -/
def Pruned (state next : State) (kernel after : Context) : Prop :=
  after.mappings = kernel.mappings.filter (fun id => (next.mappings id).isSome) ∧
    (∀ id root page, Freed state next id root → InRange root.range page →
      after.table page = none) ∧
    ∀ page, (∀ id root, Freed state next id root → ¬InRange root.range page) →
      after.table page = kernel.table page

section Pruned

variable {windows : Nat → List (Nat × Nat)} {state between next : State}
  {kernel middle after : Context} {lender : Nat} {root : Mapping}

/-- No root goes. -/
theorem pruned_self (hlaid : LaidOut windows state)
    (hkernel : state.contexts kernelContext = some kernel)
    (halive : ∀ other found, state.mappings other = some found →
      found.context = kernelContext → (next.mappings other).isSome = true) :
    Pruned state next kernel kernel := by
  refine ⟨(List.filter_eq_self.mpr ?_).symm, ?_, fun _ _ => rfl⟩
  · intro other hother
    obtain ⟨found, hfound, hhome⟩ := (hlaid.listed _ kernel hkernel other).mp hother
    exact halive other found hfound hhome
  · rintro other found page ⟨hlive, hhome, hgone⟩
    have hstays := halive other found hlive hhome
    rw [hgone] at hstays
    cases hstays

/-- One root goes. -/
theorem pruned_release (hlaid : LaidOut windows state)
    (hkernel : state.contexts kernelContext = some kernel)
    (hroot : state.mappings lender = some root) (hhome : root.context = kernelContext)
    (hgone : next.mappings lender = none)
    (halive : ∀ other found, state.mappings other = some found →
      found.context = kernelContext → other ≠ lender → (next.mappings other).isSome = true) :
    Pruned state next kernel
      { regions := (Valloc.release kernel.regions root.vaddr).2
        table := unmapRange kernel.table (root.vaddr / pageSize) root.sizePages
        mappings := kernel.mappings.erase lender } := by
  have haligned := (hlaid.vacant_release hroot (hhome ▸ hkernel)).1
  refine ⟨?_, ?_, ?_⟩
  · rw [(hlaid.nodup _ kernel hkernel).erase_eq_filter]
    apply List.filter_congr
    intro other hother
    obtain ⟨found, hfound, hhere⟩ := (hlaid.listed _ kernel hkernel other).mp hother
    by_cases heq : other = lender
    · simp [heq, hgone]
    · simp [heq, halive other found hfound hhere heq]
  · rintro other found page ⟨hlive, hhere, hnone⟩ hin
    have heq : other = lender := by
      by_contra hne
      have hstays := halive other found hlive hhere hne
      rw [hnone] at hstays
      cases hstays
    subst heq
    obtain rfl : root = found := Option.some.inj (hroot.symm.trans hlive)
    exact if_pos ((inRange_iff haligned).mp hin)
  · intro page hout
    refine if_neg fun hin => hout lender root ⟨hroot, hhome, hgone⟩ ?_
    exact (inRange_iff haligned).mpr hin

/-- Some roots go first, then others. -/
theorem Pruned.trans (hfirst : Pruned state between kernel middle)
    (hrest : Pruned between next middle after)
    (hstill : ∀ other, between.mappings other = none → next.mappings other = none)
    (hbefore : ∀ {other : Nat} {left : Mapping}, between.mappings other = some left →
      ∃ mapping, state.mappings other = some mapping ∧ left.context = mapping.context ∧
        left.range = mapping.range) :
    Pruned state next kernel after := by
  obtain ⟨hlist, hfreed, hkept⟩ := hfirst
  obtain ⟨hlist', hfreed', hkept'⟩ := hrest
  refine ⟨?_, ?_, ?_⟩
  · rw [hlist', hlist, List.filter_filter]
    apply List.filter_congr
    intro other _
    cases hbetween : between.mappings other with
    | none => simp [hstill other hbetween]
    | some left => simp
  · rintro other root page ⟨hlive, hhome, hgone⟩ hin
    by_cases hlater : ∃ id root, Freed between next id root ∧ InRange root.range page
    · obtain ⟨later, lent, hlater, hin'⟩ := hlater
      exact hfreed' later lent page hlater hin'
    have hnone : middle.table page = none := by
      cases hbetween : between.mappings other with
      | none => exact hfreed other root page ⟨hlive, hhome, hbetween⟩ hin
      | some left =>
          obtain ⟨mapping, hmapping, hleftHome, hleftRange⟩ := hbefore hbetween
          obtain rfl : root = mapping := Option.some.inj (hlive.symm.trans hmapping)
          exact absurd ⟨other, left, ⟨hbetween, hleftHome.trans hhome, hgone⟩,
            hleftRange ▸ hin⟩ hlater
    rw [hkept' page fun id root hlost hin => hlater ⟨id, root, hlost, hin⟩, hnone]
  · intro page hout
    rw [hkept', hkept]
    · rintro other root ⟨hlive, hhome, hgone⟩
      exact hout other root ⟨hlive, hhome, hstill other hgone⟩
    · rintro other left ⟨hlive, hhome, hgone⟩
      obtain ⟨mapping, hmapping, hleftHome, hleftRange⟩ := hbefore hlive
      rw [hleftRange]
      exact hout other mapping ⟨hmapping, hleftHome ▸ hhome, hgone⟩

end Pruned

/-- What is left when some of the mappings of a context are unmapped. -/
structure Unmapped (state : State) (context : Nat) (gone : List Nat) (next : State) : Prop where
  mappings : ∀ id, next.mappings id =
    if id ∈ gone then none
    else (state.mappings id).bind fun mapping => mapping.charged (state.lost gone id)
  others : ∀ other, other ≠ context → other ≠ kernelContext →
    next.contexts other = state.contexts other
  kernel : ∀ kernel, state.contexts kernelContext = some kernel →
    ∃ after, next.contexts kernelContext = some after ∧
      after.mappings = kernel.mappings.filter (fun id => (next.mappings id).isSome) ∧
      (∀ id root page, Freed state next id root → InRange root.range page →
        after.table page = none) ∧
      ∀ page, (∀ id root, Freed state next id root → ¬InRange root.range page) →
        after.table page = kernel.table page
  memory : next.memory = state.memory
  roots : next.roots = state.roots
  nextContext : next.nextContext = state.nextContext

namespace Unmapped

variable {state between next : State} {context id : Nat} {gone : List Nat} {mapping : Mapping}

theorem nil {held : List Nat} (hsound : Sound held state) (context : Nat) :
    Unmapped state context [] state := by
  obtain ⟨windows, hlaid⟩ := hsound.laidOut
  constructor
  case mappings =>
    intro id
    rw [if_neg List.not_mem_nil, State.lost, List.countP_nil]
    cases hmapping : state.mappings id with
    | none => rfl
    | some mapping =>
        exact (mapping.charged_zero fun hisRoot =>
          hsound.counted.positive id mapping hmapping hisRoot).symm
  case kernel =>
    intro kernel hkernel
    refine ⟨kernel, hkernel, pruned_self hlaid hkernel ?_⟩
    intro other found hfound _
    rw [hfound]
    rfl
  all_goals intros; rfl

/-- What is left of a mapping that is not among those that go. -/
theorem mapping_left (hunmapped : Unmapped state context gone next) {left : Mapping}
    (hleft : next.mappings id = some left) :
    id ∉ gone ∧ ∃ mapping, state.mappings id = some mapping ∧
      mapping.charged (state.lost gone id) = some left := by
  rw [hunmapped.mappings] at hleft
  split at hleft
  · cases hleft
  next hstays => exact ⟨hstays, Option.bind_eq_some_iff.mp hleft⟩

/-- A loan that is not among those that go stays as it is. -/
theorem loan (hunmapped : Unmapped state context gone next) (hstays : id ∉ gone)
    (hmapping : state.mappings id = some mapping) (hloan : mapping.kind.isRoot = false) :
    next.mappings id = some mapping := by
  rw [hunmapped.mappings, if_neg hstays, hmapping, Option.bind_some, Mapping.charged_loan hloan]

/-- The references that loans of a context have are lost one loan after the other. -/
theorem lost_cons (hfirst : Unmapped state context [id] between) (hnew : id ∉ gone)
    (hloans : ∀ loan ∈ gone, ∃ mapping, state.mappings loan = some mapping ∧
      mapping.kind.isRoot = false) (other : Nat) :
    state.lost (id :: gone) other = state.lost [id] other + between.lost gone other := by
  have hsame : between.lost gone other = state.lost gone other := by
    apply List.countP_congr
    intro loan hloan
    obtain ⟨mapping, hmapping, hkind⟩ := hloans loan hloan
    have hne : loan ∉ [id] := by
      rintro hmem
      exact hnew (List.mem_singleton.mp hmem ▸ hloan)
    rw [State.lenderOf, State.lenderOf, hmapping, hfirst.loan hne hmapping hkind]
  rw [hsame, ← List.singleton_append, State.lost, List.countP_append]
  rfl

/-- One mapping goes first, then the others. -/
theorem cons (hfirst : Unmapped state context [id] between)
    (hrest : Unmapped between context gone next) (hnew : id ∉ gone)
    (hloans : ∀ loan ∈ gone, ∃ mapping, state.mappings loan = some mapping ∧
      mapping.kind.isRoot = false) :
    Unmapped state context (id :: gone) next := by
  have hmappings : ∀ other, next.mappings other =
      if other ∈ id :: gone then none
      else (state.mappings other).bind fun mapping =>
        mapping.charged (state.lost (id :: gone) other) := by
    intro other
    rw [hrest.mappings, hfirst.mappings]
    by_cases hgone : other ∈ gone
    · rw [if_pos hgone, if_pos (List.mem_cons_of_mem _ hgone)]
    by_cases heq : other = id
    · rw [if_neg hgone, heq, if_pos List.mem_cons_self, if_pos List.mem_cons_self,
        Option.bind_none]
    · rw [if_neg hgone, if_neg (by simpa using heq), if_neg (by simpa using ⟨heq, hgone⟩),
        Option.bind_assoc, hfirst.lost_cons hnew hloans]
      exact congrArg _ (funext fun mapping => Mapping.charged_charged)
  -- a root goes with the first mapping or with the others
  have hstill : ∀ other, between.mappings other = none → next.mappings other = none := by
    intro other hnone
    rw [hrest.mappings, hnone]
    split <;> rfl
  have hbefore : ∀ {other : Nat} {left : Mapping}, between.mappings other = some left →
      ∃ mapping, state.mappings other = some mapping ∧ left.context = mapping.context ∧
        left.range = mapping.range := by
    intro other left hleft
    obtain ⟨_, mapping, hmapping, hcharged⟩ := hfirst.mapping_left hleft
    obtain ⟨hhome, hrange, _⟩ := Mapping.charged_some hcharged
    exact ⟨mapping, hmapping, hhome, hrange⟩
  constructor
  case mappings => exact hmappings
  case others =>
    intro other hcontext hkernel
    exact (hrest.others other hcontext hkernel).trans (hfirst.others other hcontext hkernel)
  case kernel =>
    intro kernel hkernel
    obtain ⟨middle, hmiddle, hpruned⟩ := hfirst.kernel kernel hkernel
    obtain ⟨after, hafter, hprunedRest⟩ := hrest.kernel middle hmiddle
    exact ⟨after, hafter, Pruned.trans hpruned hprunedRest hstill hbefore⟩
  case memory => exact hrest.memory.trans hfirst.memory
  case roots => exact hrest.roots.trans hfirst.roots
  case nextContext => exact hrest.nextContext.trans hfirst.nextContext

end Unmapped

namespace Sound

variable {state next : State} {held : List Nat} {context id lender : Nat} {mapping root : Mapping}
  {target : Context}

/-- All mappings of a context that is not the kernel's are loans. -/
theorem loans_of_user (hsound : Sound held state) (hcontext : mapping.context ≠ kernelContext)
    (hmapping : state.mappings id = some mapping) :
    ∃ lender, mapping.kind.lender? = some lender := by
  cases hlender : mapping.kind.lender? with
  | some lender => exact ⟨lender, rfl⟩
  | none =>
      have hisRoot := Kind.lender?_eq_none_iff.mp hlender
      exact absurd (hsound.rooted.kernelRoots id mapping hmapping hisRoot) hcontext

theorem lost_singleton (hlender : state.lenderOf id = some lender) (other : Nat) :
    state.lost [id] other = if other = lender then 1 else 0 := by
  simp [State.lost, List.countP_cons, hlender, eq_comm]

/-- What is left when the last reference to a root of the kernel is dropped, or another one. -/
theorem drop_mappings_eq (hsound : Sound held state) (hroot : state.mappings lender = some root)
    (hisRoot : root.kind.isRoot = true) (other : Nat) :
    (state.drop lender root).mappings other = (state.mappings other).bind fun mapping =>
      mapping.charged (if other = lender then 1 else 0) := by
  have hpositive := hsound.counted.positive lender root hroot hisRoot
  rw [State.drop_mappings]
  by_cases heq : other = lender
  · rw [heq, update_self, hroot, if_pos rfl, Option.bind_some, Mapping.charged]
    by_cases hlast : root.kind.references - 1 = 0
    · rw [if_pos hlast, if_pos ⟨hisRoot, by omega⟩]
    · rw [if_neg hlast, if_neg (by omega)]
  · rw [update_of_ne heq, if_neg heq]
    cases hmapping : state.mappings other with
    | none => rfl
    | some mapping =>
        exact (mapping.charged_zero fun hisRoot =>
          hsound.counted.positive other mapping hmapping hisRoot).symm

/-- One mapping of a context goes. -/
theorem unmapped_one (hsound : Sound held state) (hmapping : state.mappings id = some mapping)
    (hlender : mapping.kind.lender? = some lender) (hcontext : mapping.context ≠ kernelContext)
    (hcall : unmap state id = .ok next) : Unmapped state mapping.context [id] next := by
  obtain ⟨root, hroot, hisRoot, hunmap⟩ := hsound.counted.unmap_loan hmapping hlender
  obtain rfl : _ = next := Except.ok.inj (hunmap.symm.trans hcall)
  obtain ⟨windows, hlaid⟩ := hsound.laidOut
  have hhome := hsound.rooted.kernelRoots lender root hroot hisRoot
  have hlent : state.lenderOf id = some lender := by
    rw [State.lenderOf, hmapping]
    exact hlender
  have hmappings : ∀ other, ((state.drop lender root).remove id mapping).mappings other =
      if other ∈ [id] then none
      else (state.mappings other).bind fun mapping => mapping.charged (state.lost [id] other) := by
    intro other
    rw [State.remove_mappings, lost_singleton hlent]
    by_cases heq : other = id
    · rw [heq, update_self, if_pos (List.mem_singleton.mpr rfl)]
    · rw [update_of_ne heq, if_neg (by simpa using heq),
        hsound.drop_mappings_eq hroot hisRoot]
  -- the other mappings of the kernel stay
  have halive : ∀ other found, state.mappings other = some found →
      found.context = kernelContext → (other = lender → root.kind.references - 1 ≠ 0) →
      (((state.drop lender root).remove id mapping).mappings other).isSome = true := by
    intro other found hfound hhere hleft
    have hne : other ≠ id := by
      rintro rfl
      obtain rfl : mapping = found := Option.some.inj (hmapping.symm.trans hfound)
      exact hcontext hhere
    rw [State.remove_mappings, update_of_ne hne, State.drop_mappings]
    by_cases heq : other = lender
    · rw [heq, update_self, if_neg (hleft heq)]
      rfl
    · rw [update_of_ne heq, hfound]
      rfl
  constructor
  case mappings => exact hmappings
  case others =>
    intro other hother hkernel
    rw [State.remove_context_ne hother, State.drop_context_ne (hhome ▸ hkernel)]
  case kernel =>
    intro kernel hkernel
    by_cases hlast : root.kind.references - 1 = 0
    · have hafter : ((state.drop lender root).remove id mapping).contexts kernelContext = some
          { regions := (Valloc.release kernel.regions root.vaddr).2
            table := unmapRange kernel.table (root.vaddr / pageSize) root.sizePages
            mappings := kernel.mappings.erase lender } := by
        rw [State.remove_context_ne hcontext.symm, State.drop, if_pos hlast, ← hhome]
        exact State.remove_context (hhome ▸ hkernel)
      have hgone : ((state.drop lender root).remove id mapping).mappings lender = none := by
        rw [State.remove_mappings]
        by_cases heq : lender = id
        · rw [heq, update_self]
        · rw [update_of_ne heq, State.drop_mappings, update_self, if_pos hlast]
      refine ⟨_, hafter, pruned_release hlaid hkernel hroot hhome hgone ?_⟩
      intro other found hfound hhere hne
      exact halive other found hfound hhere fun h => absurd h hne
    · have hafter : ((state.drop lender root).remove id mapping).contexts kernelContext =
          some kernel := by
        rw [State.remove_context_ne hcontext.symm, State.drop, if_neg hlast]
        exact hkernel
      refine ⟨kernel, hafter, pruned_self hlaid hkernel ?_⟩
      intro other found hfound hhere
      exact halive other found hfound hhere fun _ => hlast
  case memory => simp [State.remove, State.modifyContext]
  case roots =>
    unfold State.drop
    split <;> rfl
  case nextContext =>
    unfold State.drop
    split <;> rfl

/-- The loop of `pman_free_context`. -/
theorem unmapAll {gone : List Nat} {fuel : Nat} (hsound : Sound held state)
    (hcontext : context ≠ kernelContext) (htarget : state.contexts context = some target)
    (hlist : target.mappings = gone) (hfuel : gone.length < fuel) :
    ∃ next after, Pman.unmapAll context fuel state = .ok next ∧ Sound held next ∧
      Unmapped state context gone next ∧ next.contexts context = some after ∧
      after.mappings = [] := by
  induction gone generalizing state target fuel with
  | nil =>
      obtain ⟨fuel, rfl⟩ := Nat.exists_eq_succ_of_ne_zero (Nat.ne_of_gt hfuel)
      refine ⟨state, target, ?_, hsound, .nil hsound context, htarget, hlist⟩
      rw [Pman.unmapAll, State.context_eq_ok.mpr htarget, ok_bind, hlist]
      rfl
  | cons id gone ih =>
      obtain ⟨fuel, rfl⟩ := Nat.exists_eq_succ_of_ne_zero (Nat.ne_zero_of_lt hfuel)
      obtain ⟨windows, hlaid⟩ := hsound.laidOut
      have hlisted : ∀ other ∈ id :: gone, ∃ mapping, state.mappings other = some mapping ∧
          mapping.context = context := by
        intro other hother
        exact (hlaid.listed _ target htarget other).mp (hlist ▸ hother)
      obtain ⟨mapping, hmapping, hhome⟩ := hlisted id List.mem_cons_self
      obtain ⟨lender, hlender⟩ := hsound.loans_of_user (hhome ▸ hcontext) hmapping
      obtain ⟨between, hcall, hbetween, _⟩ :=
        hsound.unmapLoan hmapping hlender (hhome ▸ hcontext) (hhome ▸ htarget)
      have hfirst := hsound.unmapped_one hmapping hlender (hhome ▸ hcontext) hcall
      rw [hhome] at hfirst
      obtain ⟨rest, hrestContext, hrestList⟩ : ∃ rest, between.contexts context = some rest ∧
          rest.mappings = gone := by
        obtain ⟨root, hroot, hisRoot, hunmap⟩ := hsound.counted.unmap_loan hmapping hlender
        obtain rfl : _ = between := Except.ok.inj (hunmap.symm.trans hcall)
        have hrootHome := hsound.rooted.kernelRoots lender root hroot hisRoot
        have hdropped : (state.drop lender root).contexts mapping.context = some target := by
          rw [State.drop_context_ne (hrootHome ▸ hhome ▸ hcontext), hhome]
          exact htarget
        refine ⟨_, hhome ▸ State.remove_context hdropped, ?_⟩
        simp [hlist]
      have hnodup := hlist ▸ hlaid.nodup _ target htarget
      obtain ⟨next, after, hloop, hnext, hrest, hafter, hempty⟩ :=
        ih hbetween hrestContext hrestList (Nat.lt_of_succ_lt_succ hfuel)
      refine ⟨next, after, ?_, hnext, ?_, hafter, hempty⟩
      · rw [Pman.unmapAll, State.context_eq_ok.mpr htarget, ok_bind, hlist]
        simp only [hcall, ok_bind]
        exact hloop
      · refine hfirst.cons hrest (List.nodup_cons.mp hnodup).1 ?_
        intro loan hloan
        obtain ⟨found, hfound, hthere⟩ := hlisted loan (List.mem_cons_of_mem _ hloan)
        obtain ⟨source, hsource⟩ := hsound.loans_of_user (hthere ▸ hcontext) hfound
        exact ⟨found, hfound, Kind.isRoot_eq_false hsource⟩

end Sound

end PKernel.Pman
