import PKernel.Paging.Teardown

/-! # Runs with address spaces that come and go

A run of a kernel that makes all roots in its own context, and now and then frees the context of
a process. Whatever was lent, borrowed and unshared before, freeing a context returns, and the
contexts of the other processes are as they were.
-/

namespace PKernel.Pman

open Library.Tally Library.Transition
open Function (update update_of_ne update_self)

/-- What is to be left of a state when a context and the mappings in its list are gone. -/
structure TornDown (created : List Nat) (context : Nat) (target : Context) (state next : State) :
    Prop where
  absent : next.contexts context = none
  removed : ∀ id mapping, next.mappings id = some mapping → mapping.context ≠ context
  fresh : ∀ id, state.mappings id = none → next.mappings id = none
  /-- Each of its mappings drops one reference to the root it was lent from. -/
  references : ∀ id root, state.mappings id = some root → root.kind.isRoot = true →
    ∃ left, root.kind.references = left + state.lost target.mappings id ∧
      next.mappings id = if left = 0 then none else some (root.withReferences left)
  loans : ∀ id loan, state.mappings id = some loan → loan.kind.isRoot = false →
    loan.context ≠ context → next.mappings id = some loan
  /-- A root goes, and gives back its pages, only if nobody else refers to it. -/
  freed : ∀ id root, Freed state next id root →
    id ∉ created ∧ (∀ other loan, state.mappings other = some loan →
      loan.kind.lender? = some id → loan.context = context) ∧
    id ∉ state.released ∧ next.released.count id = 1
  others : ∀ other, other ≠ context → other ≠ kernelContext →
    next.contexts other = state.contexts other
  /-- The kernel loses the roots that go, and the pages in their ranges. -/
  kernel : ∀ kernel, state.contexts kernelContext = some kernel →
    ∃ after, next.contexts kernelContext = some after ∧
      after.mappings = kernel.mappings.filter (fun id => (next.mappings id).isSome) ∧
      (∀ id root page, Freed state next id root → InRange root.range page →
        after.table page = none) ∧
      ∀ page, (∀ id root, Freed state next id root → ¬InRange root.range page) →
        after.table page = kernel.table page
  memory : next.memory = state.memory

section Free

variable {state next : State} {held : List Nat} {context id : Nat} {target : Context}

/-- A context without mappings can go. -/
theorem Sound.forgetContext (hsound : Sound held state) (hcontext : context ≠ kernelContext)
    (hempty : ∀ id mapping, state.mappings id = some mapping → mapping.context ≠ context) :
    Sound held { state with contexts := update state.contexts context none } := by
  obtain ⟨hcounted, ⟨windows, hlaid⟩, hmirrored, hkernel, hroots⟩ := hsound
  have hlook : ∀ other found, update state.contexts context none other = some found →
      state.contexts other = some found :=
    fun _ _ hfound => (Library.Lookup.update_none_eq_some.mp hfound).2
  obtain ⟨fresh, present, lender, references, positive, holds, made, rootsOnly, old, released,
    releasedRoots⟩ := hcounted
  obtain ⟨wellFormed, nodup, listed, ranges, freshContext, loanSize⟩ := hlaid
  obtain ⟨whole, mapped, inside⟩ := hmirrored
  refine ⟨⟨fresh, ?_, lender, references, positive, holds, made, rootsOnly, old, released,
    releasedRoots⟩, ⟨windows, fun other found hfound => wellFormed other found (hlook _ _ hfound),
    fun other found hfound => nodup other found (hlook _ _ hfound),
    fun other found hfound => listed other found (hlook _ _ hfound),
    fun other found hfound => ranges other found (hlook _ _ hfound), ?_, loanSize⟩,
    ⟨whole, fun other mapping found hkept hmapping hfound =>
      mapped other mapping found hkept hmapping (hlook _ _ hfound),
    fun other found page hfound => inside other found page (hlook _ _ hfound)⟩, ?_, hroots⟩
  · intro other mapping hmapping
    show (update state.contexts context none mapping.context).isSome = true
    rw [update_of_ne (hempty other mapping hmapping)]
    exact present other mapping hmapping
  · intro other hother
    refine ⟨?_, (freshContext other hother).2⟩
    show update state.contexts context none other = none
    by_cases heq : other = context
    · rw [heq, update_self]
    · rw [update_of_ne heq]
      exact (freshContext other hother).1
  · show (update state.contexts context none kernelContext).isSome = true
    rw [update_of_ne hcontext.symm]
    exact hkernel

/-- The list of a user context has no roots of the kernel. -/
theorem Sound.not_listed (hsound : Sound held state) (hcontext : context ≠ kernelContext)
    (htarget : state.contexts context = some target) {root : Mapping}
    (hroot : state.mappings id = some root) (hhome : root.context = kernelContext) :
    id ∉ target.mappings := by
  obtain ⟨windows, hlaid⟩ := hsound.laidOut
  intro hmem
  obtain ⟨mapping, hmapping, hthere⟩ := (hlaid.listed _ target htarget id).mp hmem
  obtain rfl : root = mapping := Option.some.inj (hroot.symm.trans hmapping)
  exact hcontext (hthere.symm.trans hhome)

theorem Sound.listed_lt (hsound : Sound held state)
    (htarget : state.contexts context = some target) :
    ∀ id ∈ target.mappings, id < state.nextMapping := by
  obtain ⟨windows, hlaid⟩ := hsound.laidOut
  intro id hid
  obtain ⟨mapping, hmapping, _⟩ := (hlaid.listed _ target htarget id).mp hid
  exact hsound.counted.id_lt hmapping

/-- A context has no more mappings than were ever made. -/
theorem Sound.length_le (hsound : Sound held state)
    (htarget : state.contexts context = some target) :
    target.mappings.length ≤ state.nextMapping := by
  obtain ⟨windows, hlaid⟩ := hsound.laidOut
  have hsubset : target.mappings ⊆ List.range state.nextMapping :=
    fun id hid => List.mem_range.mpr (hsound.listed_lt htarget id hid)
  have hlength := ((hlaid.nodup _ target htarget).subperm hsubset).length_le
  rwa [List.length_range] at hlength

section TornDown

variable {last : State} {root loan : Mapping}

/-- A loan of another context stays. -/
theorem Unmapped.loan_of_ne (hunmapped : Unmapped state context target.mappings last)
    (hsound : Sound held state) (htarget : state.contexts context = some target)
    (hloan : state.mappings id = some loan) (hkind : loan.kind.isRoot = false)
    (hhome : loan.context ≠ context) : last.mappings id = some loan := by
  obtain ⟨windows, hlaid⟩ := hsound.laidOut
  refine hunmapped.loan (fun hmem => ?_) hloan hkind
  obtain ⟨mapping, hmapping, hthere⟩ := (hlaid.listed _ target htarget id).mp hmem
  obtain rfl : loan = mapping := Option.some.inj (hloan.symm.trans hmapping)
  exact hhome hthere

/-- A root loses the references of the loans that go. -/
theorem Unmapped.root_left (hunmapped : Unmapped state context target.mappings last)
    (hsound : Sound held state) (hcontext : context ≠ kernelContext)
    (htarget : state.contexts context = some target) (hroot : state.mappings id = some root)
    (hisRoot : root.kind.isRoot = true) :
    ∃ left, root.kind.references = left + state.lost target.mappings id ∧
      last.mappings id = if left = 0 then none else some (root.withReferences left) := by
  obtain ⟨windows, hlaid⟩ := hsound.laidOut
  have hreferences := hsound.counted.references id root hroot hisRoot
  have hbound : state.lost target.mappings id ≤ state.loans id :=
    countP_le_tally (hlaid.nodup _ target htarget) (hsound.listed_lt htarget)
  have hstays := hsound.not_listed hcontext htarget hroot
    (hsound.rooted.kernelRoots id root hroot hisRoot)
  refine ⟨root.kind.references - state.lost target.mappings id, by omega, ?_⟩
  rw [hunmapped.mappings, if_neg hstays, hroot, Option.bind_some, Mapping.charged]
  by_cases hnothing : root.kind.references ≤ state.lost target.mappings id
  · rw [if_pos ⟨hisRoot, hnothing⟩, if_pos (by omega)]
  · rw [if_neg (fun h => hnothing h.2), if_neg (by omega)]

/-- A root that goes was referred to by nobody else, and its pages are given back once. -/
theorem Unmapped.root_freed (hunmapped : Unmapped state context target.mappings last)
    (hsound : Sound held state) (hlast : Sound held last) (hcontext : context ≠ kernelContext)
    (htarget : state.contexts context = some target) (hlive : state.mappings id = some root)
    (hhome : root.context = kernelContext) (hgone : last.mappings id = none) :
    id ∉ held ∧ (∀ other loan, state.mappings other = some loan →
      loan.kind.lender? = some id → loan.context = context) ∧
    id ∉ state.released ∧ last.released.count id = 1 := by
  have hisRoot : root.kind.isRoot = true := by
    by_contra hloan
    have hkept := hunmapped.loan (hsound.not_listed hcontext htarget hlive hhome) hlive
      (Bool.eq_false_iff.mpr hloan)
    rw [hgone] at hkept
    cases hkept
  have hmade := hsound.counted.made id root hlive hisRoot
  refine ⟨?_, ?_, ?_, ?_⟩
  · intro hheld
    obtain ⟨found, hfound, _⟩ := hlast.counted.held id hheld
    rw [hgone] at hfound
    cases hfound
  · intro other loan hloan hlender
    by_contra hthere
    have hkept := hunmapped.loan_of_ne hsound htarget hloan (Kind.isRoot_eq_false hlender) hthere
    obtain ⟨found, hfound, _⟩ := hlast.counted.lender other loan id hkept hlender
    rw [hgone] at hfound
    cases hfound
  · have hcount := hsound.counted.released id hmade
    rw [hlive, Option.isSome_some, if_pos rfl] at hcount
    exact List.count_eq_zero.mp hcount
  · have hcount := hlast.counted.released id (hunmapped.roots ▸ hmade)
    rwa [hgone, Option.isSome_none, if_neg Bool.false_ne_true] at hcount

end TornDown

/-- `pman_free_context` of a user context. -/
theorem Sound.freeContext (hsound : Sound held state) (hcontext : context ≠ kernelContext)
    (htarget : state.contexts context = some target) :
    ∃ next, Pman.freeContext state context = .ok next ∧ Sound held next ∧
      TornDown held context target state next := by
  obtain ⟨last, after, hloop, hlast, hunmapped, hafter, hafterEmpty⟩ :=
    hsound.unmapAll hcontext htarget rfl (Nat.lt_succ_of_le (hsound.length_le htarget))
  have hempty : ∀ id mapping, last.mappings id = some mapping → mapping.context ≠ context := by
    rintro id mapping hmapping rfl
    obtain ⟨_, hlastLaid⟩ := hlast.laidOut
    have hmem := hlastLaid.mem_listed hmapping hafter
    rw [hafterEmpty] at hmem
    cases hmem
  have hcall : Pman.freeContext state context =
      .ok { last with contexts := update last.contexts context none } := by
    rw [Pman.freeContext, hloop, ok_bind, pure_eq_ok]
  refine ⟨_, hcall, hlast.forgetContext hcontext hempty, ?_⟩
  have hothers : ∀ other, other ≠ context →
      update last.contexts context none other = last.contexts other :=
    fun other hother => update_of_ne hother _ _
  constructor
  case absent => exact update_self _ _ _
  case removed => exact hempty
  case fresh =>
    intro id hnone
    show last.mappings id = none
    rw [hunmapped.mappings, hnone]
    split <;> rfl
  case references =>
    intro id root hroot hisRoot
    exact hunmapped.root_left hsound hcontext htarget hroot hisRoot
  case loans =>
    intro id loan hloan hkind hhome
    exact hunmapped.loan_of_ne hsound htarget hloan hkind hhome
  case freed =>
    rintro id root ⟨hlive, hhome, hgone⟩
    exact hunmapped.root_freed hsound hlast hcontext htarget hlive hhome hgone
  case others =>
    intro other hother hkernel
    exact (hothers other hother).trans (hunmapped.others other hother hkernel)
  case kernel =>
    intro kernel hkernel
    obtain ⟨after, hafter, hlist, hlost, hkept⟩ := hunmapped.kernel kernel hkernel
    have hfreed : ∀ id root, Freed state last id root ↔
        Freed state { last with contexts := update last.contexts context none } id root :=
      fun _ _ => ⟨fun hfreed => ⟨hfreed.live, hfreed.home, hfreed.gone⟩,
        fun hfreed => ⟨hfreed.live, hfreed.home, hfreed.gone⟩⟩
    refine ⟨after, (hothers _ hcontext.symm).trans hafter, hlist, ?_, ?_⟩
    · exact fun id root page hgone => hlost id root page ((hfreed id root).mpr hgone)
    · exact fun page hout => hkept page fun id root hgone => hout id root ((hfreed id root).mp hgone)
  case memory => exact hunmapped.memory

end Free

/-! ## Runs -/

section Runs

variable {palloc : State → Nat → Option (List Nat)} {world next : World} {context : Nat}
  {target : Context}

/-- A step of the kernel, or the end of an address space. -/
inductive LifetimeStep (palloc : State → Nat → Option (List Nat)) :
    World → Option Op → World → Prop
  | kernel {world next : World} {label : Option Op} (hstep : KernelStep palloc world label next) :
      LifetimeStep palloc world label next
  | free {world : World} {context : Nat} {next : State} (huser : context ≠ kernelContext)
      (hreturn : freeContext world.state context = .ok next) :
      LifetimeStep palloc world none ⟨next, world.created⟩

/-- Runs of the kernel in which address spaces are freed. -/
def lifetimes (palloc : State → Nat → Option (List Nat)) : System World (Option Op) where
  init := (kernelRuns palloc).init
  step := LifetimeStep palloc

theorem lifetimes_of_kernelRuns (hreach : (kernelRuns palloc).Reachable world) :
    (lifetimes palloc).Reachable world := by
  induction hreach with
  | init hinit => exact .init hinit
  | step _ hstep ih => exact ih.step (.kernel hstep)

theorem KernelTidy.free (htidy : KernelTidy world) (huser : context ≠ kernelContext) {after : State}
    (hreturn : freeContext world.state context = .ok after) : KernelTidy ⟨after, world.created⟩ := by
  obtain ⟨target, htarget⟩ : ∃ target, world.state.contexts context = some target := by
    cases htarget : world.state.contexts context with
    | some target => exact ⟨target, rfl⟩
    | none =>
        have hnone : world.state.context context = .error .badPointer := by
          rw [State.context, htarget]
        rw [freeContext, unmapAll, hnone] at hreturn
        cases hreturn
  obtain ⟨_, hcall, hsound, _⟩ := htidy.sound.freeContext huser htarget
  cases hcall.symm.trans hreturn
  obtain ⟨hcounted, hlaid, hmirrored, hrooted⟩ := hsound
  exact ⟨⟨⟨hcounted, htidy.tidy.countedWorld.nodup⟩, hlaid, hmirrored⟩, hrooted⟩

theorem tidy_of_lifetimes (hpalloc : Exact palloc) (hreach : (lifetimes palloc).Reachable world) :
    KernelTidy world := by
  refine hreach.invariant ⟨fun _ hinit => .init hpalloc hinit, ?_⟩
  intro before label after htidy hstep
  cases hstep with
  | kernel hstep => exact htidy.step hpalloc hstep
  | free huser hreturn => exact htidy.free huser hreturn

/-- Freeing the context of a process, in every state of every run. -/
theorem freeContext_tornDown (hpalloc : Exact palloc)
    (hreach : (lifetimes palloc).Reachable world) (huser : context ≠ kernelContext)
    (htarget : world.state.contexts context = some target) :
    ∃ next, freeContext world.state context = .ok next ∧
      TornDown world.created context target world.state next := by
  obtain ⟨next, hcall, _, htorn⟩ :=
    (tidy_of_lifetimes hpalloc hreach).sound.freeContext huser htarget
  exact ⟨next, hcall, htorn⟩

/-- A context whose one page was lent to it and is referred to by nobody else. -/
theorem freeContext_tornDown_share : ∃ (world : World) (target : Context) (next : State),
    (lifetimes (pagesFrom 0x5000)).Reachable world ∧
      world.state.contexts 1 = some target ∧ target.mappings = [1] ∧
      world.state.mappings 0 = some ⟨0, ⟨true, false, false, false⟩, 0, 1, .alloc 1 [0x5000]⟩ ∧
      freeContext world.state 1 = .ok next ∧
      TornDown world.created 1 target world.state next ∧ next.released = [0] := by
  have hcalls : ∃ dropped target next,
      SharesPage 4096 ⟨true, false, false, false⟩ dropped ∧
      dropped.contexts 1 = some target ∧ target.mappings = [1] ∧
      dropped.mappings 0 = some ⟨0, ⟨true, false, false, false⟩, 0, 1, .alloc 1 [0x5000]⟩ ∧
      freeContext dropped 1 = .ok next ∧ next.released = [0] :=
    ⟨_, _, _, ⟨_, _, rfl, rfl, rfl, rfl, rfl⟩, rfl, rfl, rfl, rfl, rfl⟩
  obtain ⟨dropped, target, next, hshares, htarget, hlist, hroot, hfree, hreleased⟩ := hcalls
  have hreach := lifetimes_of_kernelRuns (hshares.reachable (by decide))
  obtain ⟨after, hcall, htorn⟩ := freeContext_tornDown (pagesFrom_exact _) hreach Nat.one_ne_zero
    htarget
  obtain rfl := Except.ok.inj (hcall.symm.trans hfree)
  exact ⟨⟨dropped, []⟩, target, after, hreach, htarget, hlist, hroot, hcall, htorn, hreleased⟩

end Runs

end PKernel.Pman
