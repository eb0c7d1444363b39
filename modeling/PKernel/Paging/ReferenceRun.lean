import PKernel.Library.Transition
import PKernel.Paging.References

/-! # Runs of the paging manager

A run makes contexts, adds mappings of all four types, unmaps them and prepares
them for writing, in any order and with any arguments. The creator of a root
unmaps it at most once. In every state of every run a root has as many
references as it has live loans, and one more as long as its creator has it.
-/

namespace PKernel.Pman

open Library.Tally Library.Transition

/-- The manager, and the roots whose creators have not unmapped them yet. -/
structure World where
  state : State
  created : List Nat

inductive Op where
  | newContext
  | addAlloc (context : Nat) (protection : Protection) (vaddr size : Nat)
  | addMap (context : Nat) (protection : Protection) (vaddr paddr size : Nat)
  | addBorrowed (context : Nat) (protection : Protection) (lender vaddr : Nat)
  | addShared (context : Nat) (protection : Protection) (lender vaddr : Nat)
  | prepareWrite (id : Nat)
  | unmap (id : Nat)

section Runs

variable (palloc : State → Nat → Option (List Nat))

/-- One call that returns. The creator of a root unmaps it once, and a loan is
unmapped while it is there. -/
inductive Step (world : World) : Op → World → Prop
  | newContext : Step world .newContext ⟨(newContext world.state).2, world.created⟩
  | addAlloc {context vaddr size id : Nat} {protection : Protection} {next : State}
      (hsize : size < 2 ^ 64)
      (hreturn : addAlloc palloc world.state context protection vaddr size = .ok (id, next)) :
      Step world (.addAlloc context protection vaddr size) ⟨next, id :: world.created⟩
  | addMap {context vaddr paddr size id : Nat} {protection : Protection} {next : State}
      (hsize : size < 2 ^ 64)
      (hreturn : addMap palloc world.state context protection vaddr paddr size =
        .ok (id, next)) :
      Step world (.addMap context protection vaddr paddr size) ⟨next, id :: world.created⟩
  | addBorrowed {context lender vaddr id : Nat} {protection : Protection} {next : State}
      (hreturn : addBorrowed world.state context protection lender vaddr = .ok (id, next)) :
      Step world (.addBorrowed context protection lender vaddr) ⟨next, world.created⟩
  | addShared {context lender vaddr id : Nat} {protection : Protection} {next : State}
      (hreturn : addShared world.state context protection lender vaddr = .ok (id, next)) :
      Step world (.addShared context protection lender vaddr) ⟨next, world.created⟩
  | prepareWrite {id user : Nat} {next : State}
      (hreturn : prepareWrite palloc world.state id = .ok (user, next)) :
      Step world (.prepareWrite id) ⟨next, world.created⟩
  | unmapRoot {id : Nat} {next : State} (hcreated : id ∈ world.created)
      (hreturn : unmap world.state id = .ok next) :
      Step world (.unmap id) ⟨next, world.created.erase id⟩
  | unmapLoan {id lender : Nat} {next : State} (hloan : world.state.lenderOf id = some lender)
      (hreturn : unmap world.state id = .ok next) :
      Step world (.unmap id) ⟨next, world.created⟩

/-- The manager before any mapping is made. Windows may have been reserved in the
address spaces that exist. -/
structure Booted (state : State) : Prop where
  mappings : ∀ id, state.mappings id = none
  contexts : ∀ id context, state.contexts id = some context →
    Valloc.WellFormed context.regions ∧ context.mappings = []
  fresh : ∀ id, state.nextContext ≤ id → state.contexts id = none
  roots : state.roots = []
  released : state.released = []

/-- Runs of the manager. -/
def system : System World Op where
  init world := Booted world.state ∧ world.created = []
  step := Step palloc

end Runs

/-- What is owed to a root: its live loans, and one if its creator has not
unmapped it. -/
def World.owed (world : World) (id : Nat) : Nat :=
  world.state.loans id + if id ∈ world.created then 1 else 0

/-- What holds between calls. -/
structure ReferencesConsistent (world : World) : Prop where
  references : ∀ id root, world.state.mappings id = some root → root.kind.isRoot = true →
    root.kind.references = world.owed id
  lender : ∀ id mapping lender, world.state.mappings id = some mapping →
    mapping.kind.lender? = some lender →
    ∃ root, world.state.mappings lender = some root ∧ root.kind.isRoot = true
  /-- A root that was made is there as long as something is owed to it. -/
  live : ∀ id ∈ world.state.roots, (world.state.mappings id).isSome ↔ world.owed id ≠ 0
  /-- Its pages were given back once from then on, and not before. -/
  released : ∀ id ∈ world.state.roots,
    world.state.released.count id = if world.owed id = 0 then 1 else 0
  unmapRoot : ∀ id ∈ world.created, ∃ next, unmap world.state id = .ok next
  unmapLoan : ∀ id lender, world.state.lenderOf id = some lender →
    ∃ next, unmap world.state id = .ok next

variable {palloc : State → Nat → Option (List Nat)} {world next : World} {op : Op}

/-- The creators hold each root once. -/
structure CountedWorld (world : World) : Prop where
  counted : Counted world.state world.created
  nodup : world.created.Nodup

theorem Counted.created_nodup {state : State} {held : List Nat} {id : Nat}
    (hcounted : Counted state held) (hnodup : held.Nodup)
    (hid : id = state.nextMapping) : (id :: held).Nodup := by
  refine List.nodup_cons.mpr ⟨?_, hnodup⟩
  intro hmem
  obtain ⟨root, hroot, _⟩ := hcounted.held id hmem
  exact absurd (hcounted.id_lt hroot) (by omega)

theorem step_countedWorld (hworld : CountedWorld world) (hstep : Step palloc world op next) :
    CountedWorld next := by
  obtain ⟨hcounted, hnodup⟩ := hworld
  cases hstep with
  | newContext =>
      refine ⟨hcounted.congr rfl rfl rfl rfl ?_, hnodup⟩
      intro id hid
      by_cases heq : id = world.state.nextContext
      · simp [newContext, heq]
      · simpa [newContext, heq] using hid
  | addAlloc _ hreturn =>
      obtain ⟨_, _, _, _, _, _, _, hid, _⟩ := addAlloc_eq_ok hreturn
      exact ⟨addAlloc_counted hcounted hreturn, hcounted.created_nodup hnodup hid⟩
  | addMap _ hreturn =>
      obtain ⟨_, _, _, _, _, _, hid, _⟩ := addMap_eq_ok hreturn
      exact ⟨addMap_counted hcounted hreturn, hcounted.created_nodup hnodup hid⟩
  | addBorrowed hreturn => exact ⟨addLoan_counted (fun _ => rfl) hcounted hreturn, hnodup⟩
  | addShared hreturn => exact ⟨addShared_counted hcounted hreturn, hnodup⟩
  | prepareWrite hreturn => exact ⟨prepareWrite_counted hcounted hreturn, hnodup⟩
  | unmapRoot hcreated hreturn =>
      exact ⟨unmap_root_counted hcounted hcreated hreturn, hnodup.erase _⟩
  | unmapLoan hloan hreturn =>
      obtain ⟨mapping, hmapping, hlender⟩ := Option.bind_eq_some_iff.mp hloan
      exact ⟨unmap_loan_counted hcounted hmapping hlender hreturn, hnodup⟩

theorem system_inductive : (system palloc).Inductive CountedWorld where
  init world := by
    rintro ⟨hbooted, hcreated⟩
    refine ⟨?_, by simp [hcreated]⟩
    constructor <;> simp [hbooted.mappings, hbooted.roots, hbooted.released, hcreated]
  step _ _ _ := step_countedWorld

theorem CountedWorld.owed_eq (hworld : CountedWorld world) (id : Nat) :
    world.owed id = world.state.loans id + world.created.count id := by
  rw [World.owed, hworld.nodup.count]

/-- In every state of every run the reference counts are what is owed, and the
pages of a root go back once, when nothing is owed any more. -/
theorem references_consistent (hreach : (system palloc).Reachable world) :
    ReferencesConsistent world := by
  have hworld := hreach.invariant system_inductive
  have hcounted := hworld.counted
  have hlive : ∀ id ∈ world.state.roots,
      ((world.state.mappings id).isSome ↔ world.owed id ≠ 0) := by
    intro id hid
    rw [hworld.owed_eq]
    constructor
    · intro hsome
      obtain ⟨root, hroot⟩ := Option.isSome_iff_exists.mp hsome
      have hisRoot := hcounted.rootsOnly id hid root hroot
      have hpos := hcounted.positive id root hroot hisRoot
      rw [hcounted.references id root hroot hisRoot] at hpos
      omega
    · intro howed
      by_contra hnone
      have hloans : world.state.loans id = 0 := by
        apply tally_eq_zero_iff.mpr
        intro other _ hlender
        obtain ⟨found, hfound, hlender⟩ := Option.bind_eq_some_iff.mp hlender
        obtain ⟨root, hroot, _⟩ := hcounted.lender other found id hfound hlender
        simp [hroot] at hnone
      have hheld : id ∉ world.created := by
        intro hmem
        obtain ⟨root, hroot, _⟩ := hcounted.held id hmem
        simp [hroot] at hnone
      rw [hloans, List.count_eq_zero_of_not_mem hheld] at howed
      exact howed rfl
  constructor
  case references =>
    intro id root hroot hisRoot
    rw [hworld.owed_eq]
    exact hcounted.references id root hroot hisRoot
  case lender => exact hcounted.lender
  case live => exact hlive
  case released =>
    intro id hid
    rw [hcounted.released id hid]
    have := hlive id hid
    split <;> split <;> simp_all
  case unmapRoot =>
    intro id hid
    obtain ⟨root, _, hunmap⟩ := hcounted.unmap_root hid
    exact ⟨_, hunmap⟩
  case unmapLoan =>
    intro id lender hloan
    obtain ⟨mapping, hmapping, hlender⟩ := Option.bind_eq_some_iff.mp hloan
    obtain ⟨root, _, _, hunmap⟩ := hcounted.unmap_loan hmapping hlender
    exact ⟨_, hunmap⟩

/-- A kernel context with all addresses free, and nothing mapped. -/
def emptyState : State where
  contexts id := if id = kernelContext then some ⟨Valloc.initial, fun _ => none, []⟩ else none
  mappings _ := none
  nextContext := 1
  nextMapping := 0
  memory _ := 0
  roots := []
  released := []

theorem emptyState_booted : Booted emptyState := by
  have hcontext : ∀ id context, emptyState.contexts id = some context →
      id = 0 ∧ context = ⟨Valloc.initial, fun _ => none, []⟩ := by
    intro id context hcontext
    by_cases heq : id = 0
    · simp only [emptyState, kernelContext, heq, if_true, Option.some.injEq] at hcontext
      exact ⟨heq, hcontext.symm⟩
    · simp [emptyState, kernelContext, heq] at hcontext
  refine ⟨fun _ => rfl, ?_, ?_, rfl, rfl⟩
  · intro id context hcontext'
    obtain ⟨_, rfl⟩ := hcontext id context hcontext'
    exact ⟨Valloc.initial_wellFormed, rfl⟩
  · intro id hle
    have hle : 1 ≤ id := hle
    simp [emptyState, kernelContext, Nat.ne_of_gt hle]

/-- The kernel allocates a page, lends it to a new context and unmaps it; the
loan keeps it. -/
theorem references_consistent_after_loan : ∃ world : World,
    (system fun _ _ => some [0x5000]).Reachable world ∧ world.created = [] ∧
      world.owed 0 = 1 ∧ ReferencesConsistent world := by
  have hcalls : ∃ allocated lent dropped,
      addAlloc (fun _ _ => some [0x5000]) (newContext emptyState).2 0
        ⟨true, false, false, false⟩ 0 4096 = .ok (0, allocated) ∧
      addShared allocated 1 ⟨true, false, false, false⟩ 0 0x8000 = .ok (1, lent) ∧
      unmap lent 0 = .ok dropped ∧ World.owed ⟨dropped, []⟩ 0 = 1 :=
    ⟨_, _, _, rfl, rfl, rfl, rfl⟩
  obtain ⟨allocated, lent, dropped, hallocated, hlent, hdropped, howed⟩ := hcalls
  have hinit : (system fun _ _ => some [0x5000]).Reachable ⟨emptyState, []⟩ :=
    .init ⟨emptyState_booted, rfl⟩
  have hreach : (system fun _ _ => some [0x5000]).Reachable ⟨lent, [0]⟩ :=
    ((hinit.step .newContext).step (.addAlloc (by decide) hallocated)).step (.addShared hlent)
  have hstep : Step (fun _ _ => some [0x5000]) ⟨lent, [0]⟩ (.unmap 0) ⟨dropped, []⟩ :=
    .unmapRoot List.mem_cons_self hdropped
  have hreach := hreach.step hstep
  exact ⟨_, hreach, rfl, howed, references_consistent hreach⟩

end PKernel.Pman
