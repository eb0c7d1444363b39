import PKernel.Library.Lookup
import PKernel.Library.Tally
import PKernel.Paging.Operations

/-! # Reference counts

A root counts the loans made from it and one for its creator. Between the calls
of the manager a reference can also be in transit, held by a function that has
raised the count and will lower it again or turn it into a loan. `Counted`
accounts for all of them: the count of a root is the number of its live loans
plus the number of times it is held.
-/

namespace PKernel.Pman

open Library.Lookup Library.Tally
open Function (update update_comm update_of_ne update_self)

namespace State

/-- The lender of a live loan. -/
def lenderOf (state : State) (id : Nat) : Option Nat :=
  (state.mappings id).bind fun mapping => mapping.kind.lender?

/-- The number of live loans of a root. -/
def loans (state : State) (root : Nat) : Nat := tally state.lenderOf state.nextMapping root

/-! ### What is found after a change -/

variable {state : State} {id other : Nat} {mapping found new : Mapping} {context target : Context}

theorem setMapping_eq_some : (state.setMapping id new).mappings other = some found ↔
    (other = id ∧ found = new) ∨ (other ≠ id ∧ state.mappings other = some found) :=
  update_some_eq_some

/-- A root that gets another count stays a root. -/
theorem setMapping_isRoot (hnew : new.kind.isRoot = true)
    (hother : ∃ found, state.mappings other = some found ∧ found.kind.isRoot = true) :
    ∃ found, (state.setMapping id new).mappings other = some found ∧
      found.kind.isRoot = true := by
  obtain ⟨found, hfound, hisRoot⟩ := hother
  by_cases heq : other = id
  · exact ⟨new, setMapping_eq_some.mpr (.inl ⟨heq, rfl⟩), hnew⟩
  · exact ⟨found, setMapping_eq_some.mpr (.inr ⟨heq, hfound⟩), hisRoot⟩

theorem remove_mapping_eq_some : (state.remove id mapping).mappings other = some found ↔
    other ≠ id ∧ state.mappings other = some found :=
  update_none_eq_some

theorem remove_context_eq_some {mapping : Mapping}
    (htarget : state.contexts mapping.context = some target) :
    (state.remove id mapping).contexts other = some context ↔
      (other = mapping.context ∧ context =
        { regions := (Valloc.release target.regions mapping.vaddr).2
          table := unmapRange target.table (mapping.vaddr / pageSize) mapping.sizePages
          mappings := target.mappings.erase id }) ∨
      (other ≠ mapping.context ∧ state.contexts other = some context) := by
  by_cases heq : other = mapping.context
  · subst heq
    rw [remove_context htarget, Option.some.injEq]
    simp [eq_comm]
  · rw [remove_context_ne heq]
    simp [heq]

theorem link_mapping_eq_some : (link state context mapping).2.mappings other = some found ↔
    (other = state.nextMapping ∧ found = mapping) ∨
      (other ≠ state.nextMapping ∧ state.mappings other = some found) :=
  update_some_eq_some

theorem link_context_eq_some : (link state context mapping).2.contexts other = some target ↔
    (other = mapping.context ∧
      target = { context with mappings := state.nextMapping :: context.mappings }) ∨
    (other ≠ mapping.context ∧ state.contexts other = some target) :=
  update_some_eq_some

theorem newContext_eq_some : (newContext state).2.contexts other = some context ↔
    (other = state.nextContext ∧ context = ⟨Valloc.initial, fun _ => none, []⟩) ∨
      (other ≠ state.nextContext ∧ state.contexts other = some context) :=
  update_some_eq_some

end State

/-- The references to the roots are the live loans and those in `held`. -/
structure Counted (state : State) (held : List Nat) : Prop where
  fresh : ∀ id, state.nextMapping ≤ id → state.mappings id = none
  context : ∀ id mapping, state.mappings id = some mapping →
    (state.contexts mapping.context).isSome
  lender : ∀ id mapping lender, state.mappings id = some mapping →
    mapping.kind.lender? = some lender →
    ∃ root, state.mappings lender = some root ∧ root.kind.isRoot = true
  references : ∀ id root, state.mappings id = some root → root.kind.isRoot = true →
    root.kind.references = state.loans id + held.count id
  positive : ∀ id root, state.mappings id = some root → root.kind.isRoot = true →
    0 < root.kind.references
  held : ∀ id ∈ held, ∃ root, state.mappings id = some root ∧ root.kind.isRoot = true
  /-- The live roots are the live ones among the roots that were made. -/
  made : ∀ id root, state.mappings id = some root → root.kind.isRoot = true → id ∈ state.roots
  rootsOnly : ∀ id ∈ state.roots, ∀ root, state.mappings id = some root →
    root.kind.isRoot = true
  old : ∀ id ∈ state.roots, id < state.nextMapping
  /-- The pages of the roots that are gone, and of no others, were given back, once. -/
  released : ∀ id ∈ state.roots,
    state.released.count id = if (state.mappings id).isSome then 0 else 1
  releasedRoots : ∀ id ∈ state.released, id ∈ state.roots

namespace Counted

variable {state next : State} {held : List Nat} {id lender : Nat} {mapping root : Mapping}

theorem id_lt (hcounted : Counted state held) (hmapping : state.mappings id = some mapping) :
    id < state.nextMapping := by
  by_contra hle
  rw [hcounted.fresh id (by omega)] at hmapping
  simp at hmapping

/-- Nothing but the mappings and the logs matters, and which contexts exist. -/
theorem congr (hcounted : Counted state held) (hmappings : next.mappings = state.mappings)
    (hnext : next.nextMapping = state.nextMapping) (hroots : next.roots = state.roots)
    (hreleased : next.released = state.released)
    (hcontexts : ∀ id, (state.contexts id).isSome → (next.contexts id).isSome) :
    Counted next held := by
  have hloans : next.loans = state.loans := by
    funext root
    simp only [State.loans, hnext]
    apply tally_congr
    intro id _
    simp only [State.lenderOf, hmappings]
  obtain ⟨fresh, context, lender, references, positive, held, made, rootsOnly, old, released,
    releasedRoots⟩ :=
    hcounted
  refine ⟨?_, ?_, ?_, ?_, ?_, ?_, ?_, ?_, ?_, ?_, ?_⟩ <;> simp only [hmappings, hnext, hroots,
    hreleased, hloans] <;> try assumption
  exact fun id mapping hmapping => hcontexts _ (context id mapping hmapping)

/-- A new count in a root, with the references held to match it. -/
theorem recount (hcounted : Counted state held) {references : Nat} {held' : List Nat}
    (hroot : state.mappings id = some root) (hisRoot : root.kind.isRoot = true)
    (hreferences : references = state.loans id + held'.count id) (hpositive : 0 < references)
    (hother : ∀ other, other ≠ id → held'.count other = held.count other) :
    Counted (state.setMapping id (root.withReferences references)) held' := by
  have hloans : (state.setMapping id (root.withReferences references)).loans = state.loans := by
    funext rootId
    apply tally_congr
    intro other _
    by_cases hother : other = id
    · subst hother
      simp [State.lenderOf, State.setMapping, Mapping.withReferences, hroot]
    · simp [State.lenderOf, State.setMapping, hother]
  have hkeep : ∀ other, (∃ mapping, state.mappings other = some mapping ∧
      mapping.kind.isRoot = true) → ∃ mapping,
      (state.setMapping id (root.withReferences references)).mappings other = some mapping ∧
      mapping.kind.isRoot = true :=
    fun other hother => State.setMapping_isRoot
      (by simpa [Mapping.withReferences] using hisRoot) hother
  have hheld : ∀ other ∈ held', other = id ∨ other ∈ held := by
    intro other hmem
    by_cases heq : other = id
    · exact .inl heq
    · exact .inr (List.count_pos_iff.mp (hother other heq ▸ List.count_pos_iff.mpr hmem))
  constructor
  case fresh =>
    intro other hle
    have hne : other ≠ id := by
      have := hcounted.id_lt hroot
      exact fun heq => by simp [State.setMapping] at hle; omega
    simpa [State.setMapping, hne] using hcounted.fresh other hle
  case context =>
    intro other mapping hmapping
    rcases State.setMapping_eq_some.mp hmapping with ⟨rfl, rfl⟩ | ⟨_, hmapping⟩
    · exact hcounted.context other root hroot
    · exact hcounted.context other mapping hmapping
  case lender =>
    intro other mapping lender hmapping hlender
    rcases State.setMapping_eq_some.mp hmapping with ⟨rfl, rfl⟩ | ⟨_, hmapping⟩
    · exact hkeep lender (hcounted.lender other root lender hroot
        (by simpa [Mapping.withReferences] using hlender))
    · exact hkeep lender (hcounted.lender other mapping lender hmapping hlender)
  case references =>
    intro other mapping hmapping hkind
    rw [hloans]
    rcases State.setMapping_eq_some.mp hmapping with ⟨rfl, rfl⟩ | ⟨hne, hmapping⟩
    · rw [← hreferences]
      exact Kind.setReferences_references hisRoot
    · rw [hother other hne]
      exact hcounted.references other mapping hmapping hkind
  case positive =>
    intro other mapping hmapping hkind
    rcases State.setMapping_eq_some.mp hmapping with ⟨rfl, rfl⟩ | ⟨_, hmapping⟩
    · rw [Mapping.withReferences, Kind.setReferences_references hisRoot]
      exact hpositive
    · exact hcounted.positive other mapping hmapping hkind
  case held =>
    intro other hmem
    rcases hheld other hmem with rfl | hmem
    · exact hkeep other ⟨root, hroot, hisRoot⟩
    · exact hkeep other (hcounted.held other hmem)
  case made =>
    intro other mapping hmapping hkind
    rcases State.setMapping_eq_some.mp hmapping with ⟨rfl, rfl⟩ | ⟨_, hmapping⟩
    · exact hcounted.made other root hroot hisRoot
    · exact hcounted.made other mapping hmapping hkind
  case rootsOnly =>
    intro other hmem mapping hmapping
    rcases State.setMapping_eq_some.mp hmapping with ⟨rfl, rfl⟩ | ⟨_, hmapping⟩
    · simpa [Mapping.withReferences] using hisRoot
    · exact hcounted.rootsOnly other hmem mapping hmapping
  case old => exact hcounted.old
  case released =>
    intro other hmem
    rw [show (state.setMapping id _).released = state.released from rfl,
      hcounted.released other hmem]
    by_cases heq : other = id
    · subst heq
      simp [State.setMapping, hroot]
    · simp [State.setMapping, heq]
  case releasedRoots => exact hcounted.releasedRoots

/-- `pman_add_reference`: the caller holds one more. -/
theorem raise (hcounted : Counted state held) (hroot : state.mappings id = some root)
    (hisRoot : root.kind.isRoot = true) :
    Counted (state.setMapping id (root.withReferences (root.kind.references + 1)))
      (id :: held) := by
  apply hcounted.recount hroot hisRoot
  · rw [hcounted.references id root hroot hisRoot, List.count_cons_self]
    omega
  · omega
  · intro other hne
    exact List.count_cons_of_ne (Ne.symm hne)

/-- No live mapping has a lender without references. -/
theorem lenderOf_ne (hloans : state.loans id = 0) (hcounted : Counted state held) (other : Nat) :
    state.lenderOf other ≠ some id := by
  intro hlender
  have hlt : other < state.nextMapping := by
    by_contra hle
    simp [State.lenderOf, hcounted.fresh other (by omega)] at hlender
  exact tally_eq_zero_iff.mp hloans other hlt hlender

/-- A mapping that no live loan is from goes away. -/
theorem forget (hcounted : Counted state held) {held' : List Nat}
    (hmapping : state.mappings id = some mapping)
    (hlenders : ∀ other, state.lenderOf other ≠ some id)
    (hmappings : next.mappings = update state.mappings id none)
    (hnext : next.nextMapping = state.nextMapping) (hroots : next.roots = state.roots)
    (hreleased : next.released =
      if mapping.kind.isRoot = true then id :: state.released else state.released)
    (hcontexts : ∀ other, (state.contexts other).isSome → (next.contexts other).isSome)
    (hcount : ∀ other, other ≠ id →
      next.loans other + held'.count other = state.loans other + held.count other)
    (hheld : ∀ other ∈ held', other ≠ id ∧
      ∃ root, state.mappings other = some root ∧ root.kind.isRoot = true) :
    Counted next held' := by
  have hlook : ∀ other mapping, next.mappings other = some mapping →
      other ≠ id ∧ state.mappings other = some mapping := by
    intro other mapping hmapping
    exact update_none_eq_some.mp (hmappings ▸ hmapping)
  have hkeep : ∀ other, other ≠ id → next.mappings other = state.mappings other := by
    intro other hne
    rw [hmappings, update_of_ne hne]
  constructor
  case fresh =>
    intro other hle
    rw [hnext] at hle
    have := hcounted.id_lt hmapping
    rw [hkeep other (by omega)]
    exact hcounted.fresh other hle
  case context =>
    intro other mapping hother
    exact hcontexts _ (hcounted.context other mapping (hlook other mapping hother).2)
  case lender =>
    intro other mapping lender hother hlender
    have hother := (hlook other mapping hother).2
    have hne : lender ≠ id := by
      intro heq
      apply hlenders other
      simp [State.lenderOf, hother, hlender, heq]
    rw [hkeep lender hne]
    exact hcounted.lender other mapping lender hother hlender
  case references =>
    intro other root hother hisRoot
    obtain ⟨hne, hother⟩ := hlook other root hother
    rw [hcount other hne]
    exact hcounted.references other root hother hisRoot
  case positive =>
    intro other root hother hisRoot
    exact hcounted.positive other root (hlook other root hother).2 hisRoot
  case held =>
    intro other hmem
    obtain ⟨hne, hroot⟩ := hheld other hmem
    rwa [hkeep other hne]
  case made =>
    intro other root hother hisRoot
    rw [hroots]
    exact hcounted.made other root (hlook other root hother).2 hisRoot
  case old =>
    rw [hroots, hnext]
    exact hcounted.old
  case released =>
    intro other hmem
    rw [hroots] at hmem
    have hbefore := hcounted.released other hmem
    by_cases heq : other = id
    · subst heq
      -- only roots are in the list of roots
      have hisRoot : mapping.kind.isRoot = true := hcounted.rootsOnly other hmem mapping hmapping
      simp [hreleased, hisRoot, hmappings, hbefore, hmapping]
    · rw [hkeep other heq, ← hbefore, hreleased]
      split
      · exact List.count_cons_of_ne (Ne.symm heq)
      · rfl
  case releasedRoots =>
    intro other hmem
    rw [hroots]
    rw [hreleased] at hmem
    split at hmem
    next hisRoot =>
      rcases List.mem_cons.mp hmem with rfl | hmem
      · exact hcounted.made other mapping hmapping hisRoot
      · exact hcounted.releasedRoots other hmem
    next => exact hcounted.releasedRoots other hmem
  case rootsOnly =>
    intro other hmem root hother
    exact hcounted.rootsOnly other (hroots ▸ hmem) root (hlook other root hother).2

/-- A new mapping, and for a loan its lender, which the caller held. -/
theorem extend (hcounted : Counted state held) {held' : List Nat} (mapping : Mapping)
    (hmappings : next.mappings = update state.mappings state.nextMapping (some mapping))
    (hnext : next.nextMapping = state.nextMapping + 1)
    (hroots : next.roots =
      if mapping.kind.isRoot = true then state.nextMapping :: state.roots else state.roots)
    (hreleased : next.released = state.released)
    (hcontext : (next.contexts mapping.context).isSome)
    (hcontexts : ∀ other, (state.contexts other).isSome → (next.contexts other).isSome)
    (hlender : ∀ lender, mapping.kind.lender? = some lender →
      ∃ root, state.mappings lender = some root ∧ root.kind.isRoot = true)
    (hreferences : mapping.kind.isRoot = true →
      mapping.kind.references = next.loans state.nextMapping + held'.count state.nextMapping ∧
        0 < mapping.kind.references)
    (hcount : ∀ other, other ≠ state.nextMapping →
      next.loans other + held'.count other = state.loans other + held.count other)
    (hheld : ∀ other ∈ held', other ∈ held ∨
      other = state.nextMapping ∧ mapping.kind.isRoot = true) : Counted next held' := by
  have hlook : ∀ other found, next.mappings other = some found →
      (other = state.nextMapping ∧ found = mapping) ∨
        (other ≠ state.nextMapping ∧ state.mappings other = some found) := by
    intro other found hfound
    exact update_some_eq_some.mp (hmappings ▸ hfound)
  have hkeep : ∀ other root, state.mappings other = some root →
      next.mappings other = some root := by
    intro other root hother
    rw [hmappings]
    exact update_of_fresh (hcounted.fresh _ (Nat.le_refl _)) hother
  have hkeepRoot : ∀ other, (∃ root, state.mappings other = some root ∧
      root.kind.isRoot = true) → ∃ root, next.mappings other = some root ∧
      root.kind.isRoot = true :=
    fun other ⟨root, hother, hisRoot⟩ => ⟨root, hkeep other root hother, hisRoot⟩
  constructor
  case fresh =>
    intro other hle
    rw [hmappings, update_of_ne (by omega)]
    exact hcounted.fresh other (by omega)
  case context =>
    intro other found hfound
    rcases hlook other found hfound with ⟨_, rfl⟩ | ⟨_, hfound⟩
    · exact hcontext
    · exact hcontexts _ (hcounted.context other found hfound)
  case lender =>
    intro other found lender hfound hlent
    rcases hlook other found hfound with ⟨_, rfl⟩ | ⟨_, hfound⟩
    · exact hkeepRoot lender (hlender lender hlent)
    · exact hkeepRoot lender (hcounted.lender other found lender hfound hlent)
  case references =>
    intro other found hfound hisRoot
    rcases hlook other found hfound with ⟨rfl, rfl⟩ | ⟨hne, hfound⟩
    · exact (hreferences hisRoot).1
    · rw [hcount other hne]
      exact hcounted.references other found hfound hisRoot
  case positive =>
    intro other found hfound hisRoot
    rcases hlook other found hfound with ⟨rfl, rfl⟩ | ⟨hne, hfound⟩
    · exact (hreferences hisRoot).2
    · exact hcounted.positive other found hfound hisRoot
  case held =>
    intro other hmem
    rcases hheld other hmem with hmem | ⟨rfl, hisRoot⟩
    · exact hkeepRoot other (hcounted.held other hmem)
    · exact ⟨mapping, by rw [hmappings, update_self], hisRoot⟩
  case made =>
    intro other found hfound hisRoot
    rcases hlook other found hfound with ⟨rfl, rfl⟩ | ⟨_, hfound⟩
    · simp [hroots, hisRoot]
    · have hmem := hcounted.made other found hfound hisRoot
      rw [hroots]
      split
      · exact List.mem_cons_of_mem _ hmem
      · exact hmem
  case rootsOnly =>
    intro other hmem found hfound
    rw [hroots] at hmem
    rcases hlook other found hfound with ⟨rfl, rfl⟩ | ⟨hne, hfound⟩
    · by_contra hisRoot
      rw [if_neg hisRoot] at hmem
      exact absurd (hcounted.old _ hmem) (Nat.lt_irrefl _)
    · split at hmem
      · exact hcounted.rootsOnly other (List.mem_of_ne_of_mem hne hmem) found hfound
      · exact hcounted.rootsOnly other hmem found hfound
  case old =>
    intro other hmem
    rw [hroots] at hmem
    split at hmem
    · rcases List.mem_cons.mp hmem with rfl | hmem
      · omega
      · have := hcounted.old other hmem
        omega
    · have := hcounted.old other hmem
      omega
  case released =>
    intro other hmem
    rw [hreleased]
    by_cases heq : other = state.nextMapping
    · subst heq
      have hnever : state.nextMapping ∉ state.released := fun hmem =>
        absurd (hcounted.old _ (hcounted.releasedRoots _ hmem)) (Nat.lt_irrefl _)
      simp [hmappings, List.count_eq_zero_of_not_mem hnever]
    · have hmem : other ∈ state.roots := by
        rw [hroots] at hmem
        split at hmem
        · exact List.mem_of_ne_of_mem heq hmem
        · exact hmem
      rw [hmappings, update_of_ne heq]
      exact hcounted.released other hmem
  case releasedRoots =>
    intro other hmem
    have hmem := hcounted.releasedRoots other (hreleased ▸ hmem)
    rw [hroots]
    split
    · exact List.mem_cons_of_mem _ hmem
    · exact hmem

/-! ### The changes the calls are made of -/

theorem lenderOf_update (new : Option Mapping)
    (hmappings : next.mappings = update state.mappings id new) :
    next.lenderOf = update state.lenderOf id (new.bind fun found => found.kind.lender?) := by
  funext other
  by_cases heq : other = id
  · subst heq
    simp [State.lenderOf, hmappings]
  · simp [State.lenderOf, hmappings, heq]

/-- The loans after a new mapping. -/
theorem loans_link (context : Context) (other : Nat) :
    (link state context mapping).2.loans other =
      state.loans other + if mapping.kind.lender? = some other then 1 else 0 := by
  have hlenders : (link state context mapping).2.lenderOf =
      update state.lenderOf state.nextMapping mapping.kind.lender? :=
    lenderOf_update (some mapping) rfl
  show tally _ (state.nextMapping + 1) other = _
  rw [tally_succ, hlenders, update_self]
  congr 1
  apply tally_congr
  intro i hi
  rw [update_of_ne (by omega)]

theorem link_isSome {context : Context} (other : Nat) (hother : (state.contexts other).isSome) :
    ((link state context mapping).2.contexts other).isSome := by
  by_cases heq : other = mapping.context
  · subst heq
    simp [link]
  · simpa [link, heq] using hother

/-- The creator of a new root holds it. -/
theorem linkRoot (hcounted : Counted state held) (context : Context)
    (hisRoot : mapping.kind.isRoot = true) (hreferences : mapping.kind.references = 1) :
    Counted { (link state context mapping).2 with
      roots := state.nextMapping :: state.roots } (state.nextMapping :: held) := by
  have hnone := Kind.lender?_eq_none_iff.mpr hisRoot
  have hloans : ∀ other, ({ (link state context mapping).2 with
      roots := state.nextMapping :: state.roots } : State).loans other = state.loans other := by
    intro other
    exact (loans_link context other).trans (by simp [hnone])
  have hnever : state.loans state.nextMapping = 0 := by
    apply tally_eq_zero_iff.mpr
    intro other _ hlender
    obtain ⟨found, hfound, hlender⟩ := Option.bind_eq_some_iff.mp hlender
    obtain ⟨root, hroot, _⟩ := hcounted.lender other found _ hfound hlender
    exact absurd (hcounted.id_lt hroot) (Nat.lt_irrefl _)
  have hheld : state.nextMapping ∉ held := by
    intro hmem
    obtain ⟨root, hroot, _⟩ := hcounted.held _ hmem
    exact absurd (hcounted.id_lt hroot) (Nat.lt_irrefl _)
  refine hcounted.extend mapping rfl rfl (by simp [hisRoot]) rfl (by simp [link])
    link_isSome (by simp [hnone]) ?_ ?_ ?_
  · intro _
    rw [hloans, hnever, List.count_cons_self, List.count_eq_zero_of_not_mem hheld, hreferences]
    exact ⟨rfl, Nat.one_pos⟩
  · intro other hne
    rw [hloans, List.count_cons_of_ne (Ne.symm hne)]
  · intro other hmem
    rcases List.mem_cons.mp hmem with rfl | hmem
    · exact .inr ⟨rfl, hisRoot⟩
    · exact .inl hmem

/-- A reference that was held becomes a loan. -/
theorem linkLoan (hcounted : Counted state held) (context : Context)
    (hlender : mapping.kind.lender? = some lender) (hmem : lender ∈ held) :
    Counted (link state context mapping).2 (held.erase lender) := by
  have hisRoot := Kind.isRoot_eq_false hlender
  refine hcounted.extend mapping rfl rfl (by simp [hisRoot, link]) rfl
    (by simp [link]) link_isSome ?_ (by simp [hisRoot]) ?_ ?_
  · intro other hother
    obtain rfl : lender = other := Option.some.inj (hlender.symm.trans hother)
    exact hcounted.held lender hmem
  · intro other _
    rw [loans_link, hlender]
    by_cases heq : other = lender
    · subst heq
      have := List.count_pos_iff.mpr hmem
      rw [if_pos rfl, List.count_erase_self]
      omega
    · rw [if_neg (fun h => heq (Option.some.inj h).symm), List.count_erase_of_ne heq]
      omega
  · intro other hother
    exact .inl (List.mem_of_mem_erase hother)

/-- A holder gives its reference back. -/
theorem drop (hcounted : Counted state held) (hroot : state.mappings id = some root)
    (hmem : id ∈ held) : Counted (state.drop id root) (held.erase id) := by
  obtain ⟨_, hroot', hisRoot⟩ := hcounted.held id hmem
  obtain rfl : root = _ := Option.some.inj (hroot.symm.trans hroot')
  have hreferences := hcounted.references id root hroot hisRoot
  have hpos := List.count_pos_iff.mpr hmem
  have herase : (held.erase id).count id = held.count id - 1 := List.count_erase_self
  unfold State.drop
  split
  next hlast =>
    have hloans : state.loans id = 0 := by omega
    refine hcounted.forget hroot (lenderOf_ne hloans hcounted) rfl rfl rfl
      (by simp [hisRoot]) (by simp) ?_ ?_
    · intro other hne
      have hlenders : ({ state.remove id root with
          released := id :: state.released } : State).lenderOf =
            update state.lenderOf id none := lenderOf_update none rfl
      rw [List.count_erase_of_ne hne]
      congr 1
      apply tally_congr
      intro i _
      rw [hlenders]
      by_cases heq : i = id
      · subst heq
        simp [State.lenderOf, hroot, Kind.lender?_eq_none_iff.mpr hisRoot]
      · rw [update_of_ne heq]
    · intro other hother
      refine ⟨?_, hcounted.held other (List.mem_of_mem_erase hother)⟩
      rintro rfl
      have := List.count_pos_iff.mpr hother
      omega
  next hmore =>
    apply hcounted.recount hroot hisRoot
    · omega
    · omega
    · intro other hne
      exact List.count_erase_of_ne hne

/-- What a loan held of its lender is left over when it goes. -/
theorem removeLoan (hcounted : Counted state held) (hmapping : state.mappings id = some mapping)
    (hlender : mapping.kind.lender? = some lender) :
    Counted (state.remove id mapping) (lender :: held) := by
  have hisRoot := Kind.isRoot_eq_false hlender
  have hnotRoot : ¬∃ root, state.mappings id = some root ∧ root.kind.isRoot = true := by
    rintro ⟨root, hroot, hkind⟩
    obtain rfl : mapping = root := Option.some.inj (hmapping.symm.trans hroot)
    simp [hisRoot] at hkind
  refine hcounted.forget hmapping ?_ rfl rfl rfl (by simp [hisRoot, State.remove,
    State.modifyContext]) (by simp) ?_ ?_
  · intro other hother
    obtain ⟨found, hfound, hother⟩ := Option.bind_eq_some_iff.mp hother
    exact hnotRoot (hcounted.lender other found id hfound hother)
  · intro other _
    have hlenders : (state.remove id mapping).lenderOf = update state.lenderOf id none :=
      lenderOf_update none rfl
    have hbefore : state.lenderOf id = some lender := by simp [State.lenderOf, hmapping, hlender]
    have hbalance := tally_update (a := other) (f := state.lenderOf) (hcounted.id_lt hmapping) none
    rw [hbefore] at hbalance
    simp only [State.loans, hlenders, show (state.remove id mapping).nextMapping =
      state.nextMapping from rfl, List.count_cons, beq_iff_eq]
    simp only [Option.some.injEq, reduceCtorEq, if_false] at hbalance
    omega
  · intro other hother
    have hroot : ∃ root, state.mappings other = some root ∧ root.kind.isRoot = true := by
      rcases List.mem_cons.mp hother with rfl | hother
      · exact hcounted.lender id mapping other hmapping hlender
      · exact hcounted.held other hother
    exact ⟨fun heq => hnotRoot (heq ▸ hroot), hroot⟩

end Counted

/-! ## The calls -/

section Calls

variable {palloc : State → Nat → Option (List Nat)} {state next : State} {held : List Nat}
  {id context lender vaddr paddr size : Nat} {protection : Protection} {mapping root : Mapping}

theorem addAlloc_counted (hcounted : Counted state held)
    (hcall : addAlloc palloc state context protection vaddr size = .ok (id, next)) :
    Counted next (id :: held) := by
  obtain ⟨target, place, paddrs, _, _, _, _, rfl, rfl⟩ := addAlloc_eq_ok hcall
  exact hcounted.linkRoot _ rfl rfl

theorem addMap_counted (hcounted : Counted state held)
    (hcall : addMap palloc state context protection vaddr paddr size = .ok (id, next)) :
    Counted next (id :: held) := by
  obtain ⟨target, place, base, _, _, _, rfl, rfl⟩ := addMap_eq_ok hcall
  exact hcounted.linkRoot _ rfl rfl

/-- A loan is not held by anybody; the reference to its root is the loan itself. -/
theorem addLoan_counted {kind : Nat → Kind} {write : Bool}
    (hkind : ∀ lender, (kind lender).lender? = some lender) (hcounted : Counted state held)
    (hcall : addLoan kind write state context protection lender vaddr = .ok (id, next)) :
    Counted next held := by
  obtain ⟨rootId, root, source, target, place, _, hroot, hisRoot, _, _, _, rfl, rfl⟩ :=
    addLoan_eq_ok hcall
  have hraised := hcounted.raise hroot hisRoot
  simpa using hraised.linkLoan _ (hkind rootId) List.mem_cons_self

theorem addShared_counted (hcounted : Counted state held)
    (hcall : addShared state context protection lender vaddr = .ok (id, next)) :
    Counted next held :=
  addLoan_counted (fun _ => rfl) hcounted hcall

theorem Counted.unmap_root (hcounted : Counted state held) (hmem : id ∈ held) :
    ∃ root, state.mappings id = some root ∧ unmap state id = .ok (state.drop id root) := by
  obtain ⟨root, hroot, hisRoot⟩ := hcounted.held id hmem
  exact ⟨root, hroot, Pman.unmap_root hroot hisRoot (hcounted.context id root hroot)⟩

theorem Counted.unmap_loan (hcounted : Counted state held)
    (hmapping : state.mappings id = some mapping)
    (hlender : mapping.kind.lender? = some lender) :
    ∃ root, state.mappings lender = some root ∧ root.kind.isRoot = true ∧
      unmap state id = .ok ((state.drop lender root).remove id mapping) := by
  obtain ⟨root, hroot, hisRoot⟩ := hcounted.lender id mapping lender hmapping hlender
  have hpos : 0 < state.nextMapping := Nat.zero_lt_of_lt (hcounted.id_lt hmapping)
  exact ⟨root, hroot, hisRoot, Pman.unmap_loan hpos hmapping hlender hroot hisRoot
    (hcounted.context id mapping hmapping) (hcounted.context lender root hroot)⟩

theorem unmap_root_counted (hcounted : Counted state held) (hmem : id ∈ held)
    (hcall : unmap state id = .ok next) : Counted next (held.erase id) := by
  obtain ⟨root, hroot, hunmap⟩ := hcounted.unmap_root hmem
  obtain rfl : state.drop id root = next := Except.ok.inj (hunmap.symm.trans hcall)
  exact hcounted.drop hroot hmem

theorem unmap_loan_counted (hcounted : Counted state held)
    (hmapping : state.mappings id = some mapping)
    (hlender : mapping.kind.lender? = some lender) (hcall : unmap state id = .ok next) :
    Counted next held := by
  obtain ⟨root, hroot, hisRoot, hunmap⟩ := hcounted.unmap_loan hmapping hlender
  obtain rfl : _ = next := Except.ok.inj (hunmap.symm.trans hcall)
  have hne : lender ≠ id := by
    rintro rfl
    obtain rfl : mapping = root := Option.some.inj (hmapping.symm.trans hroot)
    simp [Kind.isRoot_eq_false hlender] at hisRoot
  -- the counts do not depend on which of the two goes first
  have hremoved := hcounted.removeLoan hmapping hlender
  have hroot' : (state.remove id mapping).mappings lender = some root := by
    rw [State.remove_mappings, update_of_ne hne]
    exact hroot
  have hdropped := hremoved.drop hroot' List.mem_cons_self
  rw [List.erase_cons_head] at hdropped
  refine hdropped.congr ?_ ?_ ?_ ?_ ?_
  · rw [State.remove_mappings, State.drop_mappings, State.drop_mappings, State.remove_mappings,
      update_comm hne]
  · simp [State.remove, State.modifyContext]
  · unfold State.drop
    split <;> rfl
  · unfold State.drop
    split <;> rfl
  · simp

/-- A loan stays where it is when another mapping is made. -/
theorem addAlloc_mappings_of_live (hcounted : Counted state held)
    (hcall : addAlloc palloc state context protection vaddr size = .ok (id, next)) {other : Nat}
    (hother : state.mappings other = some mapping) : next.mappings other = some mapping := by
  obtain ⟨target, place, paddrs, _, _, _, _, rfl, rfl⟩ := addAlloc_eq_ok hcall
  have hlt := hcounted.id_lt hother
  show update state.mappings state.nextMapping _ other = _
  rwa [update_of_ne (by omega)]

/-- The root that the loan is remapped to is held. -/
theorem RemapStart.counted {start : State} {lenderId : Nat}
    (hstart : RemapStart palloc state id lenderId start) (hcounted : Counted state held)
    (hmapping : state.mappings id = some mapping)
    (hlender : mapping.kind.lender? = some lender) :
    Counted start (lenderId :: held) ∧ start.mappings id = some mapping := by
  cases hstart with
  | @raise _ root _ hroot hisRoot =>
      have hne : id ≠ lenderId := by
        rintro rfl
        obtain rfl : mapping = root := Option.some.inj (hmapping.symm.trans hroot)
        simp [Kind.isRoot_eq_false hlender] at hisRoot
      refine ⟨hcounted.raise hroot hisRoot, ?_⟩
      simpa [State.setMapping, hne] using hmapping
  | copy _ _ halloc memory =>
      exact ⟨(addAlloc_counted hcounted halloc).congr rfl rfl rfl rfl (fun _ h => h),
        addAlloc_mappings_of_live hcounted halloc hmapping⟩

/-- Whatever path it takes, what `pman_context_prepare_write` holds in between it
gives back. -/
theorem prepareWrite_counted {user : Nat} (hcounted : Counted state held)
    (hcall : prepareWrite palloc state id = .ok (user, next)) : Counted next held := by
  obtain ⟨mapping, hmapping, ⟨_, _, rfl⟩ | ⟨lender, lenderId, start, removed, shared, hkind, hstart,
    hremaps⟩⟩ := prepareWrite_cases hcall
  · exact hcounted
  have hlender : mapping.kind.lender? = some lender := by rw [hkind]; rfl
  obtain ⟨hraised, hmapping'⟩ := hstart.counted hcounted hmapping hlender
  have hremoved := unmap_loan_counted hraised hmapping' hlender hremaps.remove
  simpa using unmap_root_counted (addShared_counted hremoved hremaps.share) List.mem_cons_self
    hremaps.drop

end Calls

end PKernel.Pman
