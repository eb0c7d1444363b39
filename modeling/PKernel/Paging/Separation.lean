import PKernel.Paging.Loans
import PKernel.Programs.ArgumentStrings

/-! # Which loans share frames

The frames of the roots are apart, so two mappings have a byte in common only if they are loans of
one root. Such loans are all read-only until they are written to, or are all to be shared.
-/

namespace PKernel.Pman

open Library.Lookup Library.Tally

/-- The frames of the live roots have no byte in common. -/
def FramesApart (state : State) : Prop :=
  ∀ first second i j frame other, (first ≠ second ∨ i ≠ j) → state.frameOf first i = some frame →
    state.frameOf second j = some other → PagesApart frame other

/-- The pages that are handed out together are apart, and no live root has any of them. -/
def Fresh (palloc : State → Nat → Option (List Nat)) : Prop :=
  ∀ state held count paddrs, Counted state held → palloc state count = some paddrs →
    paddrs.Pairwise PagesApart ∧ ∀ paddr ∈ paddrs, ∀ id page frame,
      state.frameOf id page = some frame → PagesApart paddr frame

/-- Whether a loan is read-only until it is written to. -/
def Mapping.isBorrowed (mapping : Mapping) : Bool :=
  match mapping.kind with
  | .borrowed _ => true
  | .alloc _ _ | .map _ _ | .shared _ => false

/-- Two loans may be of one root. -/
def Mapping.Alike (loan other : Mapping) : Prop :=
  loan.isBorrowed = true ∧ other.isBorrowed = true ∨
    loan.protection.shared = true ∧ other.protection.shared = true

/-- Loans that may be there together. -/
structure Compatible (held : List Nat) (loans : Nat → Option Mapping) : Prop where
  pairs : ∀ first second loan other lender, first ≠ second → loans first = some loan →
    loans second = some other → loan.kind.lender? = some lender →
    other.kind.lender? = some lender → loan.Alike other
  borrowed : ∀ id loan, loans id = some loan → loan.isBorrowed = true →
    loan.protection.shared = false
  /-- What the kernel holds on to it lends to be shared. -/
  held : ∀ id loan lender, loans id = some loan → loan.kind.lender? = some lender →
    lender ∈ held → loan.protection.shared = true

/-- Who may have a byte in common with whom. -/
structure Separated (held : List Nat) (state : State) : Prop where
  frames : FramesApart state
  compatible : Compatible held state.loan?

theorem Mapping.Alike.symm {loan other : Mapping} (halike : loan.Alike other) :
    other.Alike loan := by
  rcases halike with ⟨hloan, hother⟩ | ⟨hloan, hother⟩
  · exact .inl ⟨hother, hloan⟩
  · exact .inr ⟨hother, hloan⟩

theorem PagesApart.symm {first second : Nat} (hapart : PagesApart first second) :
    PagesApart second first := Or.symm hapart

section Frames

variable {windows : Nat → List (Nat × Nat)} {state next : State} {held : List Nat}
  {id rootId : Nat} {loan root : Mapping} {offset : Nat}

theorem Settled.frameOf_isSome (hsettled : Settled windows held state)
    (hroot : state.mappings rootId = some root) (hisRoot : root.kind.isRoot = true) {page : Nat}
    (hpage : page < root.sizePages) : ∃ frame, state.frameOf rootId page = some frame := by
  have hwhole := hsettled.mirrored.whole rootId root hroot
  obtain ⟨frame, hframe⟩ := Option.isSome_iff_exists.mp (hwhole.frame_isSome hisRoot hpage)
  exact ⟨frame, by rw [State.frameOf, hroot, Option.bind_some, hframe]⟩

/-- Roots that keep their frames are as far apart as they were. -/
theorem FramesApart.left (hapart : FramesApart state) (hleft : RootsLeft state next) :
    FramesApart next := by
  intro first second i j frame other hne hframe hother
  exact hapart first second i j frame other hne (hleft.frameOf hframe) (hleft.frameOf hother)

theorem FramesApart.spread (hapart : FramesApart state) (hroot : state.mappings id = some root) :
    root.Spread := by
  intro i j first second hne hfirst hsecond
  refine hapart id id i j first second (.inr hne) ?_ ?_
  · rw [State.frameOf, hroot, Option.bind_some, hfirst]
  · rw [State.frameOf, hroot, Option.bind_some, hsecond]

/-- A place is in the frames of one root only, and at one offset. -/
theorem Settled.place_injective (hsettled : Settled windows held state)
    (hapart : FramesApart state) (hroot : state.mappings rootId = some root)
    (hisRoot : root.kind.isRoot = true) {otherId otherOffset : Nat} {other : Mapping}
    (hother : state.mappings otherId = some other) (hotherRoot : other.kind.isRoot = true)
    (hoffset : offset < root.sizePages * pageSize)
    (hotherOffset : otherOffset < other.sizePages * pageSize)
    (hsame : state.place rootId offset = state.place otherId otherOffset) :
    rootId = otherId ∧ offset = otherOffset := by
  have hpage : offset / pageSize < root.sizePages := by
    unfold pageSize at *
    omega
  have hotherPage : otherOffset / pageSize < other.sizePages := by
    unfold pageSize at *
    omega
  obtain ⟨frame, hframe⟩ := hsettled.frameOf_isSome hroot hisRoot hpage
  obtain ⟨found, hfound⟩ := hsettled.frameOf_isSome hother hotherRoot hotherPage
  simp only [State.place, hframe, hfound, Option.getD_some] at hsame
  by_cases hne : rootId ≠ otherId ∨ offset / pageSize ≠ otherOffset / pageSize
  · have := hapart _ _ _ _ frame found hne hframe hfound
    unfold PagesApart pageSize at *
    omega
  · obtain ⟨hroots, hpages⟩ : rootId = otherId ∧ offset / pageSize = otherOffset / pageSize := by
      constructor <;> by_contra h <;> simp [h] at hne
    subst hroots
    rw [hpages] at hframe
    cases hframe.symm.trans hfound
    refine ⟨rfl, ?_⟩
    unfold pageSize at *
    omega

/-- Loans that go leave the others as they were. -/
theorem Compatible.sub {loans after : Nat → Option Mapping} (hcompatible : Compatible held loans)
    (hsub : ∀ id loan, after id = some loan → loans id = some loan) : Compatible held after := by
  refine ⟨?_, ?_, ?_⟩
  · intro first second loan other lender hne hloan hother
    exact hcompatible.pairs first second loan other lender hne (hsub _ _ hloan) (hsub _ _ hother)
  · exact fun id loan hloan => hcompatible.borrowed id loan (hsub _ _ hloan)
  · exact fun id loan lender hloan => hcompatible.held id loan lender (hsub _ _ hloan)

theorem Compatible.erase {loans : Nat → Option Mapping} (hcompatible : Compatible held loans)
    (id : Nat) : Compatible held (Function.update loans id none) :=
  hcompatible.sub fun _ _ hfound => (update_none_eq_some.mp hfound).2

/-- A new loan that goes with the other loans of its root. -/
theorem Compatible.insert {loans : Nat → Option Mapping} (hcompatible : Compatible held loans)
    (halike : ∀ other found lender, other ≠ id → loans other = some found →
      found.kind.lender? = some lender → loan.kind.lender? = some lender → loan.Alike found)
    (hborrowed : loan.isBorrowed = true → loan.protection.shared = false)
    (hheld : ∀ lender, loan.kind.lender? = some lender → lender ∈ held →
      loan.protection.shared = true) :
    Compatible held (Function.update loans id (some loan)) := by
  refine ⟨?_, ?_, ?_⟩
  · intro first second one two lender hne hone htwo hlender hlender'
    rcases update_some_eq_some.mp hone with ⟨rfl, rfl⟩ | ⟨_, hfirst⟩
    · rcases update_some_eq_some.mp htwo with ⟨rfl, rfl⟩ | ⟨_, hsecond⟩
      · exact absurd rfl hne
      · exact halike second two lender hne.symm hsecond hlender' hlender
    · rcases update_some_eq_some.mp htwo with ⟨rfl, rfl⟩ | ⟨_, hsecond⟩
      · exact (halike first one lender hne hfirst hlender hlender').symm
      · exact hcompatible.pairs first second one two lender hne hfirst hsecond hlender hlender'
  · intro other found hfound
    rcases update_some_eq_some.mp hfound with ⟨rfl, rfl⟩ | ⟨_, hfound⟩
    · exact hborrowed
    · exact hcompatible.borrowed other found hfound
  · intro other found lender hfound hlender hmem
    rcases update_some_eq_some.mp hfound with ⟨rfl, rfl⟩ | ⟨_, hfound⟩
    · exact hheld lender hlender hmem
    · exact hcompatible.held other found lender hfound hlender hmem

/-- Nobody else has a loan of a root that has one reference. -/
theorem Settled.sole (hsettled : Settled windows held state) (hloan : state.loan? id = some loan)
    (hlender : loan.kind.lender? = some rootId) (hroot : state.mappings rootId = some root)
    (hisRoot : root.kind.isRoot = true) (hone : root.kind.references = 1) :
    rootId ∉ held ∧ ∀ other found, state.loan? other = some found →
      found.kind.lender? = some rootId → other = id := by
  have hcounted := hsettled.counted
  have hreferences := hcounted.references rootId root hroot hisRoot
  have hmapping := (State.loan?_eq_some.mp hloan).1
  have hlenderOf : state.lenderOf id = some rootId := by
    rw [State.lenderOf, hmapping, Option.bind_some, hlender]
  have hpositive : state.loans rootId ≠ 0 := by
    intro hzero
    exact tally_eq_zero_iff.mp hzero id (hcounted.id_lt hmapping) hlenderOf
  constructor
  · intro hheld
    have := List.count_pos_iff.mpr hheld
    omega
  · intro other found hfound hfoundLender
    by_contra hne
    have hother := (State.loan?_eq_some.mp hfound).1
    have hotherOf : state.lenderOf other = some rootId := by
      rw [State.lenderOf, hother, Option.bind_some, hfoundLender]
    have hmore : 1 < state.loans rootId :=
      one_lt_tally hne (hcounted.id_lt hother) (hcounted.id_lt hmapping) hotherOf hlenderOf
    omega

end Frames

/-! ## A new root -/

/-- One root more, which nothing is lent from. -/
structure Allocates (state : State) (id sizePages : Nat) (next : State) : Prop where
  fresh : state.mappings id = none
  root : ∃ root, next.mappings id = some root ∧ root.kind.isRoot = true ∧
    root.sizePages = sizePages ∧ root.kind.references = 1
  loans : next.loan? = state.loan?
  frames : ∀ other, other ≠ id → next.frameOf other = state.frameOf other
  kept : ∀ other found, state.mappings other = some found → next.mappings other = some found
  memory : next.memory = state.memory
  contexts : ∀ other, other ≠ kernelContext → next.contexts other = state.contexts other

section Allocate

variable {palloc : State → Nat → Option (List Nat)} {windows : Nat → List (Nat × Nat)}
  {state next : State} {held : List Nat} {id size : Nat} {protection : Protection}

/-- A root that the kernel makes at a place of the manager's choice. -/
theorem Settled.addAlloc (hsettled : Settled windows held state) (hpalloc : Exact palloc)
    (hsize : size < 2 ^ 64)
    (hcall : Pman.addAlloc palloc state kernelContext protection 0 size = .ok (id, next)) :
    Settled windows (id :: held) next ∧ Allocates state id (divUp size pageSize) next := by
  obtain ⟨hcounted, hlaid, hmirrored, hrooted⟩ := hsettled
  obtain ⟨target, place, paddrs, htarget, hplace, hpositive, hpaddrs, hid, hnext⟩ :=
    addAlloc_eq_ok hcall
  have hplaceable : ∀ target, state.contexts kernelContext = some target →
      Placeable target.regions 0 (divUp size pageSize) false :=
    fun _ _ => ⟨Nat.pos_of_ne_zero hpositive, .inl ⟨rfl, rfl⟩⟩
  obtain ⟨after, mapping, _, hcontext, hisRoot, _, hmappings, hcontexts⟩ := addAlloc_frame hcall
  refine ⟨⟨addAlloc_counted hcounted hcall,
    addAlloc_laidOut hcounted hlaid hsize hplaceable hcall,
    addAlloc_mirrored hpalloc hmirrored hcounted hlaid hsize hplaceable hcall,
    hrooted.insert hcontext hmappings hcontexts⟩, ?_⟩
  have hfresh : state.mappings id = none := hid ▸ hcounted.fresh _ (Nat.le_refl _)
  constructor
  case fresh => exact hfresh
  case root =>
    subst hid hnext
    exact ⟨_, Function.update_self _ _ _, rfl, rfl, rfl⟩
  case loans =>
    have hnone : state.loan? id = none := by simp [State.loan?, hfresh]
    rw [State.loan?_update hmappings]
    simp [Option.filter, hisRoot, ← hnone]
  case frames =>
    intro other hother
    funext page
    simp [State.frameOf, hmappings, hother]
  case kept => exact fun other found hfound => addAlloc_mappings_of_live hcounted hcall hfound
  case memory => rw [hnext]; rfl
  case contexts =>
    intro other hother
    rw [hcontexts, Function.update_of_ne hother]

/-- A new mapping whose frames are nobody else's. -/
theorem FramesApart.insert (hapart : FramesApart state) {root : Mapping} (hspread : root.Spread)
    (hmappings : next.mappings = Function.update state.mappings id (some root))
    (hnew : ∀ page frame, root.frame? page = some frame → ∀ other otherPage found,
      state.frameOf other otherPage = some found → PagesApart frame found) :
    FramesApart next := by
  have hcases : ∀ other page frame, next.frameOf other page = some frame →
      (other = id ∧ root.frame? page = some frame) ∨
        (other ≠ id ∧ state.frameOf other page = some frame) := by
    intro other page frame hframe
    by_cases heq : other = id
    · subst heq
      exact .inl ⟨rfl, by simpa [State.frameOf, hmappings] using hframe⟩
    · exact .inr ⟨heq, by simpa [State.frameOf, hmappings, heq] using hframe⟩
  intro first second i j frame other hne hframe hother
  rcases hcases first i frame hframe with ⟨hfirst, hown⟩ | ⟨_, hold⟩
  · rcases hcases second j other hother with ⟨hsecond, hown'⟩ | ⟨_, hold'⟩
    · refine hspread i j frame other ?_ hown hown'
      simpa [hfirst, hsecond] using hne
    · exact hnew i frame hown second j other hold'
  · rcases hcases second j other hother with ⟨_, hown'⟩ | ⟨_, hold'⟩
    · exact (hnew j other hown' first i frame hold).symm
    · exact hapart first second i j frame other hne hold hold'

theorem FramesApart.addAlloc (hapart : FramesApart state) (hpalloc : Fresh palloc)
    (hcounted : Counted state held)
    (hcall : Pman.addAlloc palloc state kernelContext protection 0 size = .ok (id, next)) :
    FramesApart next := by
  obtain ⟨target, place, paddrs, _, _, _, hpaddrs, rfl, rfl⟩ := addAlloc_eq_ok hcall
  obtain ⟨hpairs, hnew⟩ := hpalloc _ _ _ _ hcounted hpaddrs
  refine hapart.insert (.alloc hpairs) rfl ?_
  intro page frame hframe
  exact hnew frame (List.mem_of_getElem? hframe)

end Allocate

end PKernel.Pman
