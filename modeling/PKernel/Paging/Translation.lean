import PKernel.Paging.RangeRun

/-! # What the page tables say

As long as every request for addresses can be granted, the page table of a
context spells out the list of its mappings: each page of a mapping is mapped to
the frame of its root, writable as the type and the protection of the mapping
say, and no page outside of a range in use is mapped. So `mapRoot`, which halts
at a page that is mapped already, returns: the ranges are apart.
-/

namespace PKernel.Pman

open PageTables (Leaf Flags)
open Valloc (Region WellFormed Apart reserved)
open Library.Transition

/-- A page is in a range. -/
def InRange (range : Nat × Nat) (page : Nat) : Prop :=
  range.1 ≤ page * pageSize ∧ page * pageSize < range.1 + pageSize * range.2

theorem InRange.not_apart {first second : Nat × Nat} {page : Nat} (hfirst : InRange first page)
    (hsecond : InRange second page) : ¬Apart first second := by
  unfold InRange Apart at *
  omega

theorem inRange_iff {vaddr sizePages page : Nat} (haligned : pageSize ∣ vaddr) :
    InRange (vaddr, sizePages) page ↔
      vaddr / pageSize ≤ page ∧ page < vaddr / pageSize + sizePages := by
  obtain ⟨first, rfl⟩ := haligned
  unfold InRange pageSize
  omega

/-- Each page of a mapping is in its range. -/
theorem inRange_add {vaddr sizePages i : Nat} (haligned : pageSize ∣ vaddr) (hi : i < sizePages) :
    InRange (vaddr, sizePages) (vaddr / pageSize + i) :=
  (inRange_iff haligned).mpr ⟨Nat.le_add_right _ _, Nat.add_lt_add_left hi _⟩

/-! ## Mapping the pages of a root -/

/-- A root of pages has as many as its size says. -/
def Mapping.Whole (root : Mapping) : Prop :=
  ∀ references paddrs, root.kind = .alloc references paddrs → paddrs.length = root.sizePages

section Roots

variable {root : Mapping} {table : Table} {flags : Flags} {vaddr page i : Nat}

theorem Mapping.Whole.withReferences (hwhole : root.Whole) (references : Nat) :
    (root.withReferences references).Whole := by
  intro count paddrs hkind
  cases hroot : root.kind with
  | alloc before list =>
      simp only [Mapping.withReferences, hroot, Kind.setReferences, Kind.alloc.injEq] at hkind
      obtain ⟨_, rfl⟩ := hkind
      exact hwhole before list hroot
  | _ => simp [Mapping.withReferences, hroot, Kind.setReferences] at hkind

theorem Mapping.Whole.frame_isSome (hwhole : root.Whole) (hisRoot : root.kind.isRoot = true)
    (hi : i < root.sizePages) : (root.frame? i).isSome := by
  unfold Mapping.frame?
  cases hkind : root.kind with
  | alloc references paddrs => simpa [hwhole references paddrs hkind] using hi
  | map references paddr => simp [hi]
  | borrowed lender => simp [Kind.isRoot, hkind] at hisRoot
  | shared lender => simp [Kind.isRoot, hkind] at hisRoot

theorem Mapping.Whole.frame?_eq_none (hwhole : root.Whole) (hi : root.sizePages ≤ i) :
    root.frame? i = none := by
  unfold Mapping.frame?
  cases hkind : root.kind with
  | alloc references paddrs => simpa [hwhole references paddrs hkind] using hi
  | map references paddr => simpa using hi
  | _ => rfl

theorem withRoot_of_isSome (hpage : (table page).isSome) :
    withRoot table flags vaddr root page = table page := by
  obtain ⟨leaf, hleaf⟩ := Option.isSome_iff_exists.mp hpage
  simp [withRoot, hleaf]

/-- A root maps no more pages than it has. -/
theorem withRoot_outside (hwhole : root.Whole)
    (houtside : page < vaddr / pageSize ∨ vaddr / pageSize + root.sizePages ≤ page) :
    withRoot table flags vaddr root page = table page := by
  unfold withRoot
  split
  next hfirst =>
    rw [hwhole.frame?_eq_none (by omega)]
    simp
  next => simp

/-- On a free page a root maps its frame. -/
theorem withRoot_frame (hfree : table (vaddr / pageSize + i) = none) {paddr : Nat}
    (hframe : root.frame? i = some paddr) :
    withRoot table flags vaddr root (vaddr / pageSize + i) = some ⟨paddr, flags⟩ := by
  simp [withRoot, hfree, hframe]

end Roots

/-! ## The tables and the mappings -/

/-- Whether the pages of a mapping are writable. -/
def Mapping.writes (mapping : Mapping) : Bool :=
  match mapping.kind with
  | .borrowed _ => false
  | .alloc _ _ | .map _ _ | .shared _ => mapping.protection.write

/-- The flags that the pages of a mapping have. -/
def Mapping.flags (mapping : Mapping) : Flags :=
  flagsOf mapping.context mapping.protection mapping.writes

/-- The frame behind a page of a mapping: its own for a root, its lender's for a loan. -/
def State.frame? (state : State) (mapping : Mapping) (i : Nat) : Option Nat :=
  match mapping.kind.lender? with
  | none => mapping.frame? i
  | some lender => (state.mappings lender).bind fun root => root.frame? i

@[simp]
theorem Mapping.withReferences_flags (mapping : Mapping) (references : Nat) :
    (mapping.withReferences references).flags = mapping.flags := by
  obtain ⟨context, protection, vaddr, sizePages, kind⟩ := mapping
  cases kind <;> rfl

/-- The page table of a context agrees with those of its mappings that are
`kept`. A root goes before the loan that held its last reference, so between the
two there is one mapping without frames. -/
structure MirroredOn (kept : Nat → Prop) (state : State) : Prop where
  whole : ∀ id mapping, state.mappings id = some mapping → mapping.Whole
  keptMapped : ∀ id mapping context, kept id → state.mappings id = some mapping →
    state.contexts mapping.context = some context → ∀ i < mapping.sizePages,
      ∃ paddr, state.frame? mapping i = some paddr ∧
        context.table (mapping.vaddr / pageSize + i) = some ⟨paddr, mapping.flags⟩
  inside : ∀ id context page, state.contexts id = some context → (context.table page).isSome →
    ∃ range ∈ reserved context.regions, InRange range page

/-- The page table of a context agrees with its mappings. -/
abbrev Mirrored : State → Prop := MirroredOn fun _ => True

namespace MirroredOn

variable {kept kept' : Nat → Prop} {windows : Nat → List (Nat × Nat)} {state next : State}
  {id : Nat} {mapping : Mapping} {target : Context}

theorem congr (hmirrored : MirroredOn kept state) (hcontexts : next.contexts = state.contexts)
    (hmappings : next.mappings = state.mappings) : MirroredOn kept next := by
  have hframe : next.frame? = state.frame? := by
    funext mapping i
    simp only [State.frame?, hmappings]
  obtain ⟨whole, mapped, inside⟩ := hmirrored
  constructor <;> simp only [hcontexts, hmappings, hframe] <;> assumption

/-- A mapping takes its pages with it, and no others. -/
theorem remove (hmirrored : MirroredOn kept state) (hlaid : LaidOut windows state)
    (hmapping : state.mappings id = some mapping)
    (htarget : state.contexts mapping.context = some target)
    (hkept : ∀ other, kept' other → other ≠ id → kept other ∧ state.lenderOf other ≠ some id) :
    MirroredOn kept' (state.remove id mapping) := by
  have hwell := hlaid.wellFormed _ target htarget
  obtain ⟨regions, hrelease, _, hperm⟩ :=
    Valloc.release_spec hwell (hlaid.mem_reserved hmapping htarget)
  have hregions : (Valloc.release target.regions mapping.vaddr).2 = regions :=
    congrArg Prod.snd hrelease
  have haligned := (hlaid.vacant_release hmapping htarget).1
  constructor
  case whole =>
    intro other found hfound
    exact hmirrored.whole other found (State.remove_mapping_eq_some.mp hfound).2
  case keptMapped =>
    intro other found context hother hfound hcontext i hi
    obtain ⟨hne, hbefore⟩ := State.remove_mapping_eq_some.mp hfound
    obtain ⟨hother, hunlent⟩ := hkept other hother hne
    have hframe : (state.remove id mapping).frame? found i = state.frame? found i := by
      unfold State.frame?
      cases hlender : found.kind.lender? with
      | none => rfl
      | some lender =>
          have hlent : lender ≠ id := by
            rintro rfl
            apply hunlent
            rw [State.lenderOf, hbefore]
            exact hlender
          simp [State.remove_mappings, hlent]
    rw [hframe]
    by_cases hsame : found.context = mapping.context
    · rw [hsame, State.remove_context htarget] at hcontext
      cases hcontext
      obtain ⟨paddr, hpaddr, hpage⟩ :=
        hmirrored.keptMapped other found target hother hbefore (hsame ▸ htarget) i hi
      refine ⟨paddr, hpaddr, ?_⟩
      -- the two ranges are apart, so the page is not among those that go
      have hstays : ¬InRange mapping.range (found.vaddr / pageSize + i) := by
        intro hin
        have hown : InRange found.range (found.vaddr / pageSize + i) :=
          inRange_add (hlaid.vacant_release hbefore (hsame ▸ htarget)).1 hi
        exact hown.not_apart hin (hlaid.apart hne hbefore hmapping hsame (hsame ▸ htarget))
      rw [Mapping.range, inRange_iff haligned] at hstays
      simp only [unmapRange, if_neg hstays]
      exact hpage
    · rw [State.remove_context_ne hsame] at hcontext
      exact hmirrored.keptMapped other found context hother hbefore hcontext i hi
  case inside =>
    intro contextId context page hcontext hpage
    by_cases hsame : contextId = mapping.context
    · subst hsame
      rw [State.remove_context htarget] at hcontext
      cases hcontext
      simp only [unmapRange] at hpage
      split at hpage
      next => simp at hpage
      next hstays =>
        obtain ⟨range, hrange, hin⟩ := hmirrored.inside _ target page htarget hpage
        rcases List.mem_cons.mp (hperm.mem_iff.mp hrange) with rfl | hrange
        · exact absurd ((inRange_iff haligned).mp hin) hstays
        · exact ⟨range, hregions ▸ hrange, hin⟩
    · rw [State.remove_context_ne hsame] at hcontext
      exact hmirrored.inside contextId context page hcontext hpage

end MirroredOn

namespace Mirrored

variable {windows : Nat → List (Nat × Nat)} {state : State} {held : List Nat}
  {id lender : Nat} {mapping root : Mapping} {target : Context}

theorem mapped (hmirrored : Mirrored state) {context : Context}
    (hmapping : state.mappings id = some mapping)
    (hcontext : state.contexts mapping.context = some context) {i : Nat}
    (hi : i < mapping.sizePages) :
    ∃ paddr, state.frame? mapping i = some paddr ∧
      context.table (mapping.vaddr / pageSize + i) = some ⟨paddr, mapping.flags⟩ :=
  hmirrored.keptMapped id mapping context trivial hmapping hcontext i hi

/-- A new reference count maps nothing else. -/
theorem recount (hmirrored : Mirrored state) (hroot : state.mappings id = some root)
    (references : Nat) : Mirrored (state.setMapping id (root.withReferences references)) := by
  have hframe : ∀ found i,
      (state.setMapping id (root.withReferences references)).frame? found i =
        state.frame? found i := by
    intro found i
    unfold State.frame?
    cases found.kind.lender? with
    | none => rfl
    | some lender =>
        by_cases heq : lender = id
        · subst heq
          simp [State.setMapping, hroot]
        · simp [State.setMapping, heq]
  have hself : ∀ i, state.frame? (root.withReferences references) i = state.frame? root i := by
    intro i
    have hlender : (root.withReferences references).kind.lender? = root.kind.lender? := by
      simp [Mapping.withReferences]
    unfold State.frame?
    rw [hlender, Mapping.withReferences_frame?]
  constructor
  case whole =>
    intro other found hfound
    rcases State.setMapping_eq_some.mp hfound with ⟨rfl, rfl⟩ | ⟨_, hfound⟩
    · exact (hmirrored.whole other root hroot).withReferences references
    · exact hmirrored.whole other found hfound
  case keptMapped =>
    intro other found context _ hfound hcontext i hi
    rw [hframe]
    rcases State.setMapping_eq_some.mp hfound with ⟨rfl, rfl⟩ | ⟨_, hfound⟩
    · rw [hself, Mapping.withReferences_flags]
      exact hmirrored.mapped hroot hcontext hi
    · exact hmirrored.mapped hfound hcontext hi
  case inside => exact hmirrored.inside

/-- A root that is held keeps its frames when a reference to it is dropped; the
last reference takes the root along. -/
theorem drop (hmirrored : Mirrored state) (hlaid : LaidOut windows state)
    (hcounted : Counted state held) (hroot : state.mappings id = some root) (hmem : id ∈ held) :
    Mirrored (state.drop id root) := by
  obtain ⟨target, htarget⟩ := Option.isSome_iff_exists.mp (hcounted.context id root hroot)
  unfold State.drop
  split
  next hlast =>
    obtain ⟨_, hroot', hisRoot⟩ := hcounted.held id hmem
    obtain rfl : root = _ := Option.some.inj (hroot.symm.trans hroot')
    have hreferences := hcounted.references id root hroot hisRoot
    have hpos := List.count_pos_iff.mpr hmem
    have hloans : state.loans id = 0 := by omega
    have hremoved : Mirrored (state.remove id root) :=
      hmirrored.remove hlaid hroot htarget fun other _ _ =>
        ⟨trivial, Counted.lenderOf_ne hloans hcounted other⟩
    exact hremoved.congr rfl rfl
  next => exact hmirrored.recount hroot _

/-- A loan goes, and with it a reference to its root. -/
theorem removeLoan (hmirrored : Mirrored state) (hlaid : LaidOut windows state)
    (hcounted : Counted state held) (hmapping : state.mappings id = some mapping)
    (hlender : mapping.kind.lender? = some lender) (hroot : state.mappings lender = some root)
    (hisRoot : root.kind.isRoot = true) :
    Mirrored ((state.drop lender root).remove id mapping) := by
  obtain ⟨home, hhome⟩ := Option.isSome_iff_exists.mp (hcounted.context lender root hroot)
  have hne : id ≠ lender := by
    rintro rfl
    obtain rfl : mapping = root := Option.some.inj (hmapping.symm.trans hroot)
    simp [Kind.isRoot_eq_false hlender] at hisRoot
  have hdropped := hlaid.drop hroot hhome
  have hmapping' : (state.drop lender root).mappings id = some mapping := by
    rw [State.drop_mappings, Function.update_of_ne hne]
    exact hmapping
  obtain ⟨target, htarget⟩ : ∃ target,
      (state.drop lender root).contexts mapping.context = some target := by
    rw [← Option.isSome_iff_exists, State.drop_isSome]
    exact hcounted.context id mapping hmapping
  -- nothing is lent by a loan, and nothing but the loan by a root that goes
  have hunlent : ∀ other, (state.drop lender root).lenderOf other ≠ some id := by
    intro other hother
    obtain ⟨found, hfound, hother⟩ := Option.bind_eq_some_iff.mp hother
    have hlent : state.lenderOf other = some id := by
      rw [State.drop_mappings] at hfound
      by_cases heq : other = lender
      · subst heq
        rw [Function.update_self] at hfound
        split at hfound
        · cases hfound
        · cases hfound
          simpa [State.lenderOf, hroot, Mapping.withReferences] using hother
      · rw [Function.update_of_ne heq] at hfound
        rw [State.lenderOf, hfound]
        exact hother
    obtain ⟨before, hbefore, hlent⟩ := Option.bind_eq_some_iff.mp hlent
    obtain ⟨lent, hlent, hkind⟩ := hcounted.lender other before id hbefore hlent
    obtain rfl : mapping = lent := Option.some.inj (hmapping.symm.trans hlent)
    simp [Kind.isRoot_eq_false hlender] at hkind
  have hbetween : MirroredOn (fun other => other ≠ id) (state.drop lender root) := by
    unfold State.drop
    split
    next hlast =>
      have hreferences := hcounted.references lender root hroot hisRoot
      have hother : ∀ other, other ≠ id → state.lenderOf other ≠ some lender := by
        intro other hother hlent
        obtain ⟨found, hfound, _⟩ := Option.bind_eq_some_iff.mp hlent
        have hown : state.lenderOf id = some lender := by
          rw [State.lenderOf, hmapping]
          exact hlender
        have htwo : 1 < state.loans lender :=
          Library.Tally.one_lt_tally hother (hcounted.id_lt hfound) (hcounted.id_lt hmapping)
            hlent hown
        omega
      exact (hmirrored.remove hlaid hroot hhome fun other hkept _ =>
        ⟨trivial, hother other hkept⟩).congr rfl rfl
    next =>
      obtain ⟨whole, mapped, inside⟩ := hmirrored.recount hroot (root.kind.references - 1)
      exact ⟨whole, fun other found context _ => mapped other found context trivial, inside⟩
  exact hbetween.remove hdropped hmapping' htarget fun other _ hother =>
    ⟨hother, hunlent other⟩

/-- No page of a place that was found for a root is mapped. -/
theorem vacantAt (hmirrored : Mirrored state) {context : Nat} {target : Context}
    (htarget : state.contexts context = some target) {vaddr : Nat} {regions : List Region}
    {root : Mapping} (hwell : WellFormed regions)
    (hperm : (reserved regions).Perm ((vaddr, root.sizePages) :: reserved target.regions))
    (hwhole : root.Whole) : VacantAt target.table vaddr root := by
  intro i hframe
  have hi : i < root.sizePages := by
    by_contra hle
    simp [hwhole.frame?_eq_none (Nat.le_of_not_lt hle)] at hframe
  obtain ⟨region, hregion, _, hrange⟩ := Valloc.mem_reserved.mp (hperm.mem_iff.mpr List.mem_cons_self)
  have haligned : pageSize ∣ vaddr := by
    rw [(Prod.mk.inj hrange).1]
    exact hwell.aligned hregion
  have hpairwise := (hperm.pairwise_iff Or.symm).mp hwell.reserved_pairwise
  by_contra hpage
  obtain ⟨range, hmem, hin⟩ := hmirrored.inside context target (vaddr / pageSize + i) htarget
    (Option.ne_none_iff_isSome.mp hpage)
  exact (inRange_add haligned hi).not_apart hin ((List.pairwise_cons.mp hpairwise).1 range hmem)

/-- A new mapping of the frames of a root, at a place that was found for it. -/
theorem link (hmirrored : Mirrored state) (hcounted : Counted state held) (mapping root : Mapping)
    (htarget : state.contexts mapping.context = some target) {regions : List Region}
    (hwell : WellFormed regions)
    (hperm : (reserved regions).Perm (mapping.range :: reserved target.regions))
    (hwhole : mapping.Whole) (hrootWhole : root.Whole) (hisRoot : root.kind.isRoot = true)
    (hsize : root.sizePages = mapping.sizePages)
    (hbehind : mapping.kind.lender? = none ∧ root = mapping ∨
      ∃ lender, mapping.kind.lender? = some lender ∧ state.mappings lender = some root) :
    Mirrored (link state
      { target with regions, table := withRoot target.table mapping.flags mapping.vaddr root }
      mapping).2 := by
  obtain ⟨context, hcontext⟩ : ∃ context : Context, context =
      { target with regions, table := withRoot target.table mapping.flags mapping.vaddr root } :=
    ⟨_, rfl⟩
  have htable : context.table = withRoot target.table mapping.flags mapping.vaddr root := by
    rw [hcontext]
  have hregions : context.regions = regions := by rw [hcontext]
  rw [← hcontext]
  have hvacant : VacantAt target.table mapping.vaddr root :=
    hmirrored.vacantAt htarget hwell (hsize ▸ hperm) hrootWhole
  have hown : mapping.range ∈ reserved regions := hperm.mem_iff.mpr List.mem_cons_self
  obtain ⟨region, hregion, _, hrange⟩ := Valloc.mem_reserved.mp hown
  have haligned : pageSize ∣ mapping.vaddr := by
    rw [(Prod.mk.inj hrange).1]
    exact hwell.aligned hregion
  have hold : ∀ other found, state.mappings other = some found → ∀ i,
      (Pman.link state context mapping).2.frame? found i = state.frame? found i := by
    intro other found hfound i
    unfold State.frame?
    cases hlender : found.kind.lender? with
    | none => rfl
    | some lender =>
        obtain ⟨lent, hlent, _⟩ := hcounted.lender other found lender hfound hlender
        have hne := Nat.ne_of_lt (hcounted.id_lt hlent)
        simp [Pman.link, hne]
  have hnew : ∀ i, (Pman.link state context mapping).2.frame? mapping i = root.frame? i := by
    intro i
    unfold State.frame?
    rcases hbehind with ⟨hnone, rfl⟩ | ⟨lender, hlender, hroot⟩
    · rw [hnone]
    · have hne := Nat.ne_of_lt (hcounted.id_lt hroot)
      rw [hlender]
      simp [Pman.link, hne, hroot]
  constructor
  case whole =>
    intro other found hfound
    rcases State.link_mapping_eq_some.mp hfound with ⟨_, rfl⟩ | ⟨_, hfound⟩
    · exact hwhole
    · exact hmirrored.whole other found hfound
  case keptMapped =>
    intro other found after _ hfound hafter i hi
    rcases State.link_mapping_eq_some.mp hfound with ⟨_, rfl⟩ | ⟨_, hfound⟩
    · obtain ⟨paddr, hpaddr⟩ := Option.isSome_iff_exists.mp
        (hrootWhole.frame_isSome hisRoot (hsize.symm ▸ hi))
      refine ⟨paddr, (hnew i).trans hpaddr, ?_⟩
      rcases State.link_context_eq_some.mp hafter with ⟨_, rfl⟩ | ⟨hne, _⟩
      · rw [htable]
        exact withRoot_frame (hvacant i (by simp [hpaddr])) hpaddr
      · exact absurd rfl hne
    · rw [hold other found hfound]
      rcases State.link_context_eq_some.mp hafter with ⟨hsame, rfl⟩ | ⟨_, hafter⟩
      · obtain ⟨paddr, hpaddr, hpage⟩ :=
          hmirrored.mapped hfound (hsame ▸ htarget) hi
        refine ⟨paddr, hpaddr, ?_⟩
        rw [htable, withRoot_of_isSome (by simp [hpage]), hpage]
      · exact hmirrored.mapped hfound hafter hi
  case inside =>
    intro contextId after page hafter hpage
    rcases State.link_context_eq_some.mp hafter with ⟨rfl, rfl⟩ | ⟨_, hafter⟩
    · rw [hregions]
      by_cases hin : InRange mapping.range page
      · exact ⟨_, hown, hin⟩
      · rw [Mapping.range, inRange_iff haligned, ← hsize, not_and_or, Nat.not_le,
          Nat.not_lt] at hin
        rw [htable, withRoot_outside hrootWhole hin] at hpage
        obtain ⟨range, hrange, hin⟩ := hmirrored.inside _ target page htarget hpage
        exact ⟨range, hperm.mem_iff.mpr (List.mem_cons_of_mem _ hrange), hin⟩
    · exact hmirrored.inside contextId after page hafter hpage

end Mirrored

/-! ## The calls -/

section Calls

variable {palloc : State → Nat → Option (List Nat)} {windows : Nat → List (Nat × Nat)}
  {state next : State} {held : List Nat} {id context lender vaddr paddr size : Nat}
  {protection : Protection} {mapping root : Mapping}

/-- As many pages are handed out as were asked for. -/
def Exact (palloc : State → Nat → Option (List Nat)) : Prop :=
  ∀ state count paddrs, palloc state count = some paddrs → paddrs.length = count

theorem newContext_mirrored (hmirrored : Mirrored state) (hcounted : Counted state held)
    (hlaid : LaidOut windows state) : Mirrored (newContext state).2 := by
  constructor
  case whole => exact hmirrored.whole
  case keptMapped =>
    intro other found after _ hfound hafter i hi
    rcases State.newContext_eq_some.mp hafter with ⟨hfresh, _⟩ | ⟨_, hafter⟩
    · have hsome := hcounted.context other found hfound
      rw [hfresh, (hlaid.freshContext _ (Nat.le_refl _)).1] at hsome
      exact absurd hsome Bool.false_ne_true
    · exact hmirrored.mapped hfound hafter hi
  case inside =>
    intro contextId after page hafter hpage
    rcases State.newContext_eq_some.mp hafter with ⟨_, rfl⟩ | ⟨_, hafter⟩
    · simp at hpage
    · exact hmirrored.inside contextId after page hafter hpage

theorem addAlloc_mirrored (hpalloc : Exact palloc) (hmirrored : Mirrored state)
    (hcounted : Counted state held) (hlaid : LaidOut windows state) (hsize : size < 2 ^ 64)
    (hplaceable : ∀ target, state.contexts context = some target →
      Placeable target.regions vaddr (divUp size pageSize) false)
    (hcall : addAlloc palloc state context protection vaddr size = .ok (id, next)) :
    Mirrored next := by
  obtain ⟨target, place, paddrs, htarget, hplace, _, hpaddrs, rfl, rfl⟩ := addAlloc_eq_ok hcall
  obtain ⟨hwell, hperm⟩ := placeVaddr_spec (hlaid.wellFormed _ target htarget) hsize
    (hplaceable target htarget) hplace
  obtain ⟨new, hnew⟩ : ∃ new : Mapping,
      new = ⟨context, protection, place.1, divUp size pageSize, .alloc 1 paddrs⟩ := ⟨_, rfl⟩
  have hwhole : new.Whole := by
    intro references list hkind
    simp only [hnew, Kind.alloc.injEq] at hkind ⊢
    rw [← hkind.2]
    exact hpalloc _ _ _ hpaddrs
  have hlink := hmirrored.link hcounted new new (by rw [hnew]; exact htarget)
    hwell (by rw [hnew]; exact hperm) hwhole hwhole (by rw [hnew]; rfl) rfl (.inl ⟨by rw [hnew]; rfl, rfl⟩)
  rw [hnew] at hlink
  exact hlink.congr rfl rfl

theorem addMap_mirrored (hmirrored : Mirrored state)
    (hcounted : Counted state held) (hlaid : LaidOut windows state) (hsize : size < 2 ^ 64)
    (hplaceable : ∀ target, state.contexts context = some target →
      Placeable target.regions vaddr (divUp size pageSize) protection.vreserve)
    (hcall : addMap palloc state context protection vaddr paddr size = .ok (id, next)) :
    Mirrored next := by
  obtain ⟨target, place, base, htarget, hplace, _, rfl, rfl⟩ := addMap_eq_ok hcall
  obtain ⟨hwell, hperm⟩ := placeVaddr_spec (hlaid.wellFormed _ target htarget) hsize
    (hplaceable target htarget) hplace
  obtain ⟨new, hnew⟩ : ∃ new : Mapping,
      new = ⟨context, protection, place.1, divUp size pageSize, .map 1 base⟩ := ⟨_, rfl⟩
  have hwhole : new.Whole := by
    intro references list hkind
    simp [hnew] at hkind
  have hlink := hmirrored.link hcounted new new (by rw [hnew]; exact htarget)
    hwell (by rw [hnew]; exact hperm) hwhole hwhole (by rw [hnew]; rfl) rfl (.inl ⟨by rw [hnew]; rfl, rfl⟩)
  rw [hnew] at hlink
  exact hlink.congr rfl rfl

/-- `write` is to be what the type of the loan allows. -/
theorem addLoan_mirrored {kind : Nat → Kind} {write : Bool}
    (hkind : ∀ lender, (kind lender).lender? = some lender)
    (hwrite : ∀ lender vaddr sizePages,
      Mapping.writes ⟨context, protection, vaddr, sizePages, kind lender⟩ = write)
    (hmirrored : Mirrored state) (hcounted : Counted state held) (hlaid : LaidOut windows state)
    (hplaceable : ∀ target source, state.contexts context = some target →
      state.mappings lender = some source →
      Placeable target.regions vaddr source.sizePages false)
    (hcall : addLoan kind write state context protection lender vaddr = .ok (id, next)) :
    Mirrored next := by
  obtain ⟨rootId, root, source, target, place, hrootId, hroot, hisRoot, hsource, htarget, hplace,
    rfl, rfl⟩ := addLoan_eq_ok hcall
  obtain ⟨home, hhome⟩ := Option.isSome_iff_exists.mp (hcounted.context lender source hsource)
  have hbound := (hlaid.sizePages_bounds hsource hhome).2
  have hplaceable := hplaceable target source htarget hsource
  rw [← divUp_pages hbound] at hplaceable
  obtain ⟨hwell, hperm⟩ := placeVaddr_spec (hlaid.wellFormed _ target htarget) (u64_lt _)
    hplaceable hplace
  rw [divUp_pages hbound] at hperm
  have hraised := hcounted.raise hroot hisRoot
  have hsize := LaidOut.root_sizePages hcounted hlaid hsource hrootId hroot
  obtain ⟨new, hnew⟩ : ∃ new : Mapping,
      new = ⟨context, protection, place.1, source.sizePages, kind rootId⟩ := ⟨_, rfl⟩
  have hlender : new.kind.lender? = some rootId := by
    rw [hnew]
    exact hkind rootId
  have hwhole : new.Whole := by
    intro references list hlist
    rw [hlist] at hlender
    cases hlender
  have hflags : new.flags = flagsOf context protection write := by
    rw [Mapping.flags, hnew, hwrite]
  have hlink := (hmirrored.recount hroot (root.kind.references + 1)).link hraised new
    (root.withReferences (root.kind.references + 1)) (by rw [hnew]; exact htarget) hwell
    (by rw [hnew]; exact hperm) hwhole ((hmirrored.whole rootId root hroot).withReferences _)
    (by simpa [Mapping.withReferences] using hisRoot) (by rw [hnew]; exact hsize)
    (.inr ⟨rootId, hlender, by simp [State.setMapping]⟩)
  rw [hflags, hnew] at hlink
  exact hlink

theorem addShared_mirrored (hmirrored : Mirrored state) (hcounted : Counted state held)
    (hlaid : LaidOut windows state)
    (hplaceable : ∀ target source, state.contexts context = some target →
      state.mappings lender = some source →
      Placeable target.regions vaddr source.sizePages false)
    (hcall : addShared state context protection lender vaddr = .ok (id, next)) :
    Mirrored next :=
  addLoan_mirrored (fun _ => rfl) (fun _ _ _ => rfl) hmirrored hcounted hlaid hplaceable hcall

theorem unmap_root_mirrored (hmirrored : Mirrored state) (hcounted : Counted state held)
    (hlaid : LaidOut windows state) (hmem : id ∈ held) (hcall : unmap state id = .ok next) :
    Mirrored next := by
  obtain ⟨root, hroot, hunmap⟩ := hcounted.unmap_root hmem
  obtain rfl : state.drop id root = next := Except.ok.inj (hunmap.symm.trans hcall)
  exact hmirrored.drop hlaid hcounted hroot hmem

theorem unmap_loan_mirrored (hmirrored : Mirrored state) (hcounted : Counted state held)
    (hlaid : LaidOut windows state) (hmapping : state.mappings id = some mapping)
    (hlender : mapping.kind.lender? = some lender) (hcall : unmap state id = .ok next) :
    Mirrored next := by
  obtain ⟨root, hroot, hisRoot, hunmap⟩ := hcounted.unmap_loan hmapping hlender
  obtain rfl : _ = next := Except.ok.inj (hunmap.symm.trans hcall)
  exact hmirrored.removeLoan hlaid hcounted hmapping hlender hroot hisRoot

section Remap

variable {removed shared : State} {lenderId user : Nat}
  (hremaps : Remaps state id mapping lenderId user removed shared next)
  (hcounted : Counted state (lenderId :: held)) (hlaid : LaidOut windows state)
  (hmapping : state.mappings id = some mapping) (hlender : mapping.kind.lender? = some lender)
  (hsize : ∀ root, state.mappings lenderId = some root → root.sizePages = mapping.sizePages)

include hremaps hcounted hlaid hmapping hlender hsize

/-- The new loan is like the old one, but shared. -/
theorem Remaps.user_eq : ∃ rootId, next.mappings user = some
    ⟨mapping.context, mapping.protection, mapping.vaddr, mapping.sizePages, .shared rootId⟩ := by
  have hremoved := unmap_loan_counted hcounted hmapping hlender hremaps.remove
  obtain ⟨hremovedLaid, haligned, hvacant⟩ :=
    unmap_loan_laidOut hcounted hlaid hmapping hlender hremaps.remove
  have hshared := addShared_counted hremoved hremaps.share
  obtain ⟨rootId, root, source, target, place, _, hroot, hisRoot, hsource, htarget, hplace,
    huser, hsharedEq⟩ := addLoan_eq_ok hremaps.share
  obtain ⟨hsourceSize, hpos, _⟩ :=
    hremaps.placeable hcounted hlaid hmapping hlender hsize htarget hsource
  obtain ⟨home, hhome⟩ := Option.isSome_iff_exists.mp (hcounted.context id mapping hmapping)
  have hbound := (hlaid.sizePages_bounds hmapping hhome).2
  have hpages := divUp_pages (hsourceSize ▸ hbound : source.sizePages ≤ 2 ^ 36)
  have hvacant := hvacant target htarget
  have hplaced : place.1 = mapping.vaddr := by
    refine placeVaddr_vacant (hremovedLaid.wellFormed _ target htarget) (u64_lt _) ?_ haligned ?_
      hplace
    · rwa [hpages]
    · rwa [hpages, hsourceSize]
  obtain ⟨held, hheldRoot, hdrop⟩ := hshared.unmap_root List.mem_cons_self
  obtain rfl : _ = next := Except.ok.inj (hdrop.symm.trans hremaps.drop)
  have hmade : shared.mappings user = some
      ⟨mapping.context, mapping.protection, place.1, source.sizePages, .shared rootId⟩ := by
    rw [hsharedEq, huser]
    exact Function.update_self _ _ _
  have hne : user ≠ lenderId := by
    rintro rfl
    obtain ⟨root, hroot, hisRoot⟩ := hshared.held _ List.mem_cons_self
    rw [hmade, Option.some.injEq] at hroot
    simp [← hroot, Kind.isRoot] at hisRoot
  rw [State.drop_mappings, Function.update_of_ne hne, hmade, hplaced, hsourceSize]
  exact ⟨rootId, rfl⟩

theorem Remaps.mirrored (hmirrored : Mirrored state) : Mirrored next := by
  have hremoved := unmap_loan_counted hcounted hmapping hlender hremaps.remove
  have hremovedLaid := (unmap_loan_laidOut hcounted hlaid hmapping hlender hremaps.remove).1
  have hplaceable : ∀ target source, removed.contexts mapping.context = some target →
      removed.mappings lenderId = some source →
      Placeable target.regions mapping.vaddr source.sizePages false :=
    fun _ _ htarget hsource =>
      (hremaps.placeable hcounted hlaid hmapping hlender hsize htarget hsource).2
  have hshared := addShared_mirrored
    (unmap_loan_mirrored hmirrored hcounted hlaid hmapping hlender hremaps.remove) hremoved
    hremovedLaid hplaceable hremaps.share
  exact unmap_root_mirrored hshared (addShared_counted hremoved hremaps.share)
    (addLoan_laidOut (fun _ => rfl) hremoved hremovedLaid hplaceable hremaps.share)
    List.mem_cons_self hremaps.drop

end Remap

/-- The state in which the loan is remapped is as good as the one before the call. -/
theorem prepareWrite_remaps {user : Nat} (hcounted : Counted state held)
    (hlaid : LaidOut windows state) (hcall : prepareWrite palloc state id = .ok (user, next)) :
    ∃ mapping, state.mappings id = some mapping ∧
      ((∀ lender, mapping.kind ≠ .borrowed lender) ∧ user = id ∧ next = state ∨
        ∃ lender held' lenderId start removed shared, mapping.kind = .borrowed lender ∧
          Remaps start id mapping lenderId user removed shared next ∧
          Counted start (lenderId :: held') ∧ LaidOut windows start ∧
          start.mappings id = some mapping ∧
          (∀ root, start.mappings lenderId = some root → root.sizePages = mapping.sizePages) ∧
          (Exact palloc → Mirrored state → Mirrored start)) := by
  obtain ⟨mapping, hmapping, hkept | ⟨lender, lenderId, start, removed, shared, hkind, hstart,
    hremaps⟩⟩ := prepareWrite_cases hcall
  · exact ⟨mapping, hmapping, .inl hkept⟩
  have hlender : mapping.kind.lender? = some lender := by rw [hkind]; rfl
  obtain ⟨hraised, hmapping'⟩ := hstart.counted hcounted hmapping hlender
  obtain ⟨hstartLaid, hsize⟩ := hstart.laidOut hcounted hlaid hmapping
  refine ⟨mapping, hmapping, .inr ⟨lender, held, lenderId, start, removed, shared, hkind, hremaps,
    hraised, hstartLaid, hmapping', hsize, fun hpalloc hmirrored => ?_⟩⟩
  cases hstart with
  | raise _ hroot => exact hmirrored.recount hroot _
  | copy _ hroot halloc memory =>
      exact (addAlloc_mirrored hpalloc hmirrored hcounted hlaid (u64_lt _)
        (fun target _ => (hlaid.copy_placeable hcounted hroot).2 target.regions) halloc).congr rfl rfl

theorem prepareWrite_mirrored {user : Nat} (hpalloc : Exact palloc) (hmirrored : Mirrored state)
    (hcounted : Counted state held) (hlaid : LaidOut windows state)
    (hcall : prepareWrite palloc state id = .ok (user, next)) : Mirrored next := by
  obtain ⟨mapping, _, ⟨_, _, rfl⟩ | ⟨lender, held', lenderId, start, removed, shared, hkind,
    hremaps, hstart, hstartLaid, hmapping, hsize, hkeeps⟩⟩ :=
    prepareWrite_remaps hcounted hlaid hcall
  · exact hmirrored
  have hlender : mapping.kind.lender? = some lender := by rw [hkind]; rfl
  exact hremaps.mirrored hstart hstartLaid hmapping hlender hsize (hkeeps hpalloc hmirrored)

end Calls

/-! ## Runs -/

section Runs

variable {palloc : State → Nat → Option (List Nat)} {windows : Nat → List (Nat × Nat)}
  {world next : World} {op : Op}

/-- Runs in which every request for addresses can be granted. Before the first
mapping nothing is mapped outside of the windows that are reserved. -/
def orderly (palloc : State → Nat → Option (List Nat)) : System World Op where
  init world := (system palloc).init world ∧ ∀ id context page,
    world.state.contexts id = some context → (context.table page).isSome →
      ∃ range ∈ reserved context.regions, InRange range page
  step := ((system palloc).restrict Grantable).step

theorem step_mirrored (hpalloc : Exact palloc) (hworld : CountedWorld world)
    (hlaid : LaidOut windows world.state) (hmirrored : Mirrored world.state)
    (hgrantable : Grantable world op) (hstep : Step palloc world op next) :
    Mirrored next.state := by
  have hcounted := hworld.counted
  cases hstep with
  | newContext => exact newContext_mirrored hmirrored hcounted hlaid
  | @addAlloc context vaddr size id protection next hsize hreturn =>
      exact addAlloc_mirrored hpalloc hmirrored hcounted hlaid hsize
        (grantable_addAlloc hgrantable hreturn) hreturn
  | @addMap context vaddr paddr size id protection next hsize hreturn =>
      exact addMap_mirrored hmirrored hcounted hlaid hsize (grantable_addMap hgrantable) hreturn
  | @addBorrowed context lender vaddr id protection next hreturn =>
      refine addLoan_mirrored (fun _ => rfl) (fun _ _ _ => rfl) hmirrored hcounted hlaid ?_ hreturn
      exact grantable_loan hcounted hlaid hgrantable (by simp +contextual [Op.request])
  | @addShared context lender vaddr id protection next hreturn =>
      refine addShared_mirrored hmirrored hcounted hlaid ?_ hreturn
      exact grantable_loan hcounted hlaid hgrantable (by simp +contextual [Op.request])
  | prepareWrite hreturn => exact prepareWrite_mirrored hpalloc hmirrored hcounted hlaid hreturn
  | unmapRoot hcreated hreturn =>
      exact unmap_root_mirrored hmirrored hcounted hlaid hcreated hreturn
  | unmapLoan hloan hreturn =>
      obtain ⟨mapping, hmapping, hlender⟩ := Option.bind_eq_some_iff.mp hloan
      exact unmap_loan_mirrored hmirrored hcounted hlaid hmapping hlender hreturn

/-- What holds between the calls of an orderly run. -/
structure Tidy (world : World) : Prop where
  countedWorld : CountedWorld world
  laidOut : ∃ windows, LaidOut windows world.state
  mirrored : Mirrored world.state

theorem tidy_inductive (hpalloc : Exact palloc) : (orderly palloc).Inductive Tidy where
  init world := by
    rintro ⟨hinit, hinside⟩
    refine ⟨(@system_inductive palloc).init world hinit, ⟨_, hinit.1.laidOut⟩, ?_, ?_, hinside⟩
    · intro id mapping hmapping
      simp [hinit.1.mappings] at hmapping
    · intro id mapping context _ hmapping
      simp [hinit.1.mappings] at hmapping
  step world op next := by
    rintro ⟨hworld, ⟨windows, hlaid⟩, hmirrored⟩ ⟨hgrantable, hstep⟩
    exact ⟨step_countedWorld hworld hstep, ⟨windows, step_laidOut hworld hlaid hgrantable hstep⟩,
      step_mirrored hpalloc hworld hlaid hmirrored hgrantable hstep⟩

end Runs

end PKernel.Pman
