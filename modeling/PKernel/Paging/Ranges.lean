import PKernel.Paging.References

/-! # Where mappings lie

As long as every request for addresses can be granted, the regions in use of a
context are the ranges of its mappings and the windows that were reserved
before any mapping was made. The functions that add mappings do not look at
whether their request was granted; `Placeable` says when it is.
-/

namespace PKernel.Pman

open Valloc (Region WellFormed Vacant Apart reserved regionSize)

/-- The addresses of a mapping: the first one and the number of pages. -/
def Mapping.range (mapping : Mapping) : Nat × Nat := (mapping.vaddr, mapping.sizePages)

/-- The addresses of a live mapping. -/
def State.range (state : State) (id : Nat) : Nat × Nat :=
  ((state.mappings id).map Mapping.range).getD (0, 0)

/-- A request that the virtual allocator can grant: any place for a positive
number of pages, or a page-aligned vacant range. -/
def Placeable (regions : List Region) (vaddr sizePages : Nat) (fixed : Bool) : Prop :=
  0 < sizePages ∧
    (vaddr = 0 ∧ fixed = false ∨ pageSize ∣ vaddr ∧ Vacant regions vaddr sizePages)

/-! ## Placing -/

section Place

variable {regions : List Region} {vaddr size sizePages : Nat} {fixed : Bool}
  {place : Nat × List Region}

/-- A size that does not round up to no pages is positive, and adding to it does
not wrap. -/
theorem size_bounds (hsize : size < 2 ^ 64) (hpages : 0 < divUp size pageSize)
    (hbound : divUp size pageSize ≤ 2 ^ 36) : 0 < size ∧ size ≤ regionSize := by
  unfold divUp u64 pageSize regionSize at *
  omega

/-- The bytes of a number of pages round up to as many pages. -/
theorem divUp_pages (hbound : sizePages ≤ 2 ^ 36) :
    divUp (u64 (sizePages * pageSize)) pageSize = sizePages := by
  unfold divUp u64 pageSize
  omega

theorem Vacant.sizePages_le (hwell : WellFormed regions) (hvacant : Vacant regions vaddr sizePages) :
    sizePages ≤ 2 ^ 36 := by
  obtain ⟨region, hregion, _, hlow, hhigh⟩ := hvacant
  have hend := hwell.bounds hregion
  unfold pageSize regionSize at *
  omega

/-- What `valloc_alloc` hands out is no larger than the address space. -/
theorem alloc_sizePages_le (hwell : WellFormed regions)
    (halloc : Valloc.alloc regions size = .ok place) : divUp size pageSize ≤ 2 ^ 36 := by
  simp only [Valloc.alloc] at halloc
  split at halloc
  · cases halloc
  next before node after hsplit =>
    obtain ⟨rfl, hsuits, _⟩ := Valloc.splitFirst_eq_some.mp hsplit
    simp only [Region.suits, Bool.and_eq_true, decide_eq_true_eq] at hsuits
    exact Nat.le_trans hsuits.2 (hwell.sizePages_le (by simp))

theorem placeVaddr_spec (hwell : WellFormed regions) (hsize : size < 2 ^ 64)
    (hplaceable : Placeable regions vaddr (divUp size pageSize) fixed)
    (hplace : placeVaddr regions vaddr size fixed = .ok place) :
    WellFormed place.2 ∧
      (reserved place.2).Perm ((place.1, divUp size pageSize) :: reserved regions) := by
  obtain ⟨hpages, hplaceable⟩ := hplaceable
  unfold placeVaddr at hplace
  split at hplace
  next =>
    obtain ⟨hpos, hle⟩ := size_bounds hsize hpages (alloc_sizePages_le hwell hplace)
    obtain ⟨hnew, _, hperm⟩ := Valloc.alloc_spec hwell hpos hle hplace
    exact ⟨hnew, hperm⟩
  next hreserve =>
    have hrequest : pageSize ∣ vaddr ∧ Vacant regions vaddr (divUp size pageSize) := by
      rcases hplaceable with ⟨rfl, rfl⟩ | hrequest
      · simp at hreserve
      · exact hrequest
    obtain ⟨hpos, hle⟩ := size_bounds hsize hpages (Vacant.sizePages_le hwell hrequest.2)
    obtain ⟨new, hgranted, hnew, hperm⟩ :=
      Valloc.reserve_granted hwell hpos hle hrequest.1 hrequest.2
    obtain rfl : (vaddr, new) = place := Except.ok.inj (hgranted.symm.trans hplace)
    exact ⟨hnew, hperm⟩

/-- A vacant range is where the mapping goes, also one at address 0, which is the
first that `valloc_alloc` finds. -/
theorem placeVaddr_vacant (hwell : WellFormed regions) (hsize : size < 2 ^ 64)
    (hpages : 0 < divUp size pageSize) (haligned : pageSize ∣ vaddr)
    (hvacant : Vacant regions vaddr (divUp size pageSize))
    (hplace : placeVaddr regions vaddr size false = .ok place) : place.1 = vaddr := by
  unfold placeVaddr at hplace
  split at hplace
  next hzero =>
    obtain rfl : vaddr = 0 := by simpa using hzero
    obtain ⟨region, hregion, hfree, hlow, hhigh⟩ := hvacant
    cases regions with
    | nil => cases hregion
    | cons first rest =>
        have hfirst : first.startAddr = 0 := (Library.Tiling.tiles_cons.mp hwell.tiles).1
        obtain rfl : region = first := by
          apply hwell.eq_of_startAddr_eq hregion List.mem_cons_self
          omega
        have hsuits : region.suits (divUp size pageSize) = true := by
          unfold pageSize at hhigh ⊢
          simp only [Region.suits, hfree, Bool.true_and, decide_eq_true_eq]
          omega
        simp only [Valloc.alloc, Valloc.splitFirst, hsuits, if_true] at hplace
        split at hplace <;> obtain rfl := Except.ok.inj hplace <;> exact hfirst
  next =>
    obtain ⟨hpos, hle⟩ := size_bounds hsize hpages (Vacant.sizePages_le hwell hvacant)
    obtain ⟨new, hgranted, _⟩ := Valloc.reserve_granted hwell hpos hle haligned hvacant
    exact congrArg Prod.fst (Except.ok.inj (hplace.symm.trans hgranted))

end Place

/-! ## The layout of the contexts -/

/-- The mappings of a context are those in its list, and their ranges and the
windows are what is in use. -/
structure LaidOut (windows : Nat → List (Nat × Nat)) (state : State) : Prop where
  wellFormed : ∀ id context, state.contexts id = some context → WellFormed context.regions
  nodup : ∀ id context, state.contexts id = some context → context.mappings.Nodup
  listed : ∀ id context, state.contexts id = some context → ∀ mappingId,
    mappingId ∈ context.mappings ↔
      ∃ mapping, state.mappings mappingId = some mapping ∧ mapping.context = id
  ranges : ∀ id context, state.contexts id = some context →
    (reserved context.regions).Perm (context.mappings.map state.range ++ windows id)
  freshContext : ∀ id, state.nextContext ≤ id → state.contexts id = none ∧ windows id = []
  /-- A loan is as long as its root. -/
  loanSize : ∀ id mapping lender root, state.mappings id = some mapping →
    mapping.kind.lender? = some lender → state.mappings lender = some root →
    root.sizePages = mapping.sizePages

namespace LaidOut

variable {windows : Nat → List (Nat × Nat)} {state next : State} {held : List Nat}
  {id lender : Nat} {mapping root : Mapping} {target : Context}

theorem congr (hlaid : LaidOut windows state) (hcontexts : next.contexts = state.contexts)
    (hmappings : next.mappings = state.mappings) (hnext : next.nextContext = state.nextContext) :
    LaidOut windows next := by
  have hrange : next.range = state.range := by
    funext id
    simp only [State.range, hmappings]
  obtain ⟨wellFormed, nodup, listed, ranges, freshContext, loanSize⟩ := hlaid
  constructor <;> simp only [hcontexts, hmappings, hnext, hrange] <;> assumption

theorem mem_listed (hlaid : LaidOut windows state) (hmapping : state.mappings id = some mapping)
    (htarget : state.contexts mapping.context = some target) : id ∈ target.mappings :=
  (hlaid.listed _ target htarget id).mpr ⟨mapping, hmapping, rfl⟩

/-- The range of a live mapping is in use. -/
theorem mem_reserved (hlaid : LaidOut windows state) (hmapping : state.mappings id = some mapping)
    (htarget : state.contexts mapping.context = some target) :
    mapping.range ∈ reserved target.regions := by
  apply (hlaid.ranges _ target htarget).mem_iff.mpr
  apply List.mem_append_left
  refine List.mem_map.mpr ⟨id, hlaid.mem_listed hmapping htarget, ?_⟩
  simp [State.range, hmapping]

theorem sizePages_bounds (hlaid : LaidOut windows state)
    (hmapping : state.mappings id = some mapping)
    (htarget : state.contexts mapping.context = some target) :
    0 < mapping.sizePages ∧ mapping.sizePages ≤ 2 ^ 36 := by
  have hwell := hlaid.wellFormed _ target htarget
  obtain ⟨region, hregion, _, hrange⟩ :=
    Valloc.mem_reserved.mp (hlaid.mem_reserved hmapping htarget)
  obtain ⟨_, hsize⟩ := Prod.mk.inj hrange
  rw [hsize]
  exact ⟨hwell.nonempty region hregion, hwell.sizePages_le hregion⟩

/-- Two mappings of one context do not overlap. -/
theorem apart (hlaid : LaidOut windows state) {other : Nat} {found : Mapping} (hne : id ≠ other)
    (hmapping : state.mappings id = some mapping) (hother : state.mappings other = some found)
    (hcontext : mapping.context = found.context)
    (htarget : state.contexts mapping.context = some target) :
    Apart mapping.range found.range := by
  have hpairwise : (target.mappings.map state.range ++ windows _).Pairwise Apart :=
    ((hlaid.ranges _ target htarget).pairwise_iff Or.symm).mp
      (hlaid.wellFormed _ target htarget).reserved_pairwise
  have hmappings : target.mappings.Pairwise fun first second =>
      Apart (state.range first) (state.range second) :=
    List.pairwise_map.mp (List.pairwise_append.mp hpairwise).1
  have hsymm : Std.Symm fun first second => Apart (state.range first) (state.range second) :=
    ⟨fun _ _ => Or.symm⟩
  have hapart := hmappings.forall (hlaid.mem_listed hmapping htarget)
    (hlaid.mem_listed hother (hcontext ▸ htarget)) hne
  simpa [State.range, hmapping, hother] using hapart

/-- A new reference count moves nothing. -/
theorem recount (hlaid : LaidOut windows state) (hroot : state.mappings id = some root)
    (references : Nat) :
    LaidOut windows (state.setMapping id (root.withReferences references)) := by
  have hlook : ∀ other found,
      (state.setMapping id (root.withReferences references)).mappings other = some found →
      ∃ before, state.mappings other = some before ∧ before.context = found.context ∧
        before.sizePages = found.sizePages ∧ before.kind.lender? = found.kind.lender? := by
    intro other found hfound
    rcases State.setMapping_eq_some.mp hfound with ⟨rfl, rfl⟩ | ⟨_, hfound⟩
    · exact ⟨root, hroot, rfl, rfl, by simp [Mapping.withReferences]⟩
    · exact ⟨found, hfound, rfl, rfl, rfl⟩
  have hrange : (state.setMapping id (root.withReferences references)).range = state.range := by
    funext other
    by_cases heq : other = id
    · subst heq
      simp [State.range, State.setMapping, hroot, Mapping.withReferences, Mapping.range]
    · simp [State.range, State.setMapping, heq]
  constructor
  case wellFormed => exact hlaid.wellFormed
  case nodup => exact hlaid.nodup
  case freshContext => exact hlaid.freshContext
  case ranges =>
    intro contextId context hcontext
    rw [hrange]
    exact hlaid.ranges contextId context hcontext
  case listed =>
    intro contextId context hcontext other
    rw [hlaid.listed contextId context hcontext other]
    constructor
    · rintro ⟨found, hfound, hin⟩
      by_cases heq : other = id
      · subst heq
        obtain rfl : root = found := Option.some.inj (hroot.symm.trans hfound)
        exact ⟨root.withReferences references, by simp [State.setMapping], hin⟩
      · exact ⟨found, by simpa [State.setMapping, heq] using hfound, hin⟩
    · rintro ⟨found, hfound, hin⟩
      obtain ⟨before, hbefore, hcontext, _⟩ := hlook other found hfound
      exact ⟨before, hbefore, hcontext.trans hin⟩
  case loanSize =>
    intro other found lender lent hfound hlender hlent
    obtain ⟨before, hbefore, _, hsize, hkind⟩ := hlook other found hfound
    obtain ⟨lentBefore, hlentBefore, _, hlentSize, _⟩ := hlook lender lent hlent
    rw [← hsize, ← hlentSize]
    exact hlaid.loanSize other before lender lentBefore hbefore (hkind.trans hlender) hlentBefore

/-- A mapping gives its range back. -/
theorem remove (hlaid : LaidOut windows state) (hmapping : state.mappings id = some mapping)
    (htarget : state.contexts mapping.context = some target) :
    LaidOut windows (state.remove id mapping) := by
  have hwell := hlaid.wellFormed _ target htarget
  obtain ⟨regions, hrelease, hnew, hperm⟩ :=
    Valloc.release_spec hwell (hlaid.mem_reserved hmapping htarget)
  have hregions : (Valloc.release target.regions mapping.vaddr).2 = regions :=
    congrArg Prod.snd hrelease
  have hrange : ∀ other, other ≠ id →
      (state.remove id mapping).range other = state.range other := by
    intro other hne
    simp [State.range, State.remove_mappings, hne]
  have hnodup := hlaid.nodup _ target htarget
  constructor
  case wellFormed =>
    intro contextId context hcontext
    rcases (State.remove_context_eq_some htarget).mp hcontext with ⟨_, rfl⟩ | ⟨_, hcontext⟩
    · rw [hregions]
      exact hnew
    · exact hlaid.wellFormed contextId context hcontext
  case nodup =>
    intro contextId context hcontext
    rcases (State.remove_context_eq_some htarget).mp hcontext with ⟨_, rfl⟩ | ⟨_, hcontext⟩
    · exact hnodup.erase id
    · exact hlaid.nodup contextId context hcontext
  case listed =>
    intro contextId context hcontext other
    rcases (State.remove_context_eq_some htarget).mp hcontext with ⟨rfl, rfl⟩ | ⟨hne, hcontext⟩
    · rw [hnodup.mem_erase_iff, hlaid.listed _ target htarget other]
      by_cases heq : other = id
      · simp [heq, State.remove_mappings]
      · simp [heq, State.remove_mappings]
    · rw [hlaid.listed contextId context hcontext other]
      by_cases heq : other = id
      · subst heq
        simp [State.remove_mappings, hmapping, hne.symm]
      · simp [heq, State.remove_mappings]
  case ranges =>
    intro contextId context hcontext
    rcases (State.remove_context_eq_some htarget).mp hcontext with ⟨rfl, rfl⟩ | ⟨hne, hsame⟩
    · rw [hregions]
      have hmem := hlaid.mem_listed hmapping htarget
      have hlist : ((target.mappings.map state.range ++ windows mapping.context)).Perm
          (mapping.range :: ((target.mappings.erase id).map state.range ++
            windows mapping.context)) := by
        have := ((List.perm_cons_erase hmem).map state.range).append_right
          (windows mapping.context)
        simpa [State.range, hmapping] using this
      have hafter := (hperm.symm.trans (hlaid.ranges _ target htarget)).trans hlist
      have hsame : (target.mappings.erase id).map (state.remove id mapping).range =
          (target.mappings.erase id).map state.range := by
        apply List.map_congr_left
        intro other hother
        exact hrange other ((hnodup.mem_erase_iff).mp hother).1
      rw [hsame]
      exact hafter.cons_inv
    · have hkeep : context.mappings.map (state.remove id mapping).range =
          context.mappings.map state.range := by
        apply List.map_congr_left
        intro other hother
        apply hrange
        rintro rfl
        obtain ⟨found, hfound, hin⟩ := (hlaid.listed contextId context hsame other).mp hother
        obtain rfl : mapping = found := Option.some.inj (hmapping.symm.trans hfound)
        exact hne hin.symm
      rw [hkeep]
      exact hlaid.ranges contextId context hsame
  case freshContext =>
    intro contextId hle
    obtain ⟨hnone, hwindows⟩ := hlaid.freshContext contextId hle
    refine ⟨?_, hwindows⟩
    rwa [State.remove_context_ne]
    rintro rfl
    simp [hnone] at htarget
  case loanSize =>
    intro other found lender lent hfound hlender hlent
    exact hlaid.loanSize other found lender lent (State.remove_mapping_eq_some.mp hfound).2 hlender
      (State.remove_mapping_eq_some.mp hlent).2

theorem drop (hlaid : LaidOut windows state) (hroot : state.mappings id = some root)
    (htarget : state.contexts root.context = some target) :
    LaidOut windows (state.drop id root) := by
  unfold State.drop
  split
  · exact (hlaid.remove hroot htarget).congr rfl rfl rfl
  · exact hlaid.recount hroot _

/-- A new mapping at a place that was found for it. -/
theorem link (hlaid : LaidOut windows state) (hcounted : Counted state held) (mapping : Mapping)
    (htarget : state.contexts mapping.context = some target) (regions : List Region)
    (table : Table) (hwell : WellFormed regions)
    (hperm : (reserved regions).Perm (mapping.range :: reserved target.regions))
    (hloan : ∀ lender root, mapping.kind.lender? = some lender →
      state.mappings lender = some root → root.sizePages = mapping.sizePages) :
    LaidOut windows (link state { target with regions, table } mapping).2 := by
  obtain ⟨context, hcontext⟩ : ∃ context : Context, context = { target with regions, table } :=
    ⟨_, rfl⟩
  obtain rfl : context.regions = regions := by rw [hcontext]
  have hmappings : context.mappings = target.mappings := by rw [hcontext]
  rw [← hcontext]
  have hold : ∀ contextId found, state.contexts contextId = some found →
      ∀ other ∈ found.mappings, other ≠ state.nextMapping := by
    intro contextId found hfound other hother
    obtain ⟨before, hbefore, _⟩ := (hlaid.listed contextId found hfound other).mp hother
    exact Nat.ne_of_lt (hcounted.id_lt hbefore)
  have hranges : ∀ contextId found, state.contexts contextId = some found →
      found.mappings.map (Pman.link state context mapping).2.range =
        found.mappings.map state.range := by
    intro contextId found hfound
    apply List.map_congr_left
    intro other hother
    simp [State.range, Pman.link, hold contextId found hfound other hother]
  constructor
  case wellFormed =>
    intro contextId found hfound
    rcases State.link_context_eq_some.mp hfound with ⟨_, rfl⟩ | ⟨_, hfound⟩
    · exact hwell
    · exact hlaid.wellFormed contextId found hfound
  case nodup =>
    intro contextId found hfound
    rcases State.link_context_eq_some.mp hfound with ⟨_, rfl⟩ | ⟨_, hfound⟩
    · rw [hmappings]
      refine List.nodup_cons.mpr ⟨?_, hlaid.nodup _ target htarget⟩
      intro hmem
      exact hold _ target htarget _ hmem rfl
    · exact hlaid.nodup contextId found hfound
  case listed =>
    intro contextId found hfound other
    have hsame : ∀ before, state.contexts contextId = some before →
        other ≠ state.nextMapping → (other ∈ before.mappings ↔ ∃ found,
          (Pman.link state context mapping).2.mappings other = some found ∧
            found.context = contextId) := by
      intro before hbefore hne
      rw [hlaid.listed contextId before hbefore other]
      simp [Pman.link, hne]
    by_cases heq : other = state.nextMapping
    · subst heq
      rcases State.link_context_eq_some.mp hfound with ⟨rfl, rfl⟩ | ⟨hne, hfound⟩
      · simp [Pman.link]
      · have hnot : state.nextMapping ∉ found.mappings :=
          fun hmem => hold contextId found hfound _ hmem rfl
        simp [hnot, Pman.link, hne.symm]
    · rcases State.link_context_eq_some.mp hfound with ⟨rfl, rfl⟩ | ⟨_, hfound⟩
      · rw [hmappings, List.mem_cons, ← hsame target htarget heq]
        simp [heq]
      · exact hsame found hfound heq
  case ranges =>
    intro contextId found hfound
    rcases State.link_context_eq_some.mp hfound with ⟨rfl, rfl⟩ | ⟨_, hfound⟩
    · rw [hmappings, List.map_cons, hranges _ target htarget]
      have hnew : (Pman.link state context mapping).2.range state.nextMapping = mapping.range := by
        simp [State.range, Pman.link]
      rw [hnew, List.cons_append]
      exact hperm.trans ((hlaid.ranges _ target htarget).cons _)
    · rw [hranges contextId found hfound]
      exact hlaid.ranges contextId found hfound
  case freshContext =>
    intro contextId hle
    obtain ⟨hnone, hwindows⟩ := hlaid.freshContext contextId hle
    refine ⟨?_, hwindows⟩
    have hne : contextId ≠ mapping.context := by
      rintro rfl
      simp [hnone] at htarget
    simpa [Pman.link, hne] using hnone
  case loanSize =>
    intro other found lender lent hfound hlender hlent
    have hlentBefore : ∀ id before, state.mappings id = some before →
        before.kind.lender? = some lender → state.mappings lender = some lent := by
      intro id before hbefore hlender
      obtain ⟨root, hroot, _⟩ := hcounted.lender id before lender hbefore hlender
      have hne := Nat.ne_of_lt (hcounted.id_lt hroot)
      simpa [Pman.link, hne] using hlent
    rcases State.link_mapping_eq_some.mp hfound with ⟨_, rfl⟩ | ⟨_, hfound⟩
    · rcases State.link_mapping_eq_some.mp hlent with ⟨rfl, rfl⟩ | ⟨_, hlent⟩
      · rfl
      · exact hloan lender lent hlender hlent
    · exact hlaid.loanSize other found lender lent hfound hlender
        (hlentBefore other found hfound hlender)

/-- The range a mapping gave back can be requested again. -/
theorem vacant_release (hlaid : LaidOut windows state) (hmapping : state.mappings id = some mapping)
    (htarget : state.contexts mapping.context = some target) :
    pageSize ∣ mapping.vaddr ∧
      Vacant (Valloc.release target.regions mapping.vaddr).2 mapping.vaddr mapping.sizePages := by
  have hwell := hlaid.wellFormed _ target htarget
  have hmem := hlaid.mem_reserved hmapping htarget
  obtain ⟨regions, hrelease, hnew, hperm⟩ := Valloc.release_spec hwell hmem
  obtain ⟨region, hregion, _, hrange⟩ := Valloc.mem_reserved.mp hmem
  obtain ⟨hvaddr, hsize⟩ := Prod.mk.inj hrange
  have hregions : (Valloc.release target.regions mapping.vaddr).2 = regions :=
    congrArg Prod.snd hrelease
  refine ⟨hvaddr ▸ hwell.aligned hregion, ?_⟩
  rw [hregions, hnew.vacant_iff (hlaid.sizePages_bounds hmapping htarget).1]
  constructor
  · rw [hvaddr, hsize]
    exact hwell.bounds hregion
  · have hpairwise := (hperm.pairwise_iff Or.symm).mp hwell.reserved_pairwise
    exact fun range hmem => (List.pairwise_cons.mp hpairwise).1 range hmem

end LaidOut

/-! ## The calls -/

section Calls

variable {palloc : State → Nat → Option (List Nat)} {windows : Nat → List (Nat × Nat)}
  {state next : State} {held : List Nat} {id context lender vaddr paddr size : Nat}
  {protection : Protection} {mapping root : Mapping}

theorem newContext_laidOut (hcounted : Counted state held) (hlaid : LaidOut windows state) :
    LaidOut windows (newContext state).2 := by
  obtain ⟨hnone, hwindows⟩ := hlaid.freshContext state.nextContext (Nat.le_refl _)
  constructor
  case wellFormed =>
    intro contextId found hfound
    rcases State.newContext_eq_some.mp hfound with ⟨_, rfl⟩ | ⟨_, hfound⟩
    · exact Valloc.initial_wellFormed
    · exact hlaid.wellFormed contextId found hfound
  case nodup =>
    intro contextId found hfound
    rcases State.newContext_eq_some.mp hfound with ⟨_, rfl⟩ | ⟨_, hfound⟩
    · exact List.nodup_nil
    · exact hlaid.nodup contextId found hfound
  case listed =>
    intro contextId found hfound other
    rcases State.newContext_eq_some.mp hfound with ⟨rfl, rfl⟩ | ⟨_, hfound⟩
    · simp only [List.not_mem_nil, false_iff]
      rintro ⟨mapping, hmapping, hin⟩
      have hsome := hcounted.context other mapping hmapping
      rw [hin, hnone] at hsome
      exact Bool.false_ne_true hsome
    · exact hlaid.listed contextId found hfound other
  case ranges =>
    intro contextId found hfound
    rcases State.newContext_eq_some.mp hfound with ⟨rfl, rfl⟩ | ⟨_, hfound⟩
    · rw [hwindows]
      exact List.Perm.refl []
    · exact hlaid.ranges contextId found hfound
  case freshContext =>
    intro contextId hle
    have hle : state.nextContext + 1 ≤ contextId := hle
    have hne : contextId ≠ state.nextContext := by omega
    simpa [newContext, hne] using hlaid.freshContext contextId (by omega)
  case loanSize => exact hlaid.loanSize

theorem addAlloc_laidOut (hcounted : Counted state held) (hlaid : LaidOut windows state)
    (hsize : size < 2 ^ 64)
    (hplaceable : ∀ target, state.contexts context = some target →
      Placeable target.regions vaddr (divUp size pageSize) false)
    (hcall : addAlloc palloc state context protection vaddr size = .ok (id, next)) :
    LaidOut windows next := by
  obtain ⟨target, place, paddrs, htarget, hplace, _, _, rfl, rfl⟩ := addAlloc_eq_ok hcall
  obtain ⟨hwell, hperm⟩ := placeVaddr_spec (hlaid.wellFormed _ target htarget) hsize
    (hplaceable target htarget) hplace
  have hlink := hlaid.link hcounted
    ⟨context, protection, place.1, divUp size pageSize, .alloc 1 paddrs⟩ htarget place.2
    (withRoot target.table (flagsOf context protection protection.write) place.1
      ⟨context, protection, place.1, divUp size pageSize, .alloc 1 paddrs⟩) hwell hperm
    (fun _ _ hlender => by cases hlender)
  exact hlink.congr rfl rfl rfl

theorem addMap_laidOut (hcounted : Counted state held) (hlaid : LaidOut windows state)
    (hsize : size < 2 ^ 64)
    (hplaceable : ∀ target, state.contexts context = some target →
      Placeable target.regions vaddr (divUp size pageSize) protection.vreserve)
    (hcall : addMap palloc state context protection vaddr paddr size = .ok (id, next)) :
    LaidOut windows next := by
  obtain ⟨target, place, base, htarget, hplace, _, rfl, rfl⟩ := addMap_eq_ok hcall
  obtain ⟨hwell, hperm⟩ := placeVaddr_spec (hlaid.wellFormed _ target htarget) hsize
    (hplaceable target htarget) hplace
  have hlink := hlaid.link hcounted
    ⟨context, protection, place.1, divUp size pageSize, .map 1 base⟩ htarget place.2
    (withRoot target.table (flagsOf context protection protection.write) place.1
      ⟨context, protection, place.1, divUp size pageSize, .map 1 base⟩) hwell hperm
    (fun _ _ hlender => by cases hlender)
  exact hlink.congr rfl rfl rfl

/-- The root behind a mapping is the mapping or its lender. -/
theorem Counted.root_cases (hcounted : Counted state held)
    (hmapping : state.mappings id = some mapping) {rootId : Nat}
    (hrootId : state.root id = .ok rootId) :
    mapping.kind.isRoot = true ∧ rootId = id ∨ mapping.kind.lender? = some rootId := by
  cases hlender : mapping.kind.lender? with
  | none =>
      have hisRoot := Kind.lender?_eq_none_iff.mp hlender
      exact .inl ⟨hisRoot, Except.ok.inj (hrootId.symm.trans (State.root_of_isRoot hmapping hisRoot))⟩
  | some lender =>
      obtain ⟨root, hroot, hisRoot⟩ := hcounted.lender id mapping lender hmapping hlender
      have hpos : 0 < state.nextMapping := Nat.zero_lt_of_lt (hcounted.id_lt hmapping)
      have hlent := State.root_of_lender hpos hmapping hlender hroot hisRoot
      exact .inr (congrArg some (Except.ok.inj (hlent.symm.trans hrootId)))

/-- The root behind a mapping is as long as the mapping. -/
theorem LaidOut.root_sizePages (hcounted : Counted state held) (hlaid : LaidOut windows state)
    (hmapping : state.mappings id = some mapping) {rootId : Nat}
    (hrootId : state.root id = .ok rootId) (hroot : state.mappings rootId = some root) :
    root.sizePages = mapping.sizePages := by
  rcases hcounted.root_cases hmapping hrootId with ⟨_, rfl⟩ | hlender
  · rw [Option.some.inj (hmapping.symm.trans hroot)]
  · exact hlaid.loanSize id mapping rootId root hmapping hlender hroot

theorem addLoan_laidOut {kind : Nat → Kind} {write : Bool}
    (hkind : ∀ lender, (kind lender).lender? = some lender) (hcounted : Counted state held)
    (hlaid : LaidOut windows state)
    (hplaceable : ∀ target source, state.contexts context = some target →
      state.mappings lender = some source →
      Placeable target.regions vaddr source.sizePages false)
    (hcall : addLoan kind write state context protection lender vaddr = .ok (id, next)) :
    LaidOut windows next := by
  obtain ⟨rootId, root, source, target, place, hrootId, hroot, hisRoot, hsource, htarget, hplace,
    rfl, rfl⟩ := addLoan_eq_ok hcall
  obtain ⟨home, hhome⟩ := Option.isSome_iff_exists.mp (hcounted.context lender source hsource)
  have hbound := (hlaid.sizePages_bounds hsource hhome).2
  have hplaceable := hplaceable target source htarget hsource
  rw [← divUp_pages hbound] at hplaceable
  obtain ⟨hwell, hperm⟩ := placeVaddr_spec (hlaid.wellFormed _ target htarget) (u64_lt _)
    hplaceable hplace
  rw [divUp_pages hbound] at hperm
  have hraised := hcounted.raise hroot hisRoot
  have hsize := LaidOut.root_sizePages hcounted hlaid hsource hrootId hroot
  refine (hlaid.recount hroot _).link hraised
    ⟨context, protection, place.1, source.sizePages, kind rootId⟩ htarget place.2 _ hwell hperm ?_
  intro lender' root' hlender' hroot'
  obtain rfl : rootId = lender' := Option.some.inj ((hkind rootId).symm.trans hlender')
  obtain rfl : root.withReferences (root.kind.references + 1) = root' := by
    simpa [State.setMapping] using hroot'
  exact hsize

theorem unmap_root_laidOut (hcounted : Counted state held) (hlaid : LaidOut windows state)
    (hmem : id ∈ held) (hcall : unmap state id = .ok next) : LaidOut windows next := by
  obtain ⟨root, hroot, hunmap⟩ := hcounted.unmap_root hmem
  obtain rfl : state.drop id root = next := Except.ok.inj (hunmap.symm.trans hcall)
  obtain ⟨target, htarget⟩ := Option.isSome_iff_exists.mp (hcounted.context id root hroot)
  exact hlaid.drop hroot htarget

/-- After a loan is unmapped its range is vacant. -/
theorem unmap_loan_laidOut (hcounted : Counted state held) (hlaid : LaidOut windows state)
    (hmapping : state.mappings id = some mapping) (hlender : mapping.kind.lender? = some lender)
    (hcall : unmap state id = .ok next) :
    LaidOut windows next ∧ pageSize ∣ mapping.vaddr ∧
      ∀ target, next.contexts mapping.context = some target →
        Vacant target.regions mapping.vaddr mapping.sizePages := by
  obtain ⟨root, hroot, hisRoot, hunmap⟩ := hcounted.unmap_loan hmapping hlender
  obtain rfl : _ = next := Except.ok.inj (hunmap.symm.trans hcall)
  obtain ⟨home, hhome⟩ := Option.isSome_iff_exists.mp (hcounted.context lender root hroot)
  have hdropped := hlaid.drop hroot hhome
  have hmapping' : (state.drop lender root).mappings id = some mapping := by
    rw [State.drop_mappings, Function.update_of_ne]
    · exact hmapping
    · rintro rfl
      obtain rfl : mapping = root := Option.some.inj (hmapping.symm.trans hroot)
      simp [Kind.isRoot_eq_false hlender] at hisRoot
  obtain ⟨target, htarget⟩ : ∃ target,
      (state.drop lender root).contexts mapping.context = some target := by
    rw [← Option.isSome_iff_exists, State.drop_isSome]
    exact hcounted.context id mapping hmapping
  obtain ⟨haligned, hvacant⟩ := hdropped.vacant_release hmapping' htarget
  refine ⟨hdropped.remove hmapping' htarget, haligned, ?_⟩
  intro after hafter
  rw [State.remove_context htarget] at hafter
  cases hafter
  exact hvacant

/-- A mapping that is there after a loan was unmapped was there before, perhaps
with another count. -/
theorem unmap_loan_mappings (hcounted : Counted state held)
    (hmapping : state.mappings id = some mapping) (hlender : mapping.kind.lender? = some lender)
    (hcall : unmap state id = .ok next) {other : Nat} {after : Mapping}
    (hafter : next.mappings other = some after) :
    ∃ before, state.mappings other = some before ∧
      (after = before ∨ ∃ references, after = before.withReferences references) := by
  obtain ⟨root, hroot, _, hunmap⟩ := hcounted.unmap_loan hmapping hlender
  obtain rfl : _ = next := Except.ok.inj (hunmap.symm.trans hcall)
  rw [State.remove_mappings, State.drop_mappings] at hafter
  by_cases hid : other = id
  · simp [hid] at hafter
  rw [Function.update_of_ne hid] at hafter
  by_cases hother : other = lender
  · subst hother
    rw [Function.update_self] at hafter
    split at hafter
    · cases hafter
    · exact ⟨root, hroot, .inr ⟨_, (Option.some.inj hafter).symm⟩⟩
  · rw [Function.update_of_ne hother] at hafter
    exact ⟨after, hafter, .inl rfl⟩

section Remap

variable {removed shared : State} {lenderId user : Nat}
  (hremaps : Remaps state id mapping lenderId user removed shared next)
  (hcounted : Counted state (lenderId :: held)) (hlaid : LaidOut windows state)
  (hmapping : state.mappings id = some mapping) (hlender : mapping.kind.lender? = some lender)
  (hsize : ∀ root, state.mappings lenderId = some root → root.sizePages = mapping.sizePages)

include hremaps hcounted hlaid hmapping hlender hsize

/-- The addresses the old loan had can be had again. -/
theorem Remaps.placeable {target : Context} {source : Mapping}
    (htarget : removed.contexts mapping.context = some target)
    (hsource : removed.mappings lenderId = some source) :
    source.sizePages = mapping.sizePages ∧
      Placeable target.regions mapping.vaddr source.sizePages false := by
  obtain ⟨_, haligned, hvacant⟩ := unmap_loan_laidOut hcounted hlaid hmapping hlender hremaps.remove
  obtain ⟨home, hhome⟩ := Option.isSome_iff_exists.mp (hcounted.context id mapping hmapping)
  obtain ⟨before, hbefore, hsame⟩ :=
    unmap_loan_mappings hcounted hmapping hlender hremaps.remove hsource
  have hsourceSize : source.sizePages = mapping.sizePages := by
    rw [← hsize before hbefore]
    rcases hsame with rfl | ⟨_, rfl⟩ <;> rfl
  refine ⟨hsourceSize, ?_⟩
  rw [hsourceSize]
  exact ⟨(hlaid.sizePages_bounds hmapping hhome).1, .inr ⟨haligned, hvacant target htarget⟩⟩

/-- The new mapping is put where the old one was. -/
theorem Remaps.laidOut : LaidOut windows next := by
  have hremoved := unmap_loan_counted hcounted hmapping hlender hremaps.remove
  have hremovedLaid := (unmap_loan_laidOut hcounted hlaid hmapping hlender hremaps.remove).1
  have hshared : LaidOut windows shared :=
    addLoan_laidOut (fun _ => rfl) hremoved hremovedLaid (fun _ _ htarget hsource =>
      (hremaps.placeable hcounted hlaid hmapping hlender hsize htarget hsource).2) hremaps.share
  exact unmap_root_laidOut (addShared_counted hremoved hremaps.share) hshared List.mem_cons_self
    hremaps.drop

end Remap

/-- A copy of a root can be placed wherever there is room. -/
theorem LaidOut.copy_placeable {rootId : Nat} {root : Mapping} (hlaid : LaidOut windows state)
    (hcounted : Counted state held) (hroot : state.mappings rootId = some root) :
    divUp (u64 (root.sizePages * pageSize)) pageSize = root.sizePages ∧
      ∀ regions, Placeable regions 0 (divUp (u64 (root.sizePages * pageSize)) pageSize) false := by
  obtain ⟨home, hhome⟩ := Option.isSome_iff_exists.mp (hcounted.context rootId root hroot)
  obtain ⟨hpos, hbound⟩ := hlaid.sizePages_bounds hroot hhome
  have hpages := divUp_pages hbound
  rw [hpages]
  exact ⟨rfl, fun _ => ⟨hpos, .inl ⟨rfl, rfl⟩⟩⟩

theorem RemapStart.laidOut {start : State} {lenderId : Nat}
    (hstart : RemapStart palloc state id lenderId start) (hcounted : Counted state held)
    (hlaid : LaidOut windows state) (hmapping : state.mappings id = some mapping) :
    LaidOut windows start ∧
      ∀ root, start.mappings lenderId = some root → root.sizePages = mapping.sizePages := by
  cases hstart with
  | @raise _ root hrootId hroot =>
      refine ⟨hlaid.recount hroot _, fun found hfound => ?_⟩
      obtain rfl : root.withReferences (root.kind.references + 1) = found := by
        simpa [State.setMapping] using hfound
      show root.sizePages = mapping.sizePages
      exact LaidOut.root_sizePages hcounted hlaid hmapping hrootId hroot
  | @copy _ _ root _ hrootId hroot halloc memory =>
      obtain ⟨hpages, hplaceable⟩ := hlaid.copy_placeable hcounted hroot
      refine ⟨(addAlloc_laidOut hcounted hlaid (u64_lt _) (fun target _ => hplaceable target.regions)
        halloc).congr rfl rfl rfl, fun found hfound => ?_⟩
      obtain ⟨target, place, paddrs, _, _, _, _, rfl, rfl⟩ := addAlloc_eq_ok halloc
      have hfound : Function.update state.mappings state.nextMapping _ state.nextMapping =
        some found := hfound
      rw [Function.update_self, Option.some.injEq] at hfound
      rw [← hfound, ← LaidOut.root_sizePages hcounted hlaid hmapping hrootId hroot]
      exact hpages

theorem prepareWrite_laidOut {user : Nat} (hcounted : Counted state held)
    (hlaid : LaidOut windows state)
    (hcall : prepareWrite palloc state id = .ok (user, next)) : LaidOut windows next := by
  obtain ⟨mapping, hmapping, ⟨_, _, rfl⟩ | ⟨lender, lenderId, start, removed, shared, hkind, hstart,
    hremaps⟩⟩ := prepareWrite_cases hcall
  · exact hlaid
  have hlender : mapping.kind.lender? = some lender := by rw [hkind]; rfl
  obtain ⟨hraised, hmapping'⟩ := hstart.counted hcounted hmapping hlender
  obtain ⟨hstartLaid, hsize⟩ := hstart.laidOut hcounted hlaid hmapping
  exact hremaps.laidOut hraised hstartLaid hmapping' hlender hsize

end Calls

end PKernel.Pman
