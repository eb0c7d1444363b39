import PKernel.Paging.Manager

/-! # What the calls of the paging manager do

Each call that returns, in closed form: the new mapping and where it lies, or
the mappings that disappear. The results are built from three changes of the
state. `link` puts a new mapping into its context, `State.remove` takes one
out, and `State.drop` takes back one reference to a root. All invariants of the
manager are derived from these.
-/

namespace PKernel.Pman

open PageTables (Leaf Flags)
open Valloc (Region)
open Function (update update_comm update_idem update_of_ne update_self)

namespace Kind

variable {kind : Kind} {lender count : Nat}

@[simp]
theorem setReferences_references (hroot : kind.isRoot = true) :
    (kind.setReferences count).references = count := by
  cases kind <;> simp_all [isRoot, setReferences, references]

@[simp]
theorem setReferences_isRoot : (kind.setReferences count).isRoot = kind.isRoot := by
  cases kind <;> simp [isRoot, setReferences]

@[simp]
theorem setReferences_lender? : (kind.setReferences count).lender? = kind.lender? := by
  cases kind <;> simp [lender?, setReferences]

@[simp]
theorem setReferences_setReferences (other : Nat) :
    (kind.setReferences count).setReferences other = kind.setReferences other := by
  cases kind <;> simp [setReferences]

theorem lender?_eq_none_iff : kind.lender? = none ↔ kind.isRoot = true := by
  cases kind <;> simp [isRoot, lender?]

theorem isRoot_eq_false (hlender : kind.lender? = some lender) : kind.isRoot = false := by
  cases kind <;> simp_all [isRoot, lender?]

end Kind

/-- The same mapping with another reference count. -/
def Mapping.withReferences (mapping : Mapping) (references : Nat) : Mapping :=
  { mapping with kind := mapping.kind.setReferences references }

@[simp]
theorem Mapping.withReferences_frame? (mapping : Mapping) (references i : Nat) :
    (mapping.withReferences references).frame? i = mapping.frame? i := by
  obtain ⟨context, protection, vaddr, sizePages, kind⟩ := mapping
  cases kind <;> rfl

namespace State

variable {state : State} {id : Nat}

/-- Change a context that exists. -/
def modifyContext (state : State) (id : Nat) (change : Context → Context) : State :=
  { state with contexts := update state.contexts id ((state.contexts id).map change) }

/-- A mapping leaves the list of its context. -/
def unlinked (state : State) (id : Nat) (mapping : Mapping) : State :=
  state.modifyContext mapping.context fun context =>
    { context with mappings := context.mappings.erase id }

/-- A mapping leaves its context: its list, its addresses and its pages. -/
def remove (state : State) (id : Nat) (mapping : Mapping) : State :=
  let state := state.modifyContext mapping.context fun context =>
    { regions := (Valloc.release context.regions mapping.vaddr).2
      table := unmapRange context.table (mapping.vaddr / pageSize) mapping.sizePages
      mappings := context.mappings.erase id }
  { state with mappings := update state.mappings id none }

/-- One reference to a root less; the last one takes the root with it. -/
def drop (state : State) (id : Nat) (root : Mapping) : State :=
  if root.kind.references - 1 = 0 then
    { state.remove id root with released := id :: state.released }
  else state.setMapping id (root.withReferences (root.kind.references - 1))

theorem context_eq_ok {context : Context} :
    state.context id = .ok context ↔ state.contexts id = some context := by
  unfold State.context
  split <;> simp_all

theorem mapping_eq_ok {mapping : Mapping} :
    state.mapping id = .ok mapping ↔ state.mappings id = some mapping := by
  unfold State.mapping
  split <;> simp_all

/-- The contexts that exist stay. -/
@[simp]
theorem modifyContext_isSome (change : Context → Context) (other : Nat) :
    ((state.modifyContext id change).contexts other).isSome = (state.contexts other).isSome := by
  by_cases hother : other = id
  · subst hother
    simp [modifyContext]
  · simp [modifyContext, hother]

@[simp]
theorem remove_isSome (mapping : Mapping) (other : Nat) :
    ((state.remove id mapping).contexts other).isSome = (state.contexts other).isSome := by
  simp [remove]

@[simp]
theorem drop_isSome (root : Mapping) (other : Nat) :
    ((state.drop id root).contexts other).isSome = (state.contexts other).isSome := by
  unfold drop
  split <;> simp [setMapping]

/-- Contexts other than the mapping's own are as they were. -/
theorem remove_context_ne {mapping : Mapping} {other : Nat} (hne : other ≠ mapping.context) :
    (state.remove id mapping).contexts other = state.contexts other := by
  simp [remove, modifyContext, hne]

theorem remove_context {mapping : Mapping} {context : Context}
    (hcontext : state.contexts mapping.context = some context) :
    (state.remove id mapping).contexts mapping.context = some
      { regions := (Valloc.release context.regions mapping.vaddr).2
        table := unmapRange context.table (mapping.vaddr / pageSize) mapping.sizePages
        mappings := context.mappings.erase id } := by
  simp [remove, modifyContext, hcontext]

theorem drop_context_ne {root : Mapping} {other : Nat} (hne : other ≠ root.context) :
    (state.drop id root).contexts other = state.contexts other := by
  unfold drop
  split
  · exact remove_context_ne hne
  · rfl

theorem remove_mappings (mapping : Mapping) :
    (state.remove id mapping).mappings = update state.mappings id none := rfl

theorem drop_mappings (root : Mapping) :
    (state.drop id root).mappings = update state.mappings id
      (if root.kind.references - 1 = 0 then none
        else some (root.withReferences (root.kind.references - 1))) := by
  unfold drop
  split <;> rfl

@[simp]
theorem drop_nextMapping (root : Mapping) :
    (state.drop id root).nextMapping = state.nextMapping := by
  unfold drop
  split <;> rfl

@[simp]
theorem drop_memory (root : Mapping) : (state.drop id root).memory = state.memory := by
  unfold drop
  split <;> rfl

end State

/-! ## Mapping the pages of a root -/

/-- The frames of a root in the order of its pages. -/
def Mapping.frames (root : Mapping) : List Nat :=
  match root.kind with
  | .alloc _ paddrs => paddrs
  | .map _ paddr => (List.range root.sizePages).map fun i => paddr + i * pageSize
  | .borrowed _ | .shared _ => []

theorem Mapping.frames_getElem? (root : Mapping) (i : Nat) :
    root.frames[i]? = root.frame? i := by
  unfold Mapping.frames Mapping.frame?
  cases root.kind with
  | map references paddr => by_cases hi : i < root.sizePages <;> simp [hi]
  | _ => simp

/-- The table with the frames of a root from `vaddr` on. -/
def withRoot (table : Table) (flags : Flags) (vaddr : Nat) (root : Mapping) : Table := fun page =>
  (table page).or (if vaddr / pageSize ≤ page then
    (root.frame? (page - vaddr / pageSize)).map fun paddr => ⟨paddr, flags⟩ else none)

/-- No page that a root takes from `vaddr` on is mapped. -/
def VacantAt (table : Table) (vaddr : Nat) (root : Mapping) : Prop :=
  ∀ i, (root.frame? i).isSome → table (vaddr / pageSize + i) = none

section Tables

variable {table after : Table} {flags : Flags} {vaddr : Nat} {root : Mapping}

theorem mapRun_eq_mapEach (count : Nat) : ∀ (table : Table) (page paddr : Nat),
    mapRun table flags page paddr count =
      mapEach table flags page ((List.range count).map fun i => paddr + i * pageSize) := by
  induction count with
  | zero => exact fun _ _ _ => rfl
  | succ count ih =>
      intro table page paddr
      have hrest : (fun i => paddr + i * pageSize) ∘ Nat.succ =
          fun i => paddr + pageSize + i * pageSize := by
        funext i
        simp only [Function.comp_apply, Nat.succ_mul]
        omega
      rw [List.range_succ_eq_map, List.map_cons, List.map_map, hrest, mapRun, mapEach]
      simp only [ih, Nat.zero_mul, Nat.add_zero]

theorem mapRoot_eq_mapEach (table : Table) (flags : Flags) (vaddr : Nat) (root : Mapping) :
    mapRoot table flags vaddr root = mapEach table flags (vaddr / pageSize) root.frames := by
  unfold mapRoot Mapping.frames
  cases root.kind with
  | map references paddr => exact mapRun_eq_mapEach _ _ _ _
  | _ => rfl

/-- The calls for a list of frames return if all of the pages are free. -/
theorem mapEach_eq_ok (paddrs : List Nat) : ∀ (table : Table) (first : Nat),
    mapEach table flags first paddrs = .ok after ↔
      (∀ i < paddrs.length, table (first + i) = none) ∧
      after = fun page => (table page).or (if first ≤ page then
        paddrs[page - first]?.map fun paddr => ⟨paddr, flags⟩ else none) := by
  induction paddrs with
  | nil =>
      intro table first
      simp [mapEach, eq_comm]
  | cons paddr paddrs ih =>
      intro table first
      rw [mapEach, mapPage]
      cases hpage : table first with
      | some leaf =>
          refine iff_of_false (by simp) fun hfree => ?_
          simpa [hpage] using hfree.1 0 (Nat.zero_lt_succ _)
      | none =>
          simp only [Option.isSome_none, Bool.false_eq_true, if_false, ok_bind, ih]
          refine and_congr ⟨fun hrest i hi => ?_, fun hfree i hi => ?_⟩ (Eq.congr_right ?_)
          · cases i with
            | zero => exact hpage
            | succ i =>
                have hnone := hrest i (Nat.lt_of_succ_lt_succ hi)
                rwa [update_of_ne (by omega), Nat.add_right_comm] at hnone
          · rw [update_of_ne (by omega), Nat.add_right_comm]
            exact hfree (i + 1) (Nat.succ_lt_succ hi)
          · funext page
            rcases Nat.lt_trichotomy page first with hbelow | rfl | habove
            · rw [update_of_ne (by omega), if_neg (by omega), if_neg (by omega)]
            · simp [hpage]
            · rw [update_of_ne (by omega), if_pos (by omega), if_pos (by omega),
                show page - first = page - (first + 1) + 1 by omega, List.getElem?_cons_succ]

/-- Mapping a root returns if its pages are free, and halts the processor otherwise. -/
theorem mapRoot_eq_ok :
    mapRoot table flags vaddr root = .ok after ↔
      VacantAt table vaddr root ∧ after = withRoot table flags vaddr root := by
  rw [mapRoot_eq_mapEach, mapEach_eq_ok]
  unfold VacantAt withRoot
  simp only [← Mapping.frames_getElem?, isSome_getElem?]

end Tables

variable {state next : State} {id context lender vaddr size : Nat} {mapping root : Mapping}
  {protection : Protection}

/-! ## Adding -/

section Add

variable {palloc : State → Nat → Option (List Nat)}

/-- The context of a new mapping, and the mapping, after the addresses are
found. -/
def placed (target : Context) (place : Nat × List Region) (flags : Flags) (root : Mapping) :
    Context :=
  { target with regions := place.2, table := withRoot target.table flags place.1 root }

theorem addAlloc_eq_ok
    (hcall : addAlloc palloc state context protection vaddr size = .ok (id, next)) :
    ∃ target place paddrs, state.contexts context = some target ∧
      placeVaddr target.regions vaddr size false = .ok place ∧ divUp size pageSize ≠ 0 ∧
      palloc state (divUp size pageSize) = some paddrs ∧ id = state.nextMapping ∧
      next = { (link state
          (placed target place (flagsOf context protection protection.write)
            ⟨context, protection, place.1, divUp size pageSize, .alloc 1 paddrs⟩)
          ⟨context, protection, place.1, divUp size pageSize, .alloc 1 paddrs⟩).2 with
        roots := id :: state.roots } := by
  unfold addAlloc at hcall
  obtain ⟨target, htarget, hcall⟩ := bind_eq_ok.mp hcall
  obtain ⟨⟨start, regions⟩, hplace, hcall⟩ := bind_eq_ok.mp hcall
  by_cases hsize : divUp size pageSize = 0
  · simp [hsize] at hcall
  cases hpalloc : palloc state (divUp size pageSize) with
  | none => simp [hsize, hpalloc] at hcall
  | some paddrs =>
      simp only [hsize, hpalloc, if_false, pure_eq_ok] at hcall
      obtain ⟨table, htable, hcall⟩ := bind_eq_ok.mp hcall
      obtain rfl := (mapRoot_eq_ok.mp htable).2
      simp only [Except.ok.injEq, Prod.mk.injEq] at hcall
      exact ⟨target, (start, regions), paddrs, State.context_eq_ok.mp htarget, hplace, hsize,
        rfl, hcall.1.symm, by rw [← hcall.2, ← hcall.1]; rfl⟩

theorem addMap_eq_ok {paddr : Nat}
    (hcall : addMap palloc state context protection vaddr paddr size = .ok (id, next)) :
    ∃ target place base, state.contexts context = some target ∧
      placeVaddr target.regions vaddr size protection.vreserve = .ok place ∧
      pallocContiguous palloc state paddr (divUp size pageSize) = .ok base ∧ id = state.nextMapping ∧
      next = { (link state
          (placed target place (flagsOf context protection protection.write)
            ⟨context, protection, place.1, divUp size pageSize, .map 1 base⟩)
          ⟨context, protection, place.1, divUp size pageSize, .map 1 base⟩).2 with
        roots := id :: state.roots } := by
  unfold addMap at hcall
  obtain ⟨target, htarget, hcall⟩ := bind_eq_ok.mp hcall
  obtain ⟨⟨start, regions⟩, hplace, hcall⟩ := bind_eq_ok.mp hcall
  obtain ⟨base, hbase, hcall⟩ := bind_eq_ok.mp hcall
  obtain ⟨table, htable, hcall⟩ := bind_eq_ok.mp hcall
  obtain rfl := (mapRoot_eq_ok.mp htable).2
  simp only [pure_eq_ok, Except.ok.injEq, Prod.mk.injEq] at hcall
  exact ⟨target, (start, regions), base, State.context_eq_ok.mp htarget, hplace, hbase,
    hcall.1.symm, by rw [← hcall.2, ← hcall.1]; rfl⟩

end Add

/-! ## Roots -/

/-- A walk along the lenders ends in a root. -/
theorem getRootMapping_isRoot {fuel : Nat} :
    ∀ {id rootId : Nat}, getRootMapping state fuel id = .ok rootId →
      ∃ root, state.mappings rootId = some root ∧ root.kind.isRoot = true := by
  induction fuel with
  | zero =>
      intro id rootId hcall
      simp [getRootMapping] at hcall
  | succ fuel ih =>
      intro id rootId hcall
      unfold getRootMapping at hcall
      obtain ⟨mapping, hmapping, hcall⟩ := bind_eq_ok.mp hcall
      split at hcall
      next lender _ => exact ih hcall
      next hnone =>
        obtain rfl : id = rootId := by simpa using hcall
        exact ⟨mapping, State.mapping_eq_ok.mp hmapping, Kind.lender?_eq_none_iff.mp hnone⟩

theorem State.root_of_isRoot (hmapping : state.mappings id = some mapping)
    (hroot : mapping.kind.isRoot = true) : state.root id = .ok id := by
  unfold State.root getRootMapping
  rw [State.mapping_eq_ok.mpr hmapping, ok_bind, Kind.lender?_eq_none_iff.mpr hroot, pure_eq_ok]

theorem State.root_of_lender (hnext : 0 < state.nextMapping)
    (hmapping : state.mappings id = some mapping) (hlender : mapping.kind.lender? = some lender)
    (hlive : state.mappings lender = some root) (hroot : root.kind.isRoot = true) :
    state.root id = .ok lender := by
  obtain ⟨fuel, hfuel⟩ := Nat.exists_eq_succ_of_ne_zero hnext.ne'
  unfold State.root getRootMapping
  rw [State.mapping_eq_ok.mpr hmapping, ok_bind, hlender, hfuel]
  simp only [getRootMapping]
  rw [State.mapping_eq_ok.mpr hlive, ok_bind, Kind.lender?_eq_none_iff.mpr hroot, pure_eq_ok]

/-- The new loan is of the root behind the mapping that is named as lender, and
as long as that mapping. -/
theorem addLoan_eq_ok {kind : Nat → Kind} {write : Bool}
    (hcall : addLoan kind write state context protection lender vaddr = .ok (id, next)) :
    ∃ rootId root source target place, state.root lender = .ok rootId ∧
      state.mappings rootId = some root ∧ root.kind.isRoot = true ∧
      state.mappings lender = some source ∧ state.contexts context = some target ∧
      placeVaddr target.regions vaddr (u64 (source.sizePages * pageSize)) false = .ok place ∧
      id = state.nextMapping ∧
      next = (link (state.setMapping rootId (root.withReferences (root.kind.references + 1)))
        (placed target place (flagsOf context protection write)
          (root.withReferences (root.kind.references + 1)))
        ⟨context, protection, place.1, source.sizePages, kind rootId⟩).2 := by
  unfold addLoan at hcall
  obtain ⟨rootId, hrootId, hcall⟩ := bind_eq_ok.mp hcall
  obtain ⟨source, hsource, hcall⟩ := bind_eq_ok.mp hcall
  obtain ⟨target, htarget, hcall⟩ := bind_eq_ok.mp hcall
  obtain ⟨⟨start, regions⟩, hplace, hcall⟩ := bind_eq_ok.mp hcall
  obtain ⟨root, hroot, hcall⟩ := bind_eq_ok.mp hcall
  obtain ⟨_, hlive, hisRoot⟩ := getRootMapping_isRoot hrootId
  obtain rfl : root = _ := Option.some.inj ((State.mapping_eq_ok.mp hroot).symm.trans hlive)
  split at hcall
  next => simp at hcall
  next =>
    obtain ⟨table, htable, hcall⟩ := bind_eq_ok.mp hcall
    obtain rfl := (mapRoot_eq_ok.mp htable).2
    simp only [pure_eq_ok, Except.ok.injEq] at hcall
    refine ⟨rootId, root, source, target, (start, regions), hrootId, hlive, hisRoot,
      State.mapping_eq_ok.mp hsource, State.context_eq_ok.mp htarget, hplace, ?_, ?_⟩
    · exact (congrArg Prod.fst hcall).symm
    · exact (congrArg Prod.snd hcall).symm

/-! ## Removing -/

theorem unlink_eq_ok {target : Context} (htarget : state.contexts mapping.context = some target) :
    unlink state id mapping = .ok (state.unlinked id mapping) := by
  unfold unlink
  rw [State.context_eq_ok.mpr htarget, ok_bind, pure_eq_ok]
  simp [State.unlinked, State.modifyContext, State.setContext, htarget]

theorem discard_eq_ok {target : Context} (htarget : state.contexts mapping.context = some target) :
    discard state id mapping = .ok
      { state.modifyContext mapping.context fun context =>
          { context with
            regions := (Valloc.release context.regions mapping.vaddr).2
            table := unmapRange context.table (mapping.vaddr / pageSize) mapping.sizePages } with
        mappings := update state.mappings id none } := by
  unfold discard
  rw [State.context_eq_ok.mpr htarget, ok_bind, pure_eq_ok]
  simp [State.modifyContext, State.setContext, htarget]

theorem dropReference_eq_ok {target : Context}
    (htarget : state.contexts mapping.context = some target) :
    dropReference state id mapping = .ok (state.drop id mapping) := by
  unfold dropReference State.drop
  by_cases hlast : mapping.kind.references - 1 = 0
  · have hunlinked : (state.unlinked id mapping).contexts mapping.context =
        some { target with mappings := target.mappings.erase id } := by
      simp [State.unlinked, State.modifyContext, htarget]
    simp only [hlast, if_true]
    rw [unlink_eq_ok htarget, ok_bind, discard_eq_ok hunlinked, ok_bind, pure_eq_ok]
    simp [State.remove, State.unlinked, State.modifyContext, htarget]
  · simp only [hlast, if_false, pure_eq_ok]
    rfl

theorem unmap_root (hmapping : state.mappings id = some mapping)
    (hroot : mapping.kind.isRoot = true) (htarget : (state.contexts mapping.context).isSome) :
    unmap state id = .ok (state.drop id mapping) := by
  obtain ⟨target, htarget⟩ := Option.isSome_iff_exists.mp htarget
  unfold unmap unmapWith
  rw [State.mapping_eq_ok.mpr hmapping, ok_bind, Kind.lender?_eq_none_iff.mpr hroot]
  exact dropReference_eq_ok htarget

/-- Taking a mapping off its list and dropping a root, in either order. -/
theorem unlinked_drop :
    (state.unlinked id mapping).drop lender root =
      (state.drop lender root).unlinked id mapping := by
  unfold State.drop
  split
  next =>
    by_cases hcontext : mapping.context = root.context
    · simp only [State.remove, State.unlinked, State.modifyContext, hcontext,
        update_self, update_idem, Option.map_map, Function.comp_def,
        List.erase_comm id]
    · simp only [State.remove, State.unlinked, State.modifyContext,
        update_of_ne hcontext, update_of_ne (Ne.symm hcontext),
        update_comm hcontext]
  next => rfl

/-- The order of the source is: off the list, drop the root, give back the
addresses. The list of a context keeps no trace of the order of two removals,
so the root may as well go first. -/
theorem unmap_loan (hnext : 0 < state.nextMapping)
    (hmapping : state.mappings id = some mapping) (hlender : mapping.kind.lender? = some lender)
    (hlive : state.mappings lender = some root) (hroot : root.kind.isRoot = true)
    (htarget : (state.contexts mapping.context).isSome)
    (hrootTarget : (state.contexts root.context).isSome) :
    unmap state id = .ok ((state.drop lender root).remove id mapping) := by
  obtain ⟨fuel, hfuel⟩ := Nat.exists_eq_succ_of_ne_zero hnext.ne'
  obtain ⟨target, htarget'⟩ := Option.isSome_iff_exists.mp htarget
  obtain ⟨rootTarget, hrootTarget'⟩ :
      ∃ context, (state.unlinked id mapping).contexts root.context = some context := by
    simpa [State.unlinked, ← Option.isSome_iff_exists] using hrootTarget
  obtain ⟨dropped, hdropped⟩ : ∃ context,
      ((state.drop lender root).unlinked id mapping).contexts mapping.context = some context := by
    simpa [State.unlinked, ← Option.isSome_iff_exists] using htarget
  have hlive' : (state.unlinked id mapping).mappings lender = some root := hlive
  unfold unmap unmapWith
  rw [State.mapping_eq_ok.mpr hmapping, ok_bind, hlender]
  simp only []
  rw [unlink_eq_ok htarget', ok_bind, hfuel]
  unfold unmapWith
  rw [State.mapping_eq_ok.mpr hlive', ok_bind, Kind.lender?_eq_none_iff.mpr hroot]
  simp only []
  rw [dropReference_eq_ok hrootTarget', ok_bind, unlinked_drop, discard_eq_ok hdropped]
  simp [State.remove, State.unlinked, State.modifyContext, Function.comp_def]

/-! ## Copy on write -/

theorem addReference_eq_ok (hmapping : state.mappings id = some mapping) :
    addReference state id =
      .ok (state.setMapping id (mapping.withReferences (mapping.kind.references + 1))) := by
  unfold addReference
  rw [State.mapping_eq_ok.mpr hmapping, ok_bind, pure_eq_ok, Mapping.withReferences]

/-- The calls of `pman_context_prepare_write` for a mapping borrowed from a root
that nothing else refers to. -/
def TakesOver (state : State) (id : Nat) (mapping : Mapping) (rootId user : Nat) (next : State) :
    Prop :=
  ∃ raised removed shared, addReference state rootId = .ok raised ∧
    unmap raised id = .ok removed ∧
    addShared removed mapping.context mapping.protection rootId mapping.vaddr =
      .ok (user, shared) ∧
    unmap shared rootId = .ok next

/-- The calls of `pman_context_prepare_write` for a mapping borrowed from a root
that has other references. -/
def CopiesOut (palloc : State → Nat → Option (List Nat)) (state : State) (id : Nat)
    (mapping root : Mapping) (user : Nat) (next : State) : Prop :=
  ∃ copyId allocated kernel copy memory removed shared,
    addAlloc palloc state kernelContext ⟨true, false, false, false⟩ 0
      (u64 (root.sizePages * pageSize)) = .ok (copyId, allocated) ∧
    allocated.contexts kernelContext = some kernel ∧ allocated.mappings copyId = some copy ∧
    memcpy kernel.table allocated.memory copy.vaddr root.vaddr (root.sizePages * pageSize) =
      .ok memory ∧
    unmap { allocated with memory } id = .ok removed ∧
    addShared removed mapping.context mapping.protection copyId mapping.vaddr =
      .ok (user, shared) ∧
    unmap shared copyId = .ok next

theorem prepareWrite_eq_ok {palloc : State → Nat → Option (List Nat)} {user : Nat}
    (hcall : prepareWrite palloc state id = .ok (user, next)) :
    ∃ mapping, state.mappings id = some mapping ∧
      ((∀ lender, mapping.kind ≠ .borrowed lender) ∧ user = id ∧ next = state ∨
        ∃ lender rootId root, mapping.kind = .borrowed lender ∧ state.root id = .ok rootId ∧
          state.mappings rootId = some root ∧ root.kind.isRoot = true ∧
          (root.kind.references = 1 ∧ TakesOver state id mapping rootId user next ∨
            root.kind.references ≠ 1 ∧ CopiesOut palloc state id mapping root user next)) := by
  unfold prepareWrite at hcall
  obtain ⟨mapping, hmapping, hcall⟩ := bind_eq_ok.mp hcall
  refine ⟨mapping, State.mapping_eq_ok.mp hmapping, ?_⟩
  cases hkind : mapping.kind with
  | borrowed lender =>
      right
      simp only [hkind] at hcall
      obtain ⟨rootId, hrootId, hcall⟩ := bind_eq_ok.mp hcall
      obtain ⟨root, hroot, hcall⟩ := bind_eq_ok.mp hcall
      obtain ⟨_, hlive, hisRoot⟩ := getRootMapping_isRoot hrootId
      have hroot := State.mapping_eq_ok.mp hroot
      obtain rfl : root = _ := Option.some.inj (hroot.symm.trans hlive)
      refine ⟨lender, rootId, root, rfl, hrootId, hroot, hisRoot, ?_⟩
      split at hcall
      next hsingle =>
        obtain ⟨raised, hraised, hcall⟩ := bind_eq_ok.mp hcall
        obtain ⟨removed, hremoved, hcall⟩ := bind_eq_ok.mp hcall
        obtain ⟨⟨user', shared⟩, hshared, hcall⟩ := bind_eq_ok.mp hcall
        obtain ⟨next', hnext, hcall⟩ := bind_eq_ok.mp hcall
        cases hcall
        exact .inl ⟨hsingle, raised, removed, shared, hraised, hremoved, hshared, hnext⟩
      next hmany =>
        obtain ⟨⟨copyId, allocated⟩, hallocated, hcall⟩ := bind_eq_ok.mp hcall
        obtain ⟨kernel, hkernel, hcall⟩ := bind_eq_ok.mp hcall
        obtain ⟨copy, hcopy, hcall⟩ := bind_eq_ok.mp hcall
        obtain ⟨memory, hmemory, hcall⟩ := bind_eq_ok.mp hcall
        obtain ⟨removed, hremoved, hcall⟩ := bind_eq_ok.mp hcall
        obtain ⟨⟨user', shared⟩, hshared, hcall⟩ := bind_eq_ok.mp hcall
        obtain ⟨next', hnext, hcall⟩ := bind_eq_ok.mp hcall
        cases hcall
        exact .inr ⟨hmany, copyId, allocated, kernel, copy, memory, removed, shared,
          hallocated, State.context_eq_ok.mp hkernel, State.mapping_eq_ok.mp hcopy, hmemory,
          hremoved, hshared, hnext⟩
  | alloc references paddrs => simp_all
  | map references paddr => simp_all
  | shared lender => simp_all

/-- The last three calls of `pman_context_prepare_write`, which put a new loan of
a root that is held where the old one was. -/
structure Remaps (state : State) (id : Nat) (mapping : Mapping) (lenderId user : Nat)
    (removed shared next : State) : Prop where
  remove : unmap state id = .ok removed
  share : addShared removed mapping.context mapping.protection lenderId mapping.vaddr =
    .ok (user, shared)
  drop : unmap shared lenderId = .ok next

/-- What comes before them: another reference to the root of the loan, or a copy of its pages. -/
inductive RemapStart (palloc : State → Nat → Option (List Nat)) (state : State) (id : Nat) :
    Nat → State → Prop
  | raise {rootId : Nat} {root : Mapping} (hrootId : state.root id = .ok rootId)
      (hroot : state.mappings rootId = some root) (hisRoot : root.kind.isRoot = true) :
      RemapStart palloc state id rootId
        (state.setMapping rootId (root.withReferences (root.kind.references + 1)))
  | copy {rootId copyId : Nat} {root : Mapping} {allocated : State}
      (hrootId : state.root id = .ok rootId) (hroot : state.mappings rootId = some root)
      (halloc : addAlloc palloc state kernelContext ⟨true, false, false, false⟩ 0
        (u64 (root.sizePages * pageSize)) = .ok (copyId, allocated)) (memory : Nat → UInt8) :
      RemapStart palloc state id copyId { allocated with memory }

/-- Both ways end in remapping the loan to a root that the function holds. -/
theorem prepareWrite_cases {palloc : State → Nat → Option (List Nat)} {user : Nat}
    (hcall : prepareWrite palloc state id = .ok (user, next)) :
    ∃ mapping, state.mappings id = some mapping ∧
      ((∀ lender, mapping.kind ≠ .borrowed lender) ∧ user = id ∧ next = state ∨
        ∃ lender lenderId start removed shared, mapping.kind = .borrowed lender ∧
          RemapStart palloc state id lenderId start ∧
          Remaps start id mapping lenderId user removed shared next) := by
  obtain ⟨mapping, hmapping, hkept | ⟨lender, rootId, root, hkind, hrootId, hroot, hisRoot,
    hpaths⟩⟩ := prepareWrite_eq_ok hcall
  · exact ⟨mapping, hmapping, .inl hkept⟩
  refine ⟨mapping, hmapping, .inr ?_⟩
  rcases hpaths with
    ⟨_, raised, removed, shared, hraise, hremove, hshare, hdrop⟩ |
    ⟨_, copyId, allocated, kernel, copy, memory, removed, shared, halloc, _, _, _, hremove,
      hshare, hdrop⟩
  · rw [addReference_eq_ok hroot] at hraise
    cases hraise
    exact ⟨lender, rootId, _, removed, shared, hkind, .raise hrootId hroot hisRoot, hremove, hshare,
      hdrop⟩
  · exact ⟨lender, copyId, _, removed, shared, hkind, .copy hrootId hroot halloc memory, hremove,
      hshare, hdrop⟩

end PKernel.Pman
