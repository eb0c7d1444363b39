import PKernel.Paging.WriteFaults

/-! # Resizing mappings

`pman_context_resize`, and when the calls of the manager return. The function
copies what it resizes into a new root of the kernel, for mappings that are roots
of pages themselves and for those lent for copying on write; any other mapping
makes it panic. All roots being in the kernel's context, a call does not stop as
long as there are addresses and pages left.
-/

namespace PKernel.Pman

open PageTables (Leaf Flags)
open Valloc (Region WellFormed Vacant reserved regionSize)
open Function (update update_comm update_eq_self update_idem update_of_ne update_self)

section Code

variable (palloc : State → Nat → Option (List Nat))

/-- `pman_context_resize`. -/
def resize (state : State) (id newVaddr size : Nat) : Except Fault (Nat × State) := do
  let mapping ← state.mapping id
  match mapping.kind with
  | .alloc _ _ =>
      let (newAlloc, state) ← addAlloc palloc state kernelContext mapping.protection 0 size
      let kernel ← state.context kernelContext
      let newMapping ← state.mapping newAlloc
      let memory ← memcpy kernel.table state.memory newMapping.vaddr mapping.vaddr
        (min (mapping.sizePages * pageSize) size)
      let state ← unmap { state with memory } id
      return (newAlloc, state)
  | .borrowed _ =>
      let vaddr := if newVaddr = 0 then mapping.vaddr else newVaddr
      let (newLender, state) ← addAlloc palloc state kernelContext ⟨true, false, false, false⟩ 0 size
      let kernel ← state.context kernelContext
      let newMapping ← state.mapping newLender
      let root ← state.root id
      let rootMapping ← state.mapping root
      let memory ← memcpy kernel.table state.memory newMapping.vaddr rootMapping.vaddr
        (min (mapping.sizePages * pageSize) size)
      let state ← unmap { state with memory } id
      let (newMapping, state) ← addShared state mapping.context mapping.protection newLender vaddr
      let state ← unmap state newLender
      return (newMapping, state)
  | .map _ _ | .shared _ =>
      throw (.panic "Resize of non borrowed or alloc memory unimplemented" [])

end Code

/-- The types of mappings that `pman_context_resize` handles. -/
def Kind.resizable : Kind → Bool
  | alloc _ _ | borrowed _ => true
  | map _ _ | shared _ => false

/-- The kernel's table translates the addresses of a stretch of bytes. -/
def Reaches (table : Table) (vaddr count : Nat) : Prop :=
  ∀ i < count, (translate table (vaddr + i)).isSome

theorem Reaches.mono {table : Table} {vaddr count fewer : Nat} (hreaches : Reaches table vaddr count)
    (hfewer : fewer ≤ count) : Reaches table vaddr fewer :=
  fun i hi => hreaches i (Nat.lt_of_lt_of_le hi hfewer)

theorem memcpy_returns {table : Table} (memory : Nat → UInt8) {dst src count : Nat}
    (hdst : Reaches table dst count) (hsrc : Reaches table src count) :
    ∃ after, memcpy table memory dst src count = .ok after := by
  induction count with
  | zero => exact ⟨memory, rfl⟩
  | succ count ih =>
      obtain ⟨between, hbetween⟩ := ih (hdst.mono (Nat.le_succ _)) (hsrc.mono (Nat.le_succ _))
      obtain ⟨target, htarget⟩ := Option.isSome_iff_exists.mp (hdst count (Nat.lt_succ_self _))
      obtain ⟨source, hsource⟩ := Option.isSome_iff_exists.mp (hsrc count (Nat.lt_succ_self _))
      refine ⟨update between target (between source), ?_⟩
      rw [memcpy, hbetween, ok_bind, htarget, hsource]
      rfl

/-! ## The state between calls -/

/-- All roots are in the kernel's context. -/
structure KernelRoots (state : State) : Prop where
  kernel : (state.contexts kernelContext).isSome
  kernelRoots : ∀ id root, state.mappings id = some root → root.kind.isRoot = true →
    root.context = kernelContext

/-- What holds between the calls of a kernel that makes all roots in its own
context. -/
structure Sound (held : List Nat) (state : State) : Prop where
  counted : Counted state held
  laidOut : ∃ windows, LaidOut windows state
  mirrored : Mirrored state
  rooted : KernelRoots state

namespace Sound

variable {palloc : State → Nat → Option (List Nat)} {state next : State} {held : List Nat}
  {id context lender vaddr size : Nat} {protection : Protection} {mapping root : Mapping}
  {target : Context}

theorem congr (hsound : Sound held state) (memory : Nat → UInt8) :
    Sound held { state with memory } := by
  obtain ⟨hcounted, ⟨windows, hlaid⟩, hmirrored, hkernel, hroots⟩ := hsound
  exact ⟨hcounted.congr rfl rfl rfl rfl fun _ h => h, ⟨windows, hlaid.congr rfl rfl rfl⟩,
    hmirrored.congr rfl rfl, ⟨hkernel, hroots⟩⟩

/-- The kernel reaches the pages of a root. -/
theorem reaches (hsound : Sound held state) (hroot : state.mappings id = some root)
    (hisRoot : root.kind.isRoot = true) (hkernel : state.contexts kernelContext = some target) :
    Reaches target.table root.vaddr (root.sizePages * pageSize) := by
  obtain ⟨_, ⟨windows, hlaid⟩, hmirrored, ⟨_, hroots⟩⟩ := hsound
  have hcontext := hroots id root hroot hisRoot
  obtain ⟨first, hfirst⟩ := (hlaid.vacant_release hroot (hcontext ▸ hkernel)).1
  intro i hi
  have hpage : i / pageSize < root.sizePages := by
    unfold pageSize at *
    omega
  obtain ⟨paddr, _, hleaf⟩ := hmirrored.mapped hroot (hcontext ▸ hkernel) hpage
  have hsame : (root.vaddr + i) / pageSize = root.vaddr / pageSize + i / pageSize := by
    rw [hfirst]
    unfold pageSize
    omega
  simp [translate, hsame, hleaf]

end Sound

/-! ## Calls that return -/

section Returns

variable {palloc : State → Nat → Option (List Nat)} {state next : State}
  {id context lender vaddr size : Nat} {protection : Protection} {target : Context}
  {place : Nat × List Region}

/-- There is a free region for a number of pages. -/
def Room (regions : List Region) (sizePages : Nat) : Prop :=
  ∃ region ∈ regions, region.isFree = true ∧ sizePages ≤ region.sizePages

theorem valloc_returns {regions : List Region} (hroom : Room regions (divUp size pageSize)) :
    ∃ place, Valloc.alloc regions size = .ok place := by
  obtain ⟨region, hregion, hfree, hfits⟩ := hroom
  unfold Valloc.alloc
  cases hsplit : Valloc.splitFirst (Region.suits (divUp size pageSize)) regions with
  | none =>
      have hsuits := Valloc.splitFirst_eq_none.mp hsplit region hregion
      simp [Region.suits, hfree, hfits] at hsuits
  | some split =>
      obtain ⟨before, node, after⟩ := split
      simp only [hsplit]
      by_cases hexact : divUp size pageSize = node.sizePages
      · simp only [hexact, if_true]
        exact ⟨_, rfl⟩
      · simp only [hexact, if_false]
        exact ⟨_, rfl⟩

theorem addAlloc_returns (protection : Protection) (htarget : state.contexts context = some target)
    (hplace : placeVaddr target.regions vaddr size false = .ok place)
    (hpositive : divUp size pageSize ≠ 0) {paddrs : List Nat}
    (hpaddrs : palloc state (divUp size pageSize) = some paddrs)
    (hvacant : VacantAt target.table place.1
      ⟨context, protection, place.1, divUp size pageSize, .alloc 1 paddrs⟩) :
    ∃ result, addAlloc palloc state context protection vaddr size = .ok result := by
  obtain ⟨start, regions⟩ := place
  have hmapped := mapRoot_eq_ok.mpr ⟨hvacant, Eq.refl (withRoot target.table
    (flagsOf context protection protection.write) _ _)⟩
  unfold addAlloc
  rw [State.context_eq_ok.mpr htarget, ok_bind, hplace, ok_bind]
  simp only [hpositive, if_false, hpaddrs, hmapped, ok_bind]
  exact ⟨_, rfl⟩

theorem addLoan_returns (protection : Protection) (kind : Nat → Kind) (write : Bool)
    {rootId : Nat} {root : Mapping} (hroot : state.mappings rootId = some root)
    (hisRoot : root.kind.isRoot = true) (hpages : root.kind ≠ .alloc root.kind.references [])
    (htarget : state.contexts context = some target)
    (hplace : placeVaddr target.regions vaddr (u64 (root.sizePages * pageSize)) false =
      .ok place) (hvacant : VacantAt target.table place.1 root) :
    ∃ result, addLoan kind write state context protection rootId vaddr = .ok result := by
  obtain ⟨start, regions⟩ := place
  have hvacant' : VacantAt target.table start
      (root.withReferences (root.kind.references + 1)) := fun i hframe =>
    hvacant i (by rwa [Mapping.withReferences_frame?] at hframe)
  have hmapped := mapRoot_eq_ok.mpr ⟨hvacant', Eq.refl (withRoot target.table
    (flagsOf context protection write) _ _)⟩
  unfold Mapping.withReferences at hmapped
  unfold addLoan
  rw [State.root_of_isRoot hroot hisRoot, ok_bind, State.mapping_eq_ok.mpr hroot, ok_bind,
    State.context_eq_ok.mpr htarget, ok_bind, hplace]
  simp only [ok_bind, hpages, if_false, hmapped]
  exact ⟨_, rfl⟩

end Returns

/-! ## Steps of a kernel that makes all roots in its own context -/

/-- Addresses and pages of the kernel for so many pages. -/
structure Supplied (palloc : State → Nat → Option (List Nat)) (state : State) (sizePages : Nat) :
    Prop where
  positive : 0 < sizePages
  pages : (palloc state sizePages).isSome
  room : ∀ target, state.contexts kernelContext = some target → Room target.regions sizePages

/-- A place for a mapping: any, for `NULL`, or a vacant one. -/
def Fits (regions : List Region) (vaddr sizePages : Nat) : Prop :=
  vaddr = 0 ∧ Room regions sizePages ∨ vaddr ≠ 0 ∧ pageSize ∣ vaddr ∧ Vacant regions vaddr sizePages

theorem Fits.placeable {regions : List Region} {vaddr sizePages : Nat}
    (hfits : Fits regions vaddr sizePages) (hpositive : 0 < sizePages) :
    Placeable regions vaddr sizePages false := by
  refine ⟨hpositive, ?_⟩
  rcases hfits with ⟨rfl, _⟩ | ⟨_, hvacant⟩
  · exact .inl ⟨rfl, rfl⟩
  · exact .inr hvacant

theorem Fits.returns {regions : List Region} {vaddr size : Nat} (hwell : WellFormed regions)
    (hsize : size < 2 ^ 64) (hpositive : 0 < divUp size pageSize)
    (hfits : Fits regions vaddr (divUp size pageSize)) :
    ∃ place, placeVaddr regions vaddr size false = .ok place := by
  rcases hfits with ⟨rfl, hroom⟩ | ⟨hvaddr, haligned, hvacant⟩
  · exact valloc_returns hroom
  · obtain ⟨hpos, hle⟩ := size_bounds hsize hpositive (Vacant.sizePages_le hwell hvacant)
    obtain ⟨new, hgranted, _⟩ := Valloc.reserve_granted hwell hpos hle haligned hvacant
    refine ⟨(vaddr, new), ?_⟩
    simp [placeVaddr, hvaddr, hgranted]

section Frames

variable {palloc : State → Nat → Option (List Nat)} {state next : State}
  {id context lender vaddr size : Nat} {protection : Protection}

/-- What `pman_context_add_alloc` changes. -/
theorem addAlloc_frame
    (hcall : addAlloc palloc state context protection vaddr size = .ok (id, next)) :
    ∃ target mapping, id = state.nextMapping ∧ mapping.context = context ∧
      mapping.kind.isRoot = true ∧ mapping.sizePages = divUp size pageSize ∧
      next.mappings = update state.mappings id (some mapping) ∧
      next.contexts = update state.contexts context (some target) := by
  obtain ⟨target, place, paddrs, _, _, _, _, rfl, rfl⟩ := addAlloc_eq_ok hcall
  exact ⟨_, _, rfl, rfl, rfl, rfl, rfl, rfl⟩

/-- What `pman_context_add_borrowed` and `pman_context_add_shared` change. -/
theorem addLoan_frame {kind : Nat → Kind} {write : Bool}
    (hcall : addLoan kind write state context protection lender vaddr = .ok (id, next)) :
    ∃ rootId root target mapping, state.root lender = .ok rootId ∧ id = state.nextMapping ∧
      state.mappings rootId = some root ∧ mapping.context = context ∧
      mapping.kind = kind rootId ∧
      next.mappings = update (update state.mappings rootId
        (some (root.withReferences (root.kind.references + 1)))) id (some mapping) ∧
      next.contexts = update state.contexts context (some target) := by
  obtain ⟨rootId, root, source, target, place, hrootId, hroot, _, _, _, _, rfl, rfl⟩ :=
    addLoan_eq_ok hcall
  exact ⟨rootId, root, _, _, hrootId, rfl, hroot, rfl, rfl, rfl, rfl⟩

theorem Mapping.withReferences_self {root : Mapping} (hisRoot : root.kind.isRoot = true) :
    root.withReferences root.kind.references = root := by
  obtain ⟨context, protection, vaddr, sizePages, kind⟩ := root
  cases kind with
  | alloc references paddrs => rfl
  | map references paddr => rfl
  | borrowed lender => cases hisRoot
  | shared lender => cases hisRoot

/-- What is left when a root that is held is lent and the hold given up: the loan. -/
theorem addLoan_unmap {kind : Nat → Kind} {write : Bool} {held : List Nat} {root : Mapping}
    (hkind : ∀ lender, (kind lender).lender? = some lender)
    (hcounted : Counted state (lender :: held)) (hroot : state.mappings lender = some root)
    (hcall : addLoan kind write state context protection lender vaddr = .ok (id, next)) :
    ∃ target loan after, unmap next lender = .ok after ∧ id = state.nextMapping ∧
      loan.kind = kind lender ∧ loan.context = context ∧
      after.mappings = update state.mappings id (some loan) ∧
      after.contexts = update state.contexts context (some target) := by
  obtain ⟨last, hlast, hdrop⟩ :=
    (addLoan_counted hkind hcounted hcall).unmap_root List.mem_cons_self
  obtain ⟨rootId, found, target, loan, hrootId, hid, hfound, hcontext, hloan, hmappings,
    hcontexts⟩ := addLoan_frame hcall
  obtain ⟨_, hroot', hisRoot⟩ := hcounted.held lender List.mem_cons_self
  obtain rfl : root = _ := Option.some.inj (hroot.symm.trans hroot')
  obtain rfl : lender = rootId :=
    Except.ok.inj ((State.root_of_isRoot hroot hisRoot).symm.trans hrootId)
  obtain rfl : root = found := Option.some.inj (hroot.symm.trans hfound)
  have hne : lender ≠ id := hid ▸ Nat.ne_of_lt (hcounted.id_lt hroot)
  have hpositive := hcounted.positive lender root hroot hisRoot
  obtain rfl : root.withReferences (root.kind.references + 1) = last := by
    rw [hmappings, update_of_ne hne, update_self, Option.some.injEq] at hlast
    exact hlast
  have hreferences : (root.withReferences (root.kind.references + 1)).kind.references =
      root.kind.references + 1 := Kind.setReferences_references hisRoot
  -- the count is what it was before the loan
  have hback : next.drop lender (root.withReferences (root.kind.references + 1)) =
      next.setMapping lender root := by
    unfold State.drop
    rw [hreferences, Nat.add_sub_cancel, if_neg hpositive.ne']
    congr 1
    calc (root.withReferences (root.kind.references + 1)).withReferences root.kind.references
      _ = root.withReferences root.kind.references := by simp [Mapping.withReferences]
      _ = root := Mapping.withReferences_self hisRoot
  refine ⟨target, loan, _, hdrop, hid, hloan, hcontext, ?_, ?_⟩
  · rw [hback, State.setMapping, hmappings, update_comm hne, update_idem,
      update_comm hne.symm, ← hroot, update_eq_self]
  · rw [hback, State.setMapping, hcontexts]

/-- A loan is no root, and the root that is lent stays where it is. -/
theorem KernelRoots.addLoan {kind : Nat → Kind} {write : Bool}
    (hkind : ∀ lender, (kind lender).lender? = some lender) (hrooted : KernelRoots state)
    (hcall : addLoan kind write state context protection lender vaddr = .ok (id, next)) :
    KernelRoots next := by
  obtain ⟨rootId, root, target, loan, _, rfl, hroot, _, hloan, hmappings, hcontexts⟩ :=
    addLoan_frame hcall
  constructor
  case kernel =>
    rw [hcontexts]
    by_cases heq : kernelContext = context
    · rw [heq, update_self]
      rfl
    · rw [update_of_ne heq]
      exact hrooted.kernel
  case kernelRoots =>
    intro other found hother hisRoot
    rw [hmappings] at hother
    by_cases hnew : other = state.nextMapping
    · rw [hnew, update_self, Option.some.injEq] at hother
      rw [← hother, hloan, Kind.isRoot_eq_false (hkind rootId)] at hisRoot
      exact absurd hisRoot Bool.false_ne_true
    rw [update_of_ne hnew] at hother
    by_cases hlent : other = rootId
    · rw [hlent, update_self, Option.some.injEq] at hother
      rw [← hother] at hisRoot ⊢
      exact hrooted.kernelRoots rootId root hroot (by simpa [Mapping.withReferences] using hisRoot)
    · rw [update_of_ne hlent] at hother
      exact hrooted.kernelRoots other found hother hisRoot

/-- A new mapping of the kernel. -/
theorem KernelRoots.insert {mapping : Mapping} {target : Context} (hrooted : KernelRoots state)
    (hcontext : mapping.context = kernelContext)
    (hmappings : next.mappings = update state.mappings id (some mapping))
    (hcontexts : next.contexts = update state.contexts kernelContext (some target)) :
    KernelRoots next := by
  constructor
  case kernel =>
    rw [hcontexts, update_self]
    rfl
  case kernelRoots =>
    intro other found hother hisRoot
    rw [hmappings] at hother
    by_cases hnew : other = id
    · rw [hnew, update_self] at hother
      cases hother
      exact hcontext
    · rw [update_of_ne hnew] at hother
      exact hrooted.kernelRoots other found hother hisRoot

/-- A new reference count moves no root. -/
theorem KernelRoots.recount {root : Mapping} (hrooted : KernelRoots state)
    (hroot : state.mappings id = some root) (references : Nat) :
    KernelRoots (state.setMapping id (root.withReferences references)) := by
  refine ⟨hrooted.kernel, ?_⟩
  intro other found hother hisRoot
  by_cases heq : other = id
  · simp only [heq, State.setMapping, update_self, Option.some.injEq] at hother
    rw [← hother] at hisRoot ⊢
    exact hrooted.kernelRoots id root hroot (by simpa [Mapping.withReferences] using hisRoot)
  · simp only [State.setMapping, update_of_ne heq] at hother
    exact hrooted.kernelRoots other found hother hisRoot

theorem KernelRoots.remove (hrooted : KernelRoots state) (mapping : Mapping) :
    KernelRoots (state.remove id mapping) := by
  constructor
  case kernel =>
    rw [State.remove_isSome]
    exact hrooted.kernel
  case kernelRoots =>
    intro other found hother hisRoot
    rw [State.remove_mappings] at hother
    by_cases heq : other = id
    · rw [heq, update_self] at hother
      cases hother
    · rw [update_of_ne heq] at hother
      exact hrooted.kernelRoots other found hother hisRoot

theorem KernelRoots.drop {root : Mapping} (hrooted : KernelRoots state)
    (hroot : state.mappings id = some root) : KernelRoots (state.drop id root) := by
  unfold State.drop
  split
  · exact ⟨(hrooted.remove root).kernel, (hrooted.remove root).kernelRoots⟩
  · exact hrooted.recount hroot _

end Frames

/-- The pages of a size that rounds up to any hold it. -/
theorem size_le_pages {size : Nat} (hsize : size < 2 ^ 64) (hpositive : 0 < divUp size pageSize) :
    size ≤ divUp size pageSize * pageSize := by
  unfold divUp u64 pageSize at *
  omega

namespace Sound

variable {palloc : State → Nat → Option (List Nat)} {state next : State} {held : List Nat}
  {id context lender vaddr size : Nat} {mapping root : Mapping} {target : Context}

/-- A new root of the kernel, and nothing else. -/
structure Allocated (state : State) (size id : Nat) (next : State) : Prop where
  fresh : state.mappings id = none
  root : ∃ mapping, next.mappings id = some mapping ∧ mapping.kind.isRoot = true ∧
    mapping.sizePages = divUp size pageSize
  kept : ∀ other found, state.mappings other = some found → next.mappings other = some found
  contexts : ∀ other, other ≠ kernelContext → next.contexts other = state.contexts other

/-- The kernel gets a root at a place of the manager's choice. -/
theorem addAlloc (hsound : Sound held state) (hpalloc : Exact palloc) (hsize : size < 2 ^ 64)
    (hsupplied : Supplied palloc state (divUp size pageSize)) (protection : Protection) :
    ∃ id next, Pman.addAlloc palloc state kernelContext protection 0 size = .ok (id, next) ∧
      Sound (id :: held) next ∧ Allocated state size id next := by
  obtain ⟨hcounted, ⟨windows, hlaid⟩, hmirrored, hrooted⟩ := hsound
  obtain ⟨target, htarget⟩ := Option.isSome_iff_exists.mp hrooted.kernel
  obtain ⟨paddrs, hpaddrs⟩ := Option.isSome_iff_exists.mp hsupplied.pages
  obtain ⟨place, hplace⟩ : ∃ place, placeVaddr target.regions 0 size false = .ok place :=
    valloc_returns (hsupplied.room target htarget)
  have hplaceable : ∀ target, state.contexts kernelContext = some target →
      Placeable target.regions 0 (divUp size pageSize) false :=
    fun _ _ => ⟨hsupplied.positive, .inl ⟨rfl, rfl⟩⟩
  obtain ⟨hwell, hperm⟩ := placeVaddr_spec (hlaid.wellFormed _ target htarget) hsize
    (hplaceable target htarget) hplace
  have hwhole : Mapping.Whole
      ⟨kernelContext, protection, place.1, divUp size pageSize, .alloc 1 paddrs⟩ := by
    rintro _ _ ⟨⟩
    exact hpalloc _ _ _ hpaddrs
  obtain ⟨⟨id, next⟩, hcall⟩ := addAlloc_returns protection htarget hplace
    hsupplied.positive.ne' hpaddrs (hmirrored.vacantAt htarget hwell hperm hwhole)
  obtain ⟨after, mapping, rfl, hcontext, hisRoot, hpages, hmappings, hcontexts⟩ :=
    addAlloc_frame hcall
  refine ⟨_, next, hcall, ⟨addAlloc_counted hcounted hcall,
    ⟨windows, addAlloc_laidOut hcounted hlaid hsize hplaceable hcall⟩,
    addAlloc_mirrored hpalloc hmirrored hcounted hlaid hsize hplaceable hcall,
    hrooted.insert hcontext hmappings hcontexts⟩, hcounted.fresh _ (Nat.le_refl _),
    ⟨mapping, by rw [hmappings, update_self], hisRoot, hpages⟩, ?_, ?_⟩
  · exact fun other found hfound => addAlloc_mappings_of_live hcounted hcall hfound
  · intro other hother
    rw [hcontexts, update_of_ne hother]

/-- The kernel lends a root it has just made to a process, and lets go of it. -/
theorem lend (hsound : Sound (lender :: held) state) (hroot : state.mappings lender = some root)
    (htarget : state.contexts context = some target)
    (hfits : Fits target.regions vaddr root.sizePages) (protection : Protection) :
    ∃ user shared next, addShared state context protection lender vaddr = .ok (user, shared) ∧
      unmap shared lender = .ok next ∧ Sound held next ∧ shared.mappings lender = some
        (root.withReferences (root.kind.references + 1)) ∧ next.mappings lender = some root ∧
      ∃ loan, next.mappings user = some loan ∧ loan.kind = .shared lender ∧
        loan.context = context := by
  obtain ⟨hcounted, ⟨windows, hlaid⟩, hmirrored, hrooted⟩ := hsound
  obtain ⟨_, hroot', hisRoot⟩ := hcounted.held lender List.mem_cons_self
  obtain rfl : root = _ := Option.some.inj (hroot.symm.trans hroot')
  obtain ⟨home, hhome⟩ := Option.isSome_iff_exists.mp (hcounted.context lender root hroot)
  obtain ⟨hpositive, hbound⟩ := hlaid.sizePages_bounds hroot hhome
  have hpages := divUp_pages hbound
  obtain ⟨place, hplace⟩ := Fits.returns (hlaid.wellFormed _ target htarget)
    (u64_lt (root.sizePages * pageSize)) (by rwa [hpages]) (by rwa [hpages])
  have hnonempty : root.kind ≠ .alloc root.kind.references [] := by
    intro hkind
    exact hpositive.ne (hmirrored.whole lender root hroot _ _ hkind)
  have hspec := placeVaddr_spec (hlaid.wellFormed _ target htarget) (u64_lt _)
    (by rw [hpages]; exact hfits.placeable hpositive) hplace
  rw [hpages] at hspec
  obtain ⟨⟨user, shared⟩, hshare⟩ : ∃ result,
      addShared state context protection lender vaddr = .ok result :=
    addLoan_returns protection .shared _ hroot hisRoot hnonempty htarget hplace
      (hmirrored.vacantAt htarget hspec.1 hspec.2 (hmirrored.whole lender root hroot))
  have hplaceable : ∀ target source, state.contexts context = some target →
      state.mappings lender = some source →
      Placeable target.regions vaddr source.sizePages false := by
    intro target' source htarget' hsource
    cases htarget.symm.trans htarget'
    cases hroot.symm.trans hsource
    exact hfits.placeable hpositive
  have hshared := addShared_counted hcounted hshare
  have hsharedLaid := addLoan_laidOut (fun _ => rfl) hcounted hlaid hplaceable hshare
  have hsharedMirrored := addShared_mirrored hmirrored hcounted hlaid hplaceable hshare
  obtain ⟨after, loan, next, hdrop, rfl, hkind, hcontext, hmappings, hcontexts⟩ :=
    addLoan_unmap (fun _ => rfl) hcounted hroot hshare
  have hne : lender ≠ state.nextMapping := Nat.ne_of_lt (hcounted.id_lt hroot)
  obtain ⟨last, hlast, hdropEq⟩ := hshared.unmap_root List.mem_cons_self
  obtain rfl : _ = next := Except.ok.inj (hdropEq.symm.trans hdrop)
  refine ⟨_, shared, _, hshare, hdrop, ⟨?_, ⟨windows, ?_⟩, ?_, ?_⟩, ?_, ?_, loan, ?_, hkind,
    hcontext⟩
  · simpa using unmap_root_counted hshared List.mem_cons_self hdrop
  · exact unmap_root_laidOut hshared hsharedLaid List.mem_cons_self hdrop
  · exact unmap_root_mirrored hsharedMirrored hshared hsharedLaid List.mem_cons_self hdrop
  · exact (hrooted.addLoan (fun _ => rfl) hshare).drop hlast
  · obtain ⟨rootId, found, _, _, hrootId, _, hfound, _, _, hsharedMappings, _⟩ :=
      addLoan_frame hshare
    obtain rfl : lender = rootId :=
      Except.ok.inj ((State.root_of_isRoot hroot hisRoot).symm.trans hrootId)
    obtain rfl : root = found := Option.some.inj (hroot.symm.trans hfound)
    rw [hsharedMappings, update_of_ne hne, update_self]
  · rw [hmappings, update_of_ne hne]
    exact hroot
  · rw [hmappings, update_self]

/-- A loan of a process goes, and its range with it. -/
theorem unmapLoan (hsound : Sound held state) (hmapping : state.mappings id = some mapping)
    (hlender : mapping.kind.lender? = some lender) (hcontext : mapping.context ≠ kernelContext)
    (htarget : state.contexts mapping.context = some target) :
    ∃ next, unmap state id = .ok next ∧ Sound held next ∧
      (∀ other, other ≠ lender → other ≠ id → next.mappings other = state.mappings other) ∧
      ∃ after, next.contexts mapping.context = some after ∧
        after.regions = (Valloc.release target.regions mapping.vaddr).2 := by
  obtain ⟨hcounted, ⟨windows, hlaid⟩, hmirrored, hrooted⟩ := hsound
  obtain ⟨root, hroot, hisRoot, hunmap⟩ := hcounted.unmap_loan hmapping hlender
  have hrootContext := hrooted.kernelRoots lender root hroot hisRoot
  have hdropped : (state.drop lender root).contexts mapping.context = some target := by
    rw [State.drop_context_ne (hrootContext ▸ hcontext)]
    exact htarget
  refine ⟨_, hunmap, ⟨unmap_loan_counted hcounted hmapping hlender hunmap,
    ⟨windows, (unmap_loan_laidOut hcounted hlaid hmapping hlender hunmap).1⟩,
    unmap_loan_mirrored hmirrored hcounted hlaid hmapping hlender hunmap,
    (hrooted.drop hroot).remove mapping⟩, ?_, ?_⟩
  · intro other hroot hid
    rw [State.remove_mappings, State.drop_mappings, update_of_ne hid,
      update_of_ne hroot]
  · exact ⟨_, State.remove_context hdropped, rfl⟩

/-- `pman_context_resize` of a mapping that was lent for copying on write, with
memory for the copy and a place for its loan. -/
theorem resize (hsound : Sound held state) (hpalloc : Exact palloc)
    (hmapping : state.mappings id = some mapping) (hborrowed : mapping.kind = .borrowed lender)
    (hcontext : mapping.context ≠ kernelContext)
    (htarget : state.contexts mapping.context = some target) (hsize : size < 2 ^ 64)
    (hsupplied : Supplied palloc state (divUp size pageSize))
    (hfits : Fits (Valloc.release target.regions mapping.vaddr).2
      (if vaddr = 0 then mapping.vaddr else vaddr) (divUp size pageSize)) :
    ∃ user next rootId root, Pman.resize palloc state id vaddr size = .ok (user, next) ∧
      Sound held next ∧ next.mappings rootId = some root ∧ root.kind.isRoot = true ∧
      root.sizePages = divUp size pageSize ∧
      ∃ loan, next.mappings user = some loan ∧ loan.kind = .shared rootId ∧
        loan.context = mapping.context := by
  obtain ⟨copyId, allocated, halloc, hallocated, ⟨hfresh, ⟨copy, hcopy, hcopyRoot, hcopySize⟩,
    hkept, hcontexts⟩⟩ := hsound.addAlloc hpalloc hsize hsupplied ⟨true, false, false, false⟩
  have hlender : mapping.kind.lender? = some lender := by rw [hborrowed]; rfl
  obtain ⟨kernel, hkernel⟩ := Option.isSome_iff_exists.mp hallocated.rooted.kernel
  have hmapping' := hkept id mapping hmapping
  obtain ⟨root, hroot, hisRoot⟩ := hallocated.counted.lender id mapping lender hmapping' hlender
  have hrootId : allocated.root id = .ok lender :=
    State.root_of_lender (Nat.zero_lt_of_lt (hallocated.counted.id_lt hmapping')) hmapping'
      hlender hroot hisRoot
  -- both stretches lie in pages that the kernel reaches
  obtain ⟨windows, hlaid⟩ := hallocated.laidOut
  have hrootSize := hlaid.loanSize id mapping lender root hmapping' hlender hroot
  have hcovered : size ≤ divUp size pageSize * pageSize :=
    size_le_pages hsize hsupplied.positive
  obtain ⟨memory, hmemcpy⟩ := memcpy_returns allocated.memory
    ((hallocated.reaches hcopy hcopyRoot hkernel).mono
      ((Nat.min_le_right (mapping.sizePages * pageSize) size).trans (hcopySize ▸ hcovered)))
    ((hallocated.reaches hroot hisRoot hkernel).mono
      ((Nat.min_le_left (mapping.sizePages * pageSize) size).trans (hrootSize ▸ Nat.le_refl _)))
  obtain ⟨removed, hremove, hremoved, hothers, after, hafter, hregions⟩ :=
    (hallocated.congr memory).unmapLoan hmapping' hlender hcontext
      ((hcontexts _ hcontext).trans htarget)
  have hcopyNe : copyId ≠ lender ∧ copyId ≠ id := by
    obtain ⟨before, hbefore, _⟩ := hsound.counted.lender id mapping lender hmapping hlender
    constructor <;> rintro rfl
    · simp [hbefore] at hfresh
    · simp [hmapping] at hfresh
  have hcopy' := (hothers copyId hcopyNe.1 hcopyNe.2).trans hcopy
  obtain ⟨user, shared, next, hshare, hdrop, hnext, _, hroot', loan, hloan, hkind,
    hhome⟩ := hremoved.lend hcopy' hafter (hregions ▸ hcopySize ▸ hfits) mapping.protection
  refine ⟨user, next, copyId, copy, ?_, hnext, hroot', hcopyRoot, hcopySize, loan, hloan, hkind,
    hhome⟩
  unfold Pman.resize
  rw [State.mapping_eq_ok.mpr hmapping, ok_bind]
  simp only [hborrowed, halloc, ok_bind, State.context_eq_ok.mpr hkernel,
    State.mapping_eq_ok.mpr hcopy, hrootId, State.mapping_eq_ok.mpr hroot, hmemcpy, hremove, hshare,
    hdrop, pure_eq_ok]

end Sound

/-! ## Runs -/

section Runs

open Library.Transition

variable {palloc : State → Nat → Option (List Nat)} {state next : State} {world after : World}
  {held : List Nat} {op : Op} {id user : Nat}

/-- New roots are made in the kernel's context, as all callers of the manager do. -/
def Op.InKernel : Op → Prop
  | .addAlloc context _ _ _ | .addMap context _ _ _ _ => context = kernelContext
  | .newContext | .addBorrowed _ _ _ _ | .addShared _ _ _ _ | .prepareWrite _ | .unmap _ => True

/-- A call of the manager, or a store of a program or of the kernel. -/
inductive KernelStep (palloc : State → Nat → Option (List Nat)) : World → Option Op → World → Prop
  | call {world next : World} {op : Op} (hinKernel : op.InKernel)
      (hstep : (orderly palloc).step world op next) : KernelStep palloc world (some op) next
  | store {world : World} (memory : Nat → UInt8) :
      KernelStep palloc world none { world with state := { world.state with memory } }

/-- Orderly runs of a kernel that makes all roots in its own context. -/
def kernelRuns (palloc : State → Nat → Option (List Nat)) : System World (Option Op) where
  init world := (orderly palloc).init world ∧ (world.state.contexts kernelContext).isSome
  step := KernelStep palloc

theorem KernelRoots.unmap (hrooted : KernelRoots state) (hcounted : Counted state held)
    (hheld : id ∈ held ∨ ∃ mapping lender, state.mappings id = some mapping ∧
      mapping.kind.lender? = some lender) (hcall : Pman.unmap state id = .ok next) :
    KernelRoots next := by
  rcases hheld with hmem | ⟨mapping, lender, hmapping, hlender⟩
  · obtain ⟨root, hroot, hunmap⟩ := hcounted.unmap_root hmem
    cases hunmap.symm.trans hcall
    exact hrooted.drop hroot
  · obtain ⟨root, hroot, _, hunmap⟩ := hcounted.unmap_loan hmapping hlender
    cases hunmap.symm.trans hcall
    exact (hrooted.drop hroot).remove mapping

theorem KernelRoots.prepareWrite (hrooted : KernelRoots state) (hcounted : Counted state held)
    (hcall : Pman.prepareWrite palloc state id = .ok (user, next)) : KernelRoots next := by
  obtain ⟨mapping, hmapping, ⟨_, _, rfl⟩ | ⟨lender, lenderId, start, removed, shared, hkind, hstart,
    hremaps⟩⟩ := prepareWrite_cases hcall
  · exact hrooted
  have hlender : mapping.kind.lender? = some lender := by rw [hkind]; rfl
  obtain ⟨hraised, hmapping'⟩ := hstart.counted hcounted hmapping hlender
  have hstartRooted : KernelRoots start := by
    cases hstart with
    | raise _ hroot => exact hrooted.recount hroot _
    | copy _ _ halloc memory =>
        obtain ⟨_, _, _, hcontext, _, _, hmappings, hcontexts⟩ := addAlloc_frame halloc
        have hallocated := hrooted.insert hcontext hmappings hcontexts
        exact ⟨hallocated.kernel, hallocated.kernelRoots⟩
  have hremoved := unmap_loan_counted hraised hmapping' hlender hremaps.remove
  have hremovedRooted := hstartRooted.unmap hraised (.inr ⟨mapping, lender, hmapping', hlender⟩)
    hremaps.remove
  exact (hremovedRooted.addLoan (fun _ => rfl) hremaps.share).unmap
    (addShared_counted hremoved hremaps.share) (.inl List.mem_cons_self) hremaps.drop

theorem step_kernelRoots (hworld : CountedWorld world) (hrooted : KernelRoots world.state)
    (hinKernel : op.InKernel) (hstep : Step palloc world op after) :
    KernelRoots after.state := by
  have hcounted := hworld.counted
  cases hstep with
  | newContext =>
      refine ⟨?_, hrooted.kernelRoots⟩
      by_cases heq : kernelContext = world.state.nextContext
      · simp [newContext, ← heq]
      · simpa [newContext, heq] using hrooted.kernel
  | addAlloc _ hreturn =>
      obtain rfl : _ = kernelContext := hinKernel
      obtain ⟨_, _, _, hcontext, _, _, hmappings, hcontexts⟩ := addAlloc_frame hreturn
      exact hrooted.insert hcontext hmappings hcontexts
  | addMap _ hreturn =>
      obtain rfl : _ = kernelContext := hinKernel
      obtain ⟨_, _, _, _, _, _, rfl, rfl⟩ := addMap_eq_ok hreturn
      exact hrooted.insert rfl rfl rfl
  | addBorrowed hreturn => exact hrooted.addLoan (fun _ => rfl) hreturn
  | addShared hreturn => exact hrooted.addLoan (fun _ => rfl) hreturn
  | prepareWrite hreturn => exact hrooted.prepareWrite hcounted hreturn
  | unmapRoot hcreated hreturn => exact hrooted.unmap hcounted (.inl hcreated) hreturn
  | @unmapLoan id lender _ hloan hreturn =>
      obtain ⟨mapping, hmapping, hlender⟩ := Option.bind_eq_some_iff.mp hloan
      exact hrooted.unmap hcounted (.inr ⟨mapping, lender, hmapping, hlender⟩) hreturn

/-- What holds between the calls of such a run. -/
structure KernelTidy (world : World) : Prop where
  tidy : Tidy world
  rooted : KernelRoots world.state

theorem KernelTidy.sound (htidy : KernelTidy world) : Sound world.created world.state :=
  ⟨htidy.tidy.countedWorld.counted, htidy.tidy.laidOut, htidy.tidy.mirrored, htidy.rooted⟩

theorem KernelTidy.init (hpalloc : Exact palloc) (hinit : (kernelRuns palloc).init world) :
    KernelTidy world := by
  obtain ⟨hinit, hkernel⟩ := hinit
  refine ⟨(tidy_inductive hpalloc).init world hinit, hkernel, ?_⟩
  intro id root hroot
  simp [hinit.1.1.mappings] at hroot

theorem KernelTidy.step {label : Option Op} (hpalloc : Exact palloc) (htidy : KernelTidy world)
    (hstep : KernelStep palloc world label after) : KernelTidy after := by
  obtain ⟨htidy, hrooted⟩ := htidy
  cases hstep with
  | call hinKernel hstep =>
      exact ⟨(tidy_inductive hpalloc).step _ _ _ htidy hstep,
        step_kernelRoots htidy.countedWorld hrooted hinKernel hstep.2⟩
  | store memory =>
      obtain ⟨⟨hcounted, hnodup⟩, ⟨windows, hlaid⟩, hmirrored⟩ := htidy
      exact ⟨⟨⟨hcounted.congr rfl rfl rfl rfl fun _ h => h, hnodup⟩,
        ⟨windows, hlaid.congr rfl rfl rfl⟩, hmirrored.congr rfl rfl⟩,
        ⟨hrooted.kernel, hrooted.kernelRoots⟩⟩

/-- The state between the calls of such a run. -/
theorem sound_of_reachable (hpalloc : Exact palloc)
    (hreach : (kernelRuns palloc).Reachable world) : Sound world.created world.state := by
  have hinductive : (kernelRuns palloc).Inductive KernelTidy :=
    ⟨fun _ hinit => .init hpalloc hinit, fun _ _ _ htidy hstep => htidy.step hpalloc hstep⟩
  exact (hreach.invariant hinductive).sound

end Runs

/-! ## One shared page -/

theorem kernelRuns_newContext {palloc : State → Nat → Option (List Nat)} :
    (kernelRuns palloc).Reachable ⟨(newContext emptyState).2, []⟩ := by
  have hinit : (kernelRuns palloc).Reachable ⟨emptyState, []⟩ := .init ⟨emptyState_orderly, rfl⟩
  have hcreate : KernelStep palloc ⟨emptyState, []⟩ (some .newContext)
      ⟨(newContext emptyState).2, []⟩ :=
    .call trivial ⟨⟨by simp [Op.request], by simp⟩, .newContext⟩
  exact hinit.step hcreate

section Examples

variable {palloc : State → Nat → Option (List Nat)} {state allocated lent after : State}
  {created : List Nat} {id user context vaddr sizePages size : Nat}
  {protection given : Protection} {target : Context}

/-- The kernel makes a root at a place of the manager's choice. -/
theorem kernelRuns_alloc (hreach : (kernelRuns palloc).Reachable ⟨state, created⟩)
    (hsize : size < 2 ^ 64)
    (halloc : addAlloc palloc state kernelContext protection 0 size = .ok (id, allocated)) :
    (kernelRuns palloc).Reachable ⟨allocated, id :: created⟩ := by
  have hstep : KernelStep palloc ⟨state, created⟩
      (some (.addAlloc kernelContext protection 0 size)) ⟨allocated, id :: created⟩ :=
    .call rfl ⟨⟨by simp [Op.request], by simp⟩, .addAlloc hsize halloc⟩
  exact hreach.step hstep

/-- The kernel makes a root, shares it at a vacant address, and lets go of it. -/
theorem kernelRuns_lend (hreach : (kernelRuns palloc).Reachable ⟨state, created⟩)
    (hsize : size < 2 ^ 64)
    (halloc : addAlloc palloc state kernelContext protection 0 size = .ok (id, allocated))
    (hcontext : allocated.contexts context = some target)
    (hshare : addShared allocated context given id vaddr = .ok (user, lent))
    (hrequest : (Op.addShared context given id vaddr).request allocated =
      some (context, vaddr, sizePages))
    (haligned : pageSize ∣ vaddr) (hvacant : Vacant target.regions vaddr sizePages)
    (hunmap : unmap lent id = .ok after) :
    (kernelRuns palloc).Reachable ⟨after, created⟩ := by
  have hsecond : KernelStep palloc ⟨allocated, id :: created⟩
      (some (.addShared context given id vaddr)) ⟨lent, id :: created⟩ := by
    refine .call trivial ⟨⟨?_, nofun⟩, .addShared hshare⟩
    intro context' vaddr' sizePages' hasked
    obtain ⟨rfl, rfl, rfl⟩ : context = context' ∧ vaddr = vaddr' ∧ sizePages = sizePages' := by
      simpa using hrequest.symm.trans hasked
    refine ⟨haligned, ?_⟩
    intro target' htarget
    cases hcontext.symm.trans htarget
    exact hvacant
  have hthird : KernelStep palloc ⟨lent, id :: created⟩ (some (.unmap id)) ⟨after, created⟩ := by
    have hstep : Step palloc ⟨lent, id :: created⟩ (.unmap id) ⟨after, (id :: created).erase id⟩ :=
      .unmapRoot List.mem_cons_self hunmap
    rw [List.erase_cons_head] at hstep
    exact .call trivial ⟨⟨by simp [Op.request], by simp⟩, hstep⟩
  exact ((kernelRuns_alloc hreach hsize halloc).step hsecond).step hthird

end Examples

/-- The kernel makes a page, shares it with the new context at 0x8000, and lets go of it. -/
def SharesPage (size : Nat) (protection : Protection) (after : State) : Prop :=
  ∃ allocated lent,
    addAlloc (pagesFrom 0x5000) (newContext emptyState).2 kernelContext ⟨true, false, false, false⟩ 0
      size = .ok (0, allocated) ∧
    allocated.contexts 1 = some ⟨Valloc.initial, fun _ => none, []⟩ ∧
    addShared allocated 1 protection 0 0x8000 = .ok (1, lent) ∧
    (Op.addShared 1 protection 0 0x8000).request allocated = some (1, 0x8000, 1) ∧
    unmap lent 0 = .ok after

theorem SharesPage.reachable {size : Nat} {protection : Protection} {after : State}
    (hshares : SharesPage size protection after) (hsize : size < 2 ^ 64) :
    (kernelRuns (pagesFrom 0x5000)).Reachable ⟨after, []⟩ := by
  obtain ⟨allocated, lent, halloc, hcontext, hshare, hrequest, hunmap⟩ := hshares
  exact kernelRuns_lend kernelRuns_newContext hsize halloc hcontext hshare hrequest (by decide)
    ⟨_, List.mem_cons_self, rfl, by decide, by decide⟩ hunmap

end PKernel.Pman
