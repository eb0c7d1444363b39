import PKernel.Paging.RootFrames

/-! # What the calls do to the loans

A process sees the loans of its context and the frames of the roots behind them.
Each call of the manager that a process meets changes little of that: it makes a
loan, takes one away, or gives the kernel a root that nothing is lent from. Each
returns where the addresses it needs are vacant.
-/

namespace PKernel.Pman

open Valloc (Vacant Apart)
open Library.Lookup

/-- The loans among the live mappings. -/
def State.loan? (state : State) (id : Nat) : Option Mapping :=
  (state.mappings id).filter fun mapping => !mapping.kind.isRoot

/-- The frame behind a page of a root. -/
def State.frameOf (state : State) (id page : Nat) : Option Nat :=
  (state.mappings id).bind fun root => root.frame? page

/-- The place in physical memory of a byte of a root. -/
def State.place (state : State) (id offset : Nat) : Nat :=
  (state.frameOf id (offset / pageSize)).getD 0 + offset % pageSize

/-- The roots that are left are roots that were there, perhaps with another count. -/
def RootsLeft (state next : State) : Prop :=
  ∀ id root, next.mappings id = some root → root.kind.isRoot = true →
    ∃ before references, state.mappings id = some before ∧
      root = before.withReferences references

/-- `Sound`, with the windows that are reserved named. -/
structure Settled (windows : Nat → List (Nat × Nat)) (held : List Nat) (state : State) : Prop where
  counted : Counted state held
  laidOut : LaidOut windows state
  mirrored : Mirrored state
  rooted : KernelRoots state

section Basics

variable {windows : Nat → List (Nat × Nat)} {state next : State} {held : List Nat}
  {id other context vaddr : Nat} {mapping loan root : Mapping}

theorem Settled.sound (hsettled : Settled windows held state) : Sound held state :=
  ⟨hsettled.counted, ⟨windows, hsettled.laidOut⟩, hsettled.mirrored, hsettled.rooted⟩

theorem Sound.settled (hsound : Sound held state) : ∃ windows, Settled windows held state := by
  obtain ⟨hcounted, ⟨windows, hlaid⟩, hmirrored, hrooted⟩ := hsound
  exact ⟨windows, hcounted, hlaid, hmirrored, hrooted⟩

/-- A store leaves everything but memory as it was. -/
theorem Settled.store (hsettled : Settled windows held state) (memory : Nat → UInt8) :
    Settled windows held { state with memory } :=
  ⟨hsettled.counted.congr rfl rfl rfl rfl fun _ h => h, hsettled.laidOut.congr rfl rfl rfl,
    hsettled.mirrored.congr rfl rfl, ⟨hsettled.rooted.kernel, hsettled.rooted.kernelRoots⟩⟩

theorem State.loan?_eq_some :
    state.loan? id = some loan ↔ state.mappings id = some loan ∧ loan.kind.isRoot = false := by
  simp [State.loan?, Option.filter_eq_some_iff]

theorem State.loan?_eq_none_of_isRoot (hroot : state.mappings id = some root)
    (hisRoot : root.kind.isRoot = true) : state.loan? id = none := by
  simp [State.loan?, hroot, Option.filter, hisRoot]

theorem Kind.exists_lender {kind : Kind} (hloan : kind.isRoot = false) :
    ∃ lender, kind.lender? = some lender := by
  cases kind with
  | alloc references paddrs => cases hloan
  | map references paddr => cases hloan
  | borrowed lender => exact ⟨lender, rfl⟩
  | shared lender => exact ⟨lender, rfl⟩

/-- A new mapping changes the loans in its own place only. -/
theorem State.loan?_update {new : Option Mapping}
    (hmappings : next.mappings = Function.update state.mappings id new) :
    next.loan? = Function.update state.loan? id
      (new.filter fun mapping => !mapping.kind.isRoot) := by
  funext other
  by_cases heq : other = id
  · subst heq
    simp [State.loan?, hmappings]
  · simp [State.loan?, hmappings, heq]

/-- A reference count is no part of a loan. -/
theorem State.loan?_recount (hroot : state.mappings id = some root)
    (hisRoot : root.kind.isRoot = true) {references : Nat}
    (hmappings : next.mappings =
      Function.update state.mappings id (some (root.withReferences references))) :
    next.loan? = state.loan? := by
  rw [State.loan?_update hmappings]
  have hnone := State.loan?_eq_none_of_isRoot hroot hisRoot
  have hfilter : ((some (root.withReferences references)).filter
      fun mapping => !mapping.kind.isRoot) = none := by
    simp [Option.filter, Mapping.withReferences, hisRoot]
  rw [hfilter, ← hnone, Function.update_eq_self]

/-- A loan has no frames of its own. -/
theorem Mapping.frame?_loan (hloan : loan.kind.isRoot = false) (page : Nat) :
    loan.frame? page = none := by
  unfold Mapping.frame?
  cases hkind : loan.kind with
  | alloc references paddrs => simp [hkind, Kind.isRoot] at hloan
  | map references paddr => simp [hkind, Kind.isRoot] at hloan
  | borrowed lender => rfl
  | shared lender => rfl

theorem State.place_eq (hroot : state.mappings id = some root) (offset : Nat) :
    state.place id offset = root.place offset := by
  simp [State.place, Mapping.place, State.frameOf, hroot]

/-! ### The roots that are left -/

theorem RootsLeft.of_recounted (hrecounted : Recounted state next) : RootsLeft state next :=
  fun id root hroot _ => hrecounted id root hroot

theorem RootsLeft.trans {between : State} (hfirst : RootsLeft state between)
    (hsecond : RootsLeft between next) : RootsLeft state next := by
  intro id root hroot hisRoot
  obtain ⟨middle, second, hmiddle, rfl⟩ := hsecond id root hroot hisRoot
  have hmiddleRoot : middle.kind.isRoot = true := by
    simpa [Mapping.withReferences] using hisRoot
  obtain ⟨before, first, hbefore, rfl⟩ := hfirst id middle hmiddle hmiddleRoot
  exact ⟨before, second, hbefore, Mapping.withReferences_idem before first second⟩

theorem RootsLeft.frameOf (hleft : RootsLeft state next) {page frame : Nat}
    (hframe : next.frameOf id page = some frame) : state.frameOf id page = some frame := by
  obtain ⟨root, hroot, hframe⟩ := Option.bind_eq_some_iff.mp hframe
  have hisRoot : root.kind.isRoot = true := by
    by_contra hloan
    rw [Mapping.frame?_loan (by simpa using hloan)] at hframe
    cases hframe
  obtain ⟨before, references, hbefore, rfl⟩ := hleft id root hroot hisRoot
  rw [Mapping.withReferences_frame?] at hframe
  rw [State.frameOf, hbefore, Option.bind_some, hframe]

/-- A root that is left was there before, with the same frames. -/
theorem RootsLeft.before (hleft : RootsLeft state next) (hroot : next.mappings id = some root)
    (hisRoot : root.kind.isRoot = true) :
    ∃ before, state.mappings id = some before ∧ before.kind.isRoot = true ∧
      before.sizePages = root.sizePages ∧ ∀ offset, next.place id offset = state.place id offset := by
  obtain ⟨before, references, hbefore, rfl⟩ := hleft id root hroot hisRoot
  refine ⟨before, hbefore, by simpa [Mapping.withReferences] using hisRoot, rfl, ?_⟩
  intro offset
  rw [State.place_eq hroot, State.place_eq hbefore, Mapping.place, Mapping.place,
    Mapping.withReferences_frame?]

/-! ### Between the calls -/

/-- What is behind the loans stays: the frames of the roots that are left, and the bytes in them. -/
structure Leaves (state next : State) : Prop where
  roots : RootsLeft state next
  memory : next.memory = state.memory
  present : ∀ context, (next.contexts context).isSome = (state.contexts context).isSome

theorem Leaves.trans {between : State} (hfirst : Leaves state between)
    (hsecond : Leaves between next) : Leaves state next :=
  ⟨hfirst.roots.trans hsecond.roots, hsecond.memory.trans hfirst.memory,
    fun context => (hsecond.present context).trans (hfirst.present context)⟩

/-- The lender of a loan is a live root. -/
theorem Settled.lender (hsettled : Settled windows held state)
    (hloan : state.loan? id = some loan) :
    ∃ lender root, loan.kind.lender? = some lender ∧ state.mappings lender = some root ∧
      root.kind.isRoot = true ∧ root.sizePages = loan.sizePages ∧
      state.root id = .ok lender := by
  obtain ⟨hmapping, hkind⟩ := State.loan?_eq_some.mp hloan
  obtain ⟨lender, hlender⟩ := Kind.exists_lender hkind
  obtain ⟨root, hroot, hisRoot⟩ := hsettled.counted.lender id loan lender hmapping hlender
  have hpositive : 0 < state.nextMapping := Nat.zero_lt_of_lt (hsettled.counted.id_lt hmapping)
  exact ⟨lender, root, hlender, hroot, hisRoot,
    hsettled.laidOut.loanSize id loan lender root hmapping hlender hroot,
    State.root_of_lender hpositive hmapping hlender hroot hisRoot⟩

/-- Outside of the kernel's context all mappings are loans. -/
theorem Settled.loan_of_user (hsettled : Settled windows held state)
    (hmapping : state.mappings id = some mapping) (huser : mapping.context ≠ kernelContext) :
    state.loan? id = some mapping := by
  refine State.loan?_eq_some.mpr ⟨hmapping, ?_⟩
  by_contra hroot
  exact huser (hsettled.rooted.kernelRoots id mapping hmapping (by simpa using hroot))

/-- A range without a mapping is vacant in a context without windows. -/
theorem Settled.vacant (hsettled : Settled windows held state) {target : Context}
    (htarget : state.contexts context = some target) (hwindows : windows context = [])
    {sizePages : Nat} (hpositive : 0 < sizePages)
    (hbound : vaddr + pageSize * sizePages ≤ Valloc.regionSize)
    (hapart : ∀ id mapping, state.mappings id = some mapping → mapping.context = context →
      Apart (vaddr, sizePages) mapping.range) :
    Vacant target.regions vaddr sizePages := by
  rw [(hsettled.laidOut.wellFormed _ target htarget).vacant_iff hpositive]
  refine ⟨hbound, ?_⟩
  intro range hrange
  have hperm := hsettled.laidOut.ranges _ target htarget
  rw [hwindows, List.append_nil] at hperm
  obtain ⟨id, hid, rfl⟩ := List.mem_map.mp (hperm.mem_iff.mp hrange)
  obtain ⟨mapping, hmapping, hhome⟩ := (hsettled.laidOut.listed _ target htarget id).mp hid
  have hsame : state.range id = mapping.range := by simp [State.range, hmapping]
  rw [hsame]
  exact hapart id mapping hmapping hhome

/-- A vacant range of an aligned address is granted. -/
theorem placeVaddr_returns {regions : List Valloc.Region} {size : Nat}
    (hwell : Valloc.WellFormed regions) (hsize : size < 2 ^ 64)
    (hpositive : 0 < divUp size pageSize) (haligned : pageSize ∣ vaddr)
    (hvacant : Vacant regions vaddr (divUp size pageSize)) :
    ∃ place, placeVaddr regions vaddr size false = .ok place := by
  refine Fits.returns hwell hsize hpositive ?_
  by_cases hzero : vaddr = 0
  · obtain ⟨region, hregion, hfree, hlow, hhigh⟩ := hvacant
    refine .inl ⟨hzero, region, hregion, hfree, ?_⟩
    have hscaled : pageSize * divUp size pageSize ≤ pageSize * region.sizePages := by omega
    exact Nat.le_of_mul_le_mul_left hscaled (by unfold pageSize; omega)
  · exact .inr ⟨hzero, haligned, hvacant⟩

end Basics

/-! ## A new loan -/

/-- One loan more. -/
structure Lends (state : State) (id : Nat) (loan : Mapping) (next : State) : Prop where
  fresh : state.loan? id = none
  loans : next.loan? = Function.update state.loan? id (some loan)
  leaves : Leaves state next

section Lend

variable {windows : Nat → List (Nat × Nat)} {state next : State} {held : List Nat}
  {id context rootId vaddr : Nat} {root : Mapping} {protection : Protection}
  {kind : Nat → Kind} {write : Bool} {target : Context}

/-- What a loan of a live root changes, wherever it goes. -/
theorem addLoan_lends (hkind : ∀ lender, (kind lender).lender? = some lender)
    (hcounted : Counted state held) (hroot : state.mappings rootId = some root)
    (hisRoot : root.kind.isRoot = true)
    (hcall : addLoan kind write state context protection rootId vaddr = .ok (id, next)) :
    ∃ start, Lends state id ⟨context, protection, start, root.sizePages, kind rootId⟩ next ∧
      next.mappings rootId = some (root.withReferences (root.kind.references + 1)) ∧
      ∃ target regions, state.contexts context = some target ∧
        placeVaddr target.regions vaddr (u64 (root.sizePages * pageSize)) false =
          .ok (start, regions) := by
  obtain ⟨rootId', found, source, target, ⟨start, regions⟩, hrootId, hfound, _, hsource, htarget,
    hplace, rfl, rfl⟩ := addLoan_eq_ok hcall
  obtain rfl : rootId = rootId' :=
    Except.ok.inj ((State.root_of_isRoot hroot hisRoot).symm.trans hrootId)
  obtain rfl : root = found := Option.some.inj (hroot.symm.trans hfound)
  obtain rfl : root = source := Option.some.inj (hroot.symm.trans hsource)
  have hloan := Kind.isRoot_eq_false (hkind rootId)
  have hne : rootId ≠ state.nextMapping := Nat.ne_of_lt (hcounted.id_lt hroot)
  refine ⟨start, ⟨?_, ?_, ?_, rfl, ?_⟩, ?_, target, regions, htarget, hplace⟩
  · simp [State.loan?, hcounted.fresh _ (Nat.le_refl _)]
  · have hraised : (state.setMapping rootId
        (root.withReferences (root.kind.references + 1))).loan? = state.loan? :=
      State.loan?_recount hroot hisRoot rfl
    refine (State.loan?_update rfl).trans ?_
    rw [hraised]
    simp [Option.filter, hloan, State.setMapping]
  · intro other found hfound hfoundRoot
    rcases State.link_mapping_eq_some.mp hfound with ⟨_, rfl⟩ | ⟨_, hfound⟩
    · simp [hloan] at hfoundRoot
    · exact Recounted.setMapping hroot _ other found hfound
  · intro other
    by_cases hother : other = context
    · simp [link, hother, htarget]
    · simp [link, placed, hother, State.setMapping]
  · simp [link, State.setMapping, hne]

theorem Settled.addLoan_settled (hsettled : Settled windows held state)
    (hkind : ∀ lender, (kind lender).lender? = some lender)
    (hwrite : ∀ lender vaddr sizePages,
      Mapping.writes ⟨context, protection, vaddr, sizePages, kind lender⟩ = write)
    (hroot : state.mappings rootId = some root)
    (hplaceable : ∀ target, state.contexts context = some target →
      Placeable target.regions vaddr root.sizePages false)
    (hcall : Pman.addLoan kind write state context protection rootId vaddr = .ok (id, next)) :
    Settled windows held next := by
  obtain ⟨hcounted, hlaid, hmirrored, hrooted⟩ := hsettled
  have hplaceable : ∀ target source, state.contexts context = some target →
      state.mappings rootId = some source →
      Placeable target.regions vaddr source.sizePages false := by
    intro target source htarget hsource
    cases hroot.symm.trans hsource
    exact hplaceable target htarget
  exact ⟨addLoan_counted hkind hcounted hcall,
    addLoan_laidOut hkind hcounted hlaid hplaceable hcall,
    addLoan_mirrored hkind hwrite hmirrored hcounted hlaid hplaceable hcall,
    hrooted.addLoan hkind hcall⟩

/-- A root can be lent wherever there is room, and the loan goes there. -/
theorem Settled.addLoan (hsettled : Settled windows held state) (protection : Protection)
    (kind : Nat → Kind) (write : Bool) (hkind : ∀ lender, (kind lender).lender? = some lender)
    (hwrite : ∀ lender vaddr sizePages,
      Mapping.writes ⟨context, protection, vaddr, sizePages, kind lender⟩ = write)
    (hroot : state.mappings rootId = some root) (hisRoot : root.kind.isRoot = true)
    (htarget : state.contexts context = some target) (haligned : pageSize ∣ vaddr)
    (hvacant : Vacant target.regions vaddr root.sizePages) :
    ∃ id next, Pman.addLoan kind write state context protection rootId vaddr = .ok (id, next) ∧
      Settled windows held next ∧
      Lends state id ⟨context, protection, vaddr, root.sizePages, kind rootId⟩ next ∧
      next.mappings rootId = some (root.withReferences (root.kind.references + 1)) := by
  have hsettled' := hsettled
  obtain ⟨hcounted, hlaid, hmirrored, hrooted⟩ := hsettled
  obtain ⟨home, hhome⟩ := Option.isSome_iff_exists.mp (hcounted.context rootId root hroot)
  obtain ⟨hpositive, hbound⟩ := hlaid.sizePages_bounds hroot hhome
  have hpages := divUp_pages hbound
  have hwell := hlaid.wellFormed _ target htarget
  obtain ⟨place, hplace⟩ := placeVaddr_returns hwell (u64_lt (root.sizePages * pageSize))
    (by rwa [hpages]) haligned (by rwa [hpages])
  have hnonempty : root.kind ≠ .alloc root.kind.references [] := by
    intro hkind
    exact hpositive.ne (hmirrored.whole rootId root hroot _ _ hkind)
  have hspec := placeVaddr_spec hwell (u64_lt _)
    (by rw [hpages]; exact ⟨hpositive, .inr ⟨haligned, hvacant⟩⟩) hplace
  rw [hpages] at hspec
  obtain ⟨⟨id, next⟩, hcall⟩ := addLoan_returns protection kind write hroot hisRoot hnonempty
    htarget hplace (hmirrored.vacantAt htarget hspec.1 hspec.2 (hmirrored.whole rootId root hroot))
  have hplaceable : ∀ target, state.contexts context = some target →
      Placeable target.regions vaddr root.sizePages false := by
    intro target' htarget'
    cases htarget.symm.trans htarget'
    exact ⟨hpositive, .inr ⟨haligned, hvacant⟩⟩
  obtain ⟨start, hlends, hlent, target', regions, htarget', hplaced⟩ :=
    addLoan_lends hkind hcounted hroot hisRoot hcall
  cases htarget.symm.trans htarget'
  obtain rfl : start = vaddr :=
    placeVaddr_vacant hwell (u64_lt _) (by rwa [hpages]) haligned (by rwa [hpages]) hplaced
  exact ⟨id, next, hcall, hsettled'.addLoan_settled hkind hwrite hroot hplaceable hcall, hlends, hlent⟩

end Lend

/-! ## A loan less -/

section Unlend

variable {windows : Nat → List (Nat × Nat)} {state next : State} {held : List Nat}
  {id context lender : Nat} {loan root : Mapping} {target : Context}

/-- Dropping a reference to a root changes no loan. -/
theorem State.drop_loan? (hroot : state.mappings id = some root)
    (hisRoot : root.kind.isRoot = true) : (state.drop id root).loan? = state.loan? := by
  have hnone := State.loan?_eq_none_of_isRoot hroot hisRoot
  rw [State.loan?_update (State.drop_mappings root)]
  split
  next => rw [Option.filter_none, ← hnone, Function.update_eq_self]
  next =>
    have hfilter : ((some (root.withReferences (root.kind.references - 1))).filter
        fun mapping => !mapping.kind.isRoot) = none := by
      simp [Option.filter, Mapping.withReferences, hisRoot]
    rw [hfilter, ← hnone, Function.update_eq_self]

/-- Unmapping a loan of a process, which makes its range vacant. A root with
another reference stays. -/
theorem Settled.unmapLoan (hsettled : Settled windows held state)
    (hloan : state.loan? id = some loan) (hlender : loan.kind.lender? = some lender)
    (hroot : state.mappings lender = some root) :
    ∃ next, unmap state id = .ok next ∧ Settled windows held next ∧
      next.loan? = Function.update state.loan? id none ∧ Leaves state next ∧ pageSize ∣ loan.vaddr ∧
      (∀ target, next.contexts loan.context = some target →
        Vacant target.regions loan.vaddr loan.sizePages) ∧
      (1 < root.kind.references →
        next.mappings lender = some (root.withReferences (root.kind.references - 1))) := by
  obtain ⟨hcounted, hlaid, hmirrored, hrooted⟩ := hsettled
  obtain ⟨hmapping, hkind⟩ := State.loan?_eq_some.mp hloan
  obtain ⟨found, hfound, hisRoot, hunmap⟩ := hcounted.unmap_loan hmapping hlender
  cases hroot.symm.trans hfound
  obtain ⟨hlaidNext, haligned, hvacant⟩ := unmap_loan_laidOut hcounted hlaid hmapping hlender hunmap
  have hne : lender ≠ id := by
    rintro rfl
    cases hmapping.symm.trans hroot
    simp [hkind] at hisRoot
  refine ⟨_, hunmap, ⟨unmap_loan_counted hcounted hmapping hlender hunmap, hlaidNext,
    unmap_loan_mirrored hmirrored hcounted hlaid hmapping hlender hunmap,
    (hrooted.drop hroot).remove loan⟩, ?_, ⟨?_, State.drop_memory root, ?_⟩, haligned, hvacant, ?_⟩
  · rw [State.loan?_update (State.remove_mappings loan), State.drop_loan? hroot hisRoot]
    rfl
  · exact .of_recounted (unmap_recounted hunmap)
  · intro context
    rw [State.remove_isSome, State.drop_isSome]
  · intro hmore
    rw [State.remove_mappings, Function.update_of_ne hne, State.drop_mappings,
      Function.update_self, if_neg (by omega)]

end Unlend

/-! ## A reference less -/

/-- The kernel lets go of a root. The loans are as they were. -/
theorem Settled.release {windows : Nat → List (Nat × Nat)} {state : State} {held : List Nat}
    {rootId : Nat} (hsettled : Settled windows (rootId :: held) state) :
    ∃ next, unmap state rootId = .ok next ∧ Settled windows held next ∧
      next.loan? = state.loan? ∧ Leaves state next := by
  obtain ⟨hcounted, hlaid, hmirrored, hrooted⟩ := hsettled
  obtain ⟨root, hroot, hunmap⟩ := hcounted.unmap_root List.mem_cons_self
  obtain ⟨found, hfound, hisRoot⟩ := hcounted.held rootId List.mem_cons_self
  cases hroot.symm.trans hfound
  refine ⟨_, hunmap, ⟨?_, unmap_root_laidOut hcounted hlaid List.mem_cons_self hunmap,
    unmap_root_mirrored hmirrored hcounted hlaid List.mem_cons_self hunmap, hrooted.drop hroot⟩,
    State.drop_loan? hroot hisRoot, .of_recounted (unmap_recounted hunmap), State.drop_memory root,
    fun context => by rw [State.drop_isSome]⟩
  simpa using unmap_root_counted hcounted List.mem_cons_self hunmap

end PKernel.Pman
