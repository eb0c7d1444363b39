import PKernel.Paging.KernelViews
import PKernel.Paging.TeardownRun

/-! # The frames of a root

As long as the pages that are handed out together are apart, the frames of a root are, so that
each byte of a mapping has its own place in physical memory. No call of the manager gives a
mapping other frames: it makes a mapping, changes a reference count, or takes a mapping away.
-/

namespace PKernel.Pman

open Library.Transition

/-- The pages at two physical addresses have no byte in common. -/
def PagesApart (first second : Nat) : Prop :=
  first + pageSize ≤ second ∨ second + pageSize ≤ first

/-- The pages that the physical allocator hands out together are apart. -/
def Spread (palloc : State → Nat → Option (List Nat)) : Prop :=
  ∀ state count paddrs, palloc state count = some paddrs → paddrs.Pairwise PagesApart

/-- The frames of a root are apart. -/
def Mapping.Spread (root : Mapping) : Prop :=
  ∀ i j first second, i ≠ j → root.frame? i = some first → root.frame? j = some second →
    PagesApart first second

/-- Each mapping has a property that does not depend on reference counts. -/
structure EachMapping (good : Mapping → Prop) (state : State) : Prop where
  all : ∀ id mapping, state.mappings id = some mapping → good mapping
  counts : ∀ mapping references, good mapping → good (mapping.withReferences references)
  loans : ∀ mapping : Mapping, mapping.kind.isRoot = false → good mapping

/-- Mappings have gone, and others have another reference count. -/
def Recounted (state next : State) : Prop :=
  ∀ id mapping, next.mappings id = some mapping →
    ∃ before references, state.mappings id = some before ∧
      mapping = before.withReferences references

section Recounted

variable {state between next : State} {context id fuel : Nat} {mapping : Mapping}

theorem Mapping.withReferences_idem (mapping : Mapping) (first second : Nat) :
    (mapping.withReferences first).withReferences second = mapping.withReferences second := by
  simp [withReferences]

theorem Mapping.exists_withReferences (mapping : Mapping) :
    ∃ references, mapping = mapping.withReferences references := by
  refine ⟨mapping.kind.references, ?_⟩
  cases hisRoot : mapping.kind.isRoot with
  | true => exact (withReferences_self hisRoot).symm
  | false => exact (withReferences_loan hisRoot _).symm

theorem Recounted.of_sub (hsub : ∀ id mapping, next.mappings id = some mapping →
    state.mappings id = some mapping) : Recounted state next := by
  intro id mapping hmapping
  obtain ⟨references, hreferences⟩ := mapping.exists_withReferences
  exact ⟨mapping, references, hsub id mapping hmapping, hreferences⟩

theorem Recounted.refl (state : State) : Recounted state state := .of_sub fun _ _ h => h

theorem Recounted.trans (hfirst : Recounted state between) (hsecond : Recounted between next) :
    Recounted state next := by
  intro id mapping hmapping
  obtain ⟨middle, second, hmiddle, rfl⟩ := hsecond id mapping hmapping
  obtain ⟨before, first, hbefore, rfl⟩ := hfirst id middle hmiddle
  exact ⟨before, second, hbefore, Mapping.withReferences_idem before first second⟩

theorem Recounted.setMapping (hmapping : state.mappings id = some mapping) (references : Nat) :
    Recounted state (state.setMapping id (mapping.withReferences references)) := by
  intro other found hfound
  by_cases heq : other = id
  · subst heq
    obtain rfl : mapping.withReferences references = found := by
      simpa [State.setMapping] using hfound
    exact ⟨mapping, references, hmapping, rfl⟩
  · have hsame : state.mappings other = some found := by simpa [State.setMapping, heq] using hfound
    obtain ⟨references', hreferences⟩ := found.exists_withReferences
    exact ⟨found, references', hsame, hreferences⟩

theorem unlink_recounted (hcall : unlink state id mapping = .ok next) : Recounted state next := by
  obtain ⟨_, _, hcall⟩ := bind_eq_ok.mp hcall
  cases hcall
  exact .refl state

theorem discard_recounted (hcall : discard state id mapping = .ok next) : Recounted state next := by
  obtain ⟨_, _, hcall⟩ := bind_eq_ok.mp hcall
  cases hcall
  refine .of_sub fun other found hfound => ?_
  by_cases heq : other = id
  · simp [heq] at hfound
  · simpa [heq, State.setContext] using hfound

theorem dropReference_recounted (hmapping : state.mappings id = some mapping)
    (hcall : dropReference state id mapping = .ok next) : Recounted state next := by
  unfold dropReference at hcall
  by_cases hlast : mapping.kind.references - 1 = 0
  · simp only [hlast, if_true] at hcall
    obtain ⟨unlinked, hunlink, hcall⟩ := bind_eq_ok.mp hcall
    obtain ⟨discarded, hdiscard, hcall⟩ := bind_eq_ok.mp hcall
    cases hcall
    have hdiscarded := (unlink_recounted hunlink).trans (discard_recounted hdiscard)
    exact hdiscarded.trans (.of_sub fun _ _ h => h)
  · simp only [hlast, if_false, pure_eq_ok] at hcall
    cases hcall
    exact .setMapping hmapping _

theorem unmapWith_recounted (hcall : unmapWith fuel state id = .ok next) :
    Recounted state next := by
  induction fuel generalizing state next id with
  | zero => cases hcall
  | succ fuel ih =>
      unfold unmapWith at hcall
      obtain ⟨mapping, hmapping, hcall⟩ := bind_eq_ok.mp hcall
      cases hlender : mapping.kind.lender? with
      | none =>
          simp only [hlender] at hcall
          exact dropReference_recounted (State.mapping_eq_ok.mp hmapping) hcall
      | some lender =>
          simp only [hlender] at hcall
          obtain ⟨unlinked, hunlink, hcall⟩ := bind_eq_ok.mp hcall
          obtain ⟨dropped, hdrop, hcall⟩ := bind_eq_ok.mp hcall
          exact ((unlink_recounted hunlink).trans (ih hdrop)).trans (discard_recounted hcall)

theorem unmap_recounted (hcall : unmap state id = .ok next) : Recounted state next :=
  unmapWith_recounted hcall

theorem unmapAll_recounted (hcall : unmapAll context fuel state = .ok next) :
    Recounted state next := by
  induction fuel generalizing state with
  | zero => cases hcall
  | succ fuel ih =>
      unfold unmapAll at hcall
      obtain ⟨target, _, hcall⟩ := bind_eq_ok.mp hcall
      cases hlist : target.mappings with
      | nil =>
          simp only [hlist, pure_eq_ok, Except.ok.injEq] at hcall
          exact hcall ▸ .refl state
      | cons id rest =>
          simp only [hlist] at hcall
          obtain ⟨between, hunmap, hcall⟩ := bind_eq_ok.mp hcall
          exact (unmap_recounted hunmap).trans (ih hcall)

end Recounted

/-! ## Properties of all mappings -/

namespace EachMapping

variable {palloc : State → Nat → Option (List Nat)} {good : Mapping → Prop} {state next : State}
  {context id lender vaddr size user : Nat} {protection : Protection}

theorem recounted (hgood : EachMapping good state) (hrecounted : Recounted state next) :
    EachMapping good next := by
  refine ⟨?_, hgood.counts, hgood.loans⟩
  intro id mapping hmapping
  obtain ⟨before, references, hbefore, rfl⟩ := hrecounted id mapping hmapping
  exact hgood.counts before references (hgood.all id before hbefore)

/-- A new mapping. -/
theorem insert (hgood : EachMapping good state) {mapping : Mapping} (hnew : good mapping)
    (hmappings : next.mappings = Function.update state.mappings id (some mapping)) :
    EachMapping good next := by
  refine ⟨?_, hgood.counts, hgood.loans⟩
  intro other found hfound
  rw [hmappings] at hfound
  by_cases heq : other = id
  · rw [heq, Function.update_self] at hfound
    cases hfound
    exact hnew
  · rw [Function.update_of_ne heq] at hfound
    exact hgood.all other found hfound

theorem addAlloc (hgood : EachMapping good state)
    (hpages : ∀ count paddrs vaddr, palloc state count = some paddrs →
      good ⟨context, protection, vaddr, count, .alloc 1 paddrs⟩)
    (hcall : Pman.addAlloc palloc state context protection vaddr size = .ok (id, next)) :
    EachMapping good next := by
  obtain ⟨target, place, paddrs, _, _, _, hpaddrs, rfl, rfl⟩ := addAlloc_eq_ok hcall
  exact hgood.insert (hpages _ _ place.1 hpaddrs) rfl

theorem addLoan {kind : Nat → Kind} {write : Bool} (hkind : ∀ lender, (kind lender).isRoot = false)
    (hgood : EachMapping good state)
    (hcall : Pman.addLoan kind write state context protection lender vaddr = .ok (id, next)) :
    EachMapping good next := by
  obtain ⟨rootId, root, _, loan, _, _, hroot, _, hloan, hmappings, _⟩ := addLoan_frame hcall
  have hraised := hgood.recounted (.setMapping hroot (root.kind.references + 1))
  exact hraised.insert (hgood.loans loan (hloan ▸ hkind rootId)) hmappings

theorem prepareWrite (hgood : EachMapping good state)
    (hpages : ∀ count paddrs vaddr, palloc state count = some paddrs →
      good ⟨kernelContext, ⟨true, false, false, false⟩, vaddr, count, .alloc 1 paddrs⟩)
    (hcall : Pman.prepareWrite palloc state id = .ok (user, next)) : EachMapping good next := by
  obtain ⟨mapping, _, ⟨_, _, rfl⟩ | ⟨lender, lenderId, start, removed, shared, _, hstart,
    hremaps⟩⟩ := prepareWrite_cases hcall
  · exact hgood
  have hraised : EachMapping good start := by
    cases hstart with
    | raise _ hroot => exact hgood.recounted (.setMapping hroot _)
    | copy _ _ halloc memory => exact (hgood.addAlloc hpages halloc).recounted (.of_sub fun _ _ h => h)
  have hremoved := hraised.recounted (unmap_recounted hremaps.remove)
  exact (hremoved.addLoan (fun _ => rfl) hremaps.share).recounted (unmap_recounted hremaps.drop)

end EachMapping

/-! ## Frames that are apart -/

section Spread

variable {palloc : State → Nat → Option (List Nat)} {world next : World}

theorem Mapping.Spread.alloc {context vaddr count references : Nat} {protection : Protection}
    {paddrs : List Nat} (hapart : paddrs.Pairwise PagesApart) :
    Mapping.Spread ⟨context, protection, vaddr, count, .alloc references paddrs⟩ := by
  intro i j first second hne hfirst hsecond
  obtain ⟨hi, hfirst⟩ := List.getElem?_eq_some_iff.mp hfirst
  obtain ⟨hj, hsecond⟩ := List.getElem?_eq_some_iff.mp hsecond
  have hpairs := List.pairwise_iff_getElem.mp hapart
  rcases Nat.lt_or_gt_of_ne hne with hlt | hlt
  · have := hpairs i j hi hj hlt
    rwa [hfirst, hsecond] at this
  · have := hpairs j i hj hi hlt
    rw [hfirst, hsecond] at this
    exact this.symm

theorem Mapping.Spread.map {context vaddr count references base : Nat} {protection : Protection} :
    Mapping.Spread ⟨context, protection, vaddr, count, .map references base⟩ := by
  intro i j first second hne hfirst hsecond
  simp only [Mapping.frame?, Option.ite_none_right_eq_some, Option.some.injEq] at hfirst hsecond
  obtain ⟨_, rfl⟩ := hfirst
  obtain ⟨_, rfl⟩ := hsecond
  unfold PagesApart pageSize
  omega

theorem Mapping.Spread.withReferences {root : Mapping} (hspread : root.Spread) (references : Nat) :
    (root.withReferences references).Spread := by
  intro i j first second hne hfirst hsecond
  rw [Mapping.withReferences_frame?] at hfirst hsecond
  exact hspread i j first second hne hfirst hsecond

/-- A loan has no frames of its own. -/
theorem Mapping.Spread.loan {loan : Mapping} (hloan : loan.kind.isRoot = false) : loan.Spread := by
  intro i j first second _ hfirst
  cases hkind : loan.kind with
  | alloc references paddrs => simp [hkind, Kind.isRoot] at hloan
  | map references paddr => simp [hkind, Kind.isRoot] at hloan
  | borrowed lender => simp [Mapping.frame?, hkind] at hfirst
  | shared lender => simp [Mapping.frame?, hkind] at hfirst

theorem step_spread (hspread : Spread palloc) {op : Op}
    (hgood : EachMapping Mapping.Spread world.state) (hstep : Step palloc world op next) :
    EachMapping Mapping.Spread next.state := by
  cases hstep with
  | newContext => exact hgood.recounted (.of_sub fun _ _ h => h)
  | addAlloc _ hreturn =>
      exact hgood.addAlloc (fun _ _ _ hpaddrs => .alloc (hspread _ _ _ hpaddrs)) hreturn
  | addMap _ hreturn =>
      obtain ⟨_, _, _, _, _, _, rfl, rfl⟩ := addMap_eq_ok hreturn
      exact hgood.insert .map rfl
  | addBorrowed hreturn => exact hgood.addLoan (fun _ => rfl) hreturn
  | addShared hreturn => exact hgood.addLoan (fun _ => rfl) hreturn
  | prepareWrite hreturn =>
      exact hgood.prepareWrite (fun _ _ _ hpaddrs => .alloc (hspread _ _ _ hpaddrs)) hreturn
  | unmapRoot _ hreturn => exact hgood.recounted (unmap_recounted hreturn)
  | unmapLoan _ hreturn => exact hgood.recounted (unmap_recounted hreturn)

/-- In every state of every run the frames of each root are apart. -/
theorem spread_of_lifetimes (hspread : Spread palloc)
    (hreach : (lifetimes palloc).Reachable world) : EachMapping Mapping.Spread world.state := by
  have hinductive : (lifetimes palloc).Inductive fun world =>
      EachMapping Mapping.Spread world.state := ⟨?_, ?_⟩
  · exact hreach.invariant hinductive
  · rintro before ⟨hinit, _⟩
    refine ⟨?_, fun _ references hgood => hgood.withReferences references,
      fun _ hloan => .loan hloan⟩
    intro id mapping hmapping
    simp [hinit.1.1.mappings] at hmapping
  · intro before label after hgood hstep
    cases hstep with
    | kernel hstep =>
        cases hstep with
        | call _ hstep => exact step_spread hspread hgood hstep.2
        | store memory => exact hgood.recounted (.of_sub fun _ _ h => h)
    | free _ hreturn =>
        obtain ⟨last, hloop, hreturn⟩ := bind_eq_ok.mp hreturn
        cases hreturn
        have hlast := unmapAll_recounted hloop
        exact hgood.recounted (hlast.trans (.of_sub fun _ _ h => h))

end Spread

/-! ## Bytes -/

/-- The byte that a program reads at an address. -/
def loadUser (state : State) (context vaddr : Nat) : Option UInt8 := do
  let target ← state.contexts context
  let leaf ← target.table (vaddr / pageSize)
  if leaf.flags.userSuper then some (state.memory (leaf.paddr + vaddr % pageSize)) else none

/-- The number in the bytes from an address on, as a program reads them. -/
def loadUserBytes (state : State) (context vaddr : Nat) : Nat → Option Nat
  | 0 => some 0
  | count + 1 => do
      let low ← loadUser state context vaddr
      let high ← loadUserBytes state context (vaddr + 1) count
      return low.toNat + 256 * high

/-- The words from an address on. -/
def loadUserWords (state : State) (context vaddr : Nat) : Nat → Option (List Nat)
  | 0 => some []
  | count + 1 => do
      let word ← loadUserBytes state context vaddr 8
      let words ← loadUserWords state context (vaddr + 8) count
      return word :: words

section Bytes

variable {state : State} {held : List Nat} {context id rootId : Nat} {mapping root : Mapping}
  {offset : Nat}

/-- Every byte of a root is in one of its frames. -/
theorem Sound.frame_place (hsound : Sound held state) (hroot : state.mappings rootId = some root)
    (hisRoot : root.kind.isRoot = true) (hoffset : offset < root.sizePages * pageSize) :
    ∃ frame, root.frame? (offset / pageSize) = some frame ∧
      root.place offset = frame + offset % pageSize := by
  have hpage : offset / pageSize < root.sizePages := by
    unfold pageSize at *
    omega
  obtain ⟨frame, hframe⟩ := Option.isSome_iff_exists.mp
    ((hsound.mirrored.whole rootId root hroot).frame_isSome hisRoot hpage)
  exact ⟨frame, hframe, by rw [Mapping.place, hframe, Option.getD_some]⟩

/-- Two bytes of a root are at two places. -/
theorem Sound.place_injective (hsound : Sound held state) (hspread : root.Spread)
    (hroot : state.mappings rootId = some root) (hisRoot : root.kind.isRoot = true)
    {first second : Nat} (hfirst : first < root.sizePages * pageSize)
    (hsecond : second < root.sizePages * pageSize)
    (hsame : root.place first = root.place second) : first = second := by
  obtain ⟨frame, hframe, hplace⟩ := hsound.frame_place hroot hisRoot hfirst
  obtain ⟨frame', hframe', hplace'⟩ := hsound.frame_place hroot hisRoot hsecond
  by_cases hpage : first / pageSize = second / pageSize
  · rw [hpage] at hframe
    cases hframe.symm.trans hframe'
    unfold pageSize at *
    omega
  · have hapart := hspread _ _ frame frame' hpage hframe hframe'
    unfold PagesApart pageSize at *
    omega

/-- The kernel reaches the bytes of a root at the addresses of the root. -/
theorem Sound.reached (hsound : Sound held state) (hspread : root.Spread)
    (hroot : state.mappings rootId = some root) (hisRoot : root.kind.isRoot = true)
    {start count : Nat} (hfits : start + count ≤ root.sizePages * pageSize) :
    Reached state (root.vaddr + start) count fun i => root.place (start + i) := by
  obtain ⟨kernel, hkernel⟩ := Option.isSome_iff_exists.mp hsound.rooted.kernel
  have hhome := hsound.rooted.kernelRoots rootId root hroot hisRoot
  have hend := hsound.range_le hroot
  constructor
  case address =>
    intro i hi
    have haddress : u64 (root.vaddr + start + i) = root.vaddr + (start + i) := by
      unfold u64
      omega
    rw [kernelAddress, State.context_eq_ok.mpr hkernel, ok_bind, haddress,
      hsound.translate_mapping hroot (hhome ▸ hkernel) (State.root_of_isRoot hroot hisRoot) hroot
        (by omega)]
    rfl
  case apart =>
    intro i hi j hj hsame
    have := hsound.place_injective hspread hroot hisRoot (by omega) (by omega) hsame
    omega

/-- A program reads at an offset into a mapping what is at that offset in the root. -/
theorem Sound.loadUser_eq (hsound : Sound held state) (hcontext : mapping.context ≠ kernelContext)
    (hmapping : state.mappings id = some mapping) (hrootId : state.root id = .ok rootId)
    (hroot : state.mappings rootId = some root)
    (hoffset : offset < mapping.sizePages * pageSize) :
    loadUser state mapping.context (mapping.vaddr + offset) =
      some (state.memory (root.place offset)) := by
  obtain ⟨target, htarget⟩ :=
    Option.isSome_iff_exists.mp (hsound.counted.context id mapping hmapping)
  obtain ⟨frame, hleaf, hplace⟩ := hsound.leaf hmapping htarget hrootId hroot hoffset
  have huser : mapping.flags.userSuper = true := by
    simpa [Mapping.flags, flagsOf] using hcontext
  simp only [loadUser, htarget, hleaf, Option.bind_eq_bind, Option.bind_some, huser, if_true,
    hplace]

theorem loadUserBytes_eq {bytes : Nat → UInt8} {vaddr i width : Nat}
    (hbytes : ∀ j < width, loadUser state context (vaddr + j) = some (bytes (i + j))) :
    loadUserBytes state context vaddr width = some (Library.ByteMemory.loadLE bytes i width) := by
  induction width generalizing vaddr i with
  | zero => rfl
  | succ width ih =>
      have hlow := hbytes 0 (Nat.zero_lt_succ _)
      have hhigh := @ih (vaddr + 1) (i + 1) fun j hj => by
        have hnext := hbytes (j + 1) (Nat.succ_lt_succ hj)
        rwa [Nat.add_comm j, ← Nat.add_assoc, ← Nat.add_assoc] at hnext
      rw [Nat.add_zero, Nat.add_zero] at hlow
      rw [loadUserBytes, hlow, hhigh]
      rfl

/-- Words are read as their bytes are. -/
theorem loadUserWords_eq {bytes : Nat → UInt8} {vaddr i count : Nat}
    (hbytes : ∀ j < 8 * count, loadUser state context (vaddr + j) = some (bytes (i + j))) :
    loadUserWords state context vaddr count = some (wordsAt bytes i count) := by
  induction count generalizing vaddr i with
  | zero => rfl
  | succ count ih =>
      have hword : loadUserBytes state context vaddr 8 = _ :=
        loadUserBytes_eq fun j hj => hbytes j (by omega)
      have hwords := @ih (vaddr + 8) (i + 8) fun j hj => by
        have hnext := hbytes (8 + j) (by omega)
        rwa [← Nat.add_assoc, ← Nat.add_assoc] at hnext
      rw [loadUserWords, hword, hwords]
      rfl

end Bytes

end PKernel.Pman
