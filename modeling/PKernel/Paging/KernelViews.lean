import PKernel.Paging.KernelMemory
import PKernel.Paging.Resizing

/-! # Two views of one byte

A process reaches its memory through its own page table, the kernel through the root behind a
mapping and the page table of its own context. In every state of a run that asks for free and
aligned addresses the two ways end at the same physical byte.
-/

namespace PKernel.Pman

open Library.Transition

/-- An address is in a live mapping of a context. -/
structure Holds (state : State) (context vaddr id : Nat) (mapping : Mapping) : Prop where
  live : state.mappings id = some mapping
  home : mapping.context = context
  low : mapping.vaddr ≤ vaddr
  high : vaddr < mapping.vaddr + mapping.sizePages * pageSize

/-- What `process_user_to_kernel` is to return: for an address in a mapping one that leads the
kernel where the address leads the process, and `NULL` for any other. -/
structure ViewsAgree (state : State) (context vaddr : Nat) : Prop where
  inside : ∀ id mapping, Holds state context vaddr id mapping →
    ∃ kernVaddr paddr target kernel,
      processUserToKernel state context vaddr = .ok (some kernVaddr) ∧
      state.contexts context = some target ∧ state.contexts kernelContext = some kernel ∧
      translate target.table vaddr = some paddr ∧ translate kernel.table kernVaddr = some paddr
  outside : (∀ id mapping, ¬Holds state context vaddr id mapping) →
    processUserToKernel state context vaddr = .ok none

/-- The place in physical memory of a byte of a root. -/
def Mapping.place (root : Mapping) (offset : Nat) : Nat :=
  (root.frame? (offset / pageSize)).getD 0 + offset % pageSize

section Views

variable {state : State} {held : List Nat} {context vaddr id i : Nat} {mapping : Mapping}
  {target kernel : Context}

/-- The root behind a mapping has as many pages, and they are the same frames. -/
theorem Sound.root (hsound : Sound held state) (hmapping : state.mappings id = some mapping) :
    ∃ rootId root, state.root id = .ok rootId ∧ state.mappings rootId = some root ∧
      root.kind.isRoot = true ∧ root.sizePages = mapping.sizePages ∧
      ∀ i, state.frame? mapping i = state.frame? root i := by
  obtain ⟨hcounted, ⟨windows, hlaid⟩, _, _⟩ := hsound
  cases hlender : mapping.kind.lender? with
  | none =>
      have hisRoot := Kind.lender?_eq_none_iff.mp hlender
      exact ⟨id, mapping, State.root_of_isRoot hmapping hisRoot, hmapping, hisRoot, rfl,
        fun _ => rfl⟩
  | some lender =>
      obtain ⟨root, hroot, hisRoot⟩ := hcounted.lender id mapping lender hmapping hlender
      have hpositive : 0 < state.nextMapping := Nat.zero_lt_of_lt (hcounted.id_lt hmapping)
      refine ⟨lender, root, State.root_of_lender hpositive hmapping hlender hroot hisRoot, hroot,
        hisRoot, hlaid.loanSize id mapping lender root hmapping hlender hroot, fun i => ?_⟩
      simp [State.frame?, hlender, hroot, Kind.lender?_eq_none_iff.mpr hisRoot]

/-- An offset from an aligned address moves by whole pages and by a rest. -/
theorem page_add {start : Nat} (haligned : pageSize ∣ start) (offset : Nat) :
    (start + offset) / pageSize = start / pageSize + offset / pageSize ∧
      (start + offset) % pageSize = offset % pageSize := by
  obtain ⟨first, rfl⟩ := haligned
  unfold pageSize
  omega

/-- The page table has the place of each byte of a mapping in its root. -/
theorem Sound.leaf (hsound : Sound held state) (hmapping : state.mappings id = some mapping)
    (htarget : state.contexts mapping.context = some target) {rootId : Nat} {root : Mapping}
    (hrootId : state.root id = .ok rootId) (hroot : state.mappings rootId = some root)
    {offset : Nat} (hoffset : offset < mapping.sizePages * pageSize) :
    ∃ frame, target.table ((mapping.vaddr + offset) / pageSize) = some ⟨frame, mapping.flags⟩ ∧
      frame + (mapping.vaddr + offset) % pageSize = root.place offset := by
  obtain ⟨rootId', root', hrootId', hroot', hisRoot, _, hframes⟩ := hsound.root hmapping
  cases hrootId.symm.trans hrootId'
  obtain rfl : root = root' := Option.some.inj (hroot.symm.trans hroot')
  obtain ⟨_, ⟨windows, hlaid⟩, hmirrored, _⟩ := hsound
  have hpage : offset / pageSize < mapping.sizePages := by
    unfold pageSize at *
    omega
  obtain ⟨frame, hframe, hleaf⟩ := hmirrored.mapped hmapping htarget hpage
  obtain ⟨hpages, hrest⟩ := page_add (hlaid.vacant_release hmapping htarget).1 offset
  have hplace : root.frame? (offset / pageSize) = some frame := by
    rw [← hframe, hframes, State.frame?, Kind.lender?_eq_none_iff.mpr hisRoot]
  exact ⟨frame, hpages ▸ hleaf, by rw [hrest, Mapping.place, hplace, Option.getD_some]⟩

theorem Sound.translate_mapping (hsound : Sound held state)
    (hmapping : state.mappings id = some mapping)
    (htarget : state.contexts mapping.context = some target) {rootId : Nat} {root : Mapping}
    (hrootId : state.root id = .ok rootId) (hroot : state.mappings rootId = some root)
    {offset : Nat} (hoffset : offset < mapping.sizePages * pageSize) :
    translate target.table (mapping.vaddr + offset) = some (root.place offset) := by
  obtain ⟨frame, hleaf, hplace⟩ := hsound.leaf hmapping htarget hrootId hroot hoffset
  rw [translate, hleaf, Option.map_some, hplace]

/-- An offset into a mapping leads to the same byte as the same offset into its root. -/
theorem Sound.translate_root (hsound : Sound held state)
    (hmapping : state.mappings id = some mapping)
    (htarget : state.contexts mapping.context = some target)
    (hkernel : state.contexts kernelContext = some kernel) {offset : Nat}
    (hoffset : offset < mapping.sizePages * pageSize) :
    ∃ rootId root, state.root id = .ok rootId ∧ state.mappings rootId = some root ∧
      translate target.table (mapping.vaddr + offset) = some (root.place offset) ∧
      translate kernel.table (root.vaddr + offset) = some (root.place offset) := by
  obtain ⟨rootId, root, hrootId, hroot, hisRoot, hsize, _⟩ := hsound.root hmapping
  have hhome := hsound.rooted.kernelRoots rootId root hroot hisRoot
  exact ⟨rootId, root, hrootId, hroot,
    hsound.translate_mapping hmapping htarget hrootId hroot hoffset,
    hsound.translate_mapping hroot (hhome ▸ hkernel) (State.root_of_isRoot hroot hisRoot) hroot
      (hsize ▸ hoffset)⟩

/-- `pman_context_get_vaddr` finds a mapping that the address is in, if there is one. -/
theorem getVaddr_cases {windows : Nat → List (Nat × Nat)} (vaddr : Nat)
    (hlaid : LaidOut windows state) (htarget : state.contexts context = some target) :
    (∃ id mapping, getVaddr state context vaddr = .ok (some id) ∧
      Holds state context vaddr id mapping) ∨
    getVaddr state context vaddr = .ok none ∧
      ∀ id mapping, ¬Holds state context vaddr id mapping := by
  rw [getVaddr_eq_find? vaddr htarget]
  cases hfind : target.mappings.find? (state.within vaddr) with
  | some id =>
      left
      obtain ⟨mapping, hmapping, hhome⟩ :=
        (hlaid.listed _ target htarget id).mp (List.mem_of_find?_eq_some hfind)
      obtain ⟨other, hother, hlow, hhigh⟩ := State.within_iff.mp (List.find?_some hfind)
      obtain rfl : mapping = other := Option.some.inj (hmapping.symm.trans hother)
      exact ⟨id, mapping, rfl, hmapping, hhome, hlow, hhigh⟩
  | none =>
      right
      refine ⟨rfl, ?_⟩
      rintro id mapping ⟨hmapping, hhome, hlow, hhigh⟩
      have hlisted := (hlaid.listed _ target htarget id).mpr ⟨mapping, hmapping, hhome⟩
      exact List.find?_eq_none.mp hfind id hlisted
        (State.within_iff.mpr ⟨mapping, hmapping, hlow, hhigh⟩)

/-- It finds the only one. -/
theorem Sound.getVaddr_eq (hsound : Sound held state)
    (hholds : Holds state context vaddr id mapping) :
    getVaddr state context vaddr = .ok (some id) := by
  obtain ⟨windows, hlaid⟩ := hsound.laidOut
  obtain ⟨hmapping, hhome, hlow, hhigh⟩ := hholds
  obtain ⟨target, htarget⟩ :=
    Option.isSome_iff_exists.mp (hsound.counted.context id mapping hmapping)
  rcases getVaddr_cases vaddr hlaid (hhome ▸ htarget) with
    ⟨other, found, hget, hfound, hthere, hlow', hhigh'⟩ | ⟨_, hnone⟩
  · by_cases heq : other = id
    · rw [hget, heq]
    · have hapart := hlaid.apart heq hfound hmapping (hthere.trans hhome.symm)
        (hthere.trans hhome.symm ▸ htarget)
      simp only [Valloc.Apart, Mapping.range, Nat.mul_comm pageSize] at hapart
      omega
  · exact absurd ⟨hmapping, hhome, hlow, hhigh⟩ (hnone id mapping)

theorem Sound.processUserToKernel_eq (hsound : Sound held state)
    (hholds : Holds state context vaddr id mapping) {rootId : Nat} {root : Mapping}
    (hrootId : state.root id = .ok rootId) (hroot : state.mappings rootId = some root) :
    processUserToKernel state context vaddr =
      .ok (some (vaddr - mapping.vaddr + root.vaddr)) := by
  unfold processUserToKernel
  rw [hsound.getVaddr_eq hholds]
  simp only [ok_bind, State.mapping_eq_ok.mpr hholds.live, hrootId, State.mapping_eq_ok.mpr hroot,
    pure_eq_ok]

/-- The kernel's address of a byte in a mapping. -/
theorem Sound.viewsAgree (hsound : Sound held state)
    (htarget : state.contexts context = some target) (vaddr : Nat) :
    ViewsAgree state context vaddr := by
  obtain ⟨windows, hlaid⟩ := hsound.laidOut
  obtain ⟨kernel, hkernel⟩ := Option.isSome_iff_exists.mp hsound.rooted.kernel
  constructor
  case inside =>
    intro other found hholds
    rcases getVaddr_cases vaddr hlaid htarget with
      ⟨id, mapping, hget, hmapping, hhome, hlow, hhigh⟩ | ⟨_, hnone⟩
    · have hoffset : vaddr - mapping.vaddr < mapping.sizePages * pageSize := by omega
      obtain ⟨rootId, root, hrootId, hroot, huser, hkern⟩ :=
        hsound.translate_root hmapping (hhome ▸ htarget) hkernel hoffset
      rw [Nat.add_sub_cancel' hlow] at huser
      refine ⟨vaddr - mapping.vaddr + root.vaddr, _, target, kernel, ?_, htarget, hkernel, huser,
        ?_⟩
      · unfold processUserToKernel
        simp only [hget, ok_bind, State.mapping_eq_ok.mpr hmapping, hrootId,
          State.mapping_eq_ok.mpr hroot, pure_eq_ok]
      · rw [Nat.add_comm]
        exact hkern
    · exact absurd hholds (hnone other found)
  case outside =>
    intro hnone
    rcases getVaddr_cases vaddr hlaid htarget with ⟨id, mapping, _, hholds⟩ | ⟨hget, _⟩
    · exact absurd hholds (hnone id mapping)
    · unfold processUserToKernel
      rw [hget, ok_bind, pure_eq_ok]

/-- Nothing is mapped above the addresses that the manager hands out. -/
theorem Sound.page_lt (hsound : Sound held state) (htarget : state.contexts context = some target)
    {page : Nat} (hpage : (target.table page).isSome) : page < 2 ^ 36 := by
  obtain ⟨windows, hlaid⟩ := hsound.laidOut
  have hwell := hlaid.wellFormed _ target htarget
  obtain ⟨range, hrange, hin⟩ := hsound.mirrored.inside _ target page htarget hpage
  obtain ⟨region, hregion, _, rfl⟩ := Valloc.mem_reserved.mp hrange
  have hbounds := hwell.bounds hregion
  have hhigh := hin.2
  unfold pageSize Valloc.regionSize at *
  omega

/-- The kernel reaches memory at its lower addresses only. -/
theorem Sound.kernelAddress_lt (hsound : Sound held state) {paddr : Nat}
    (hreached : kernelAddress state vaddr = .ok paddr) : u64 vaddr < 2 ^ 48 := by
  obtain ⟨kernel, hkernel, hreached⟩ := bind_eq_ok.mp hreached
  have hpage : (kernel.table (u64 vaddr / pageSize)).isSome := by
    cases hleaf : kernel.table (u64 vaddr / pageSize) with
    | some leaf => rfl
    | none => simp [translate, hleaf] at hreached
  have hlt := hsound.page_lt (State.context_eq_ok.mp hkernel) hpage
  unfold pageSize at hlt
  omega

/-- The addresses of a mapping are among them. -/
theorem Sound.range_le (hsound : Sound held state) (hmapping : state.mappings id = some mapping) :
    mapping.vaddr + mapping.sizePages * pageSize ≤ 2 ^ 48 := by
  obtain ⟨windows, hlaid⟩ := hsound.laidOut
  obtain ⟨home, hhome⟩ :=
    Option.isSome_iff_exists.mp (hsound.counted.context id mapping hmapping)
  obtain ⟨region, hregion, _, hrange⟩ :=
    Valloc.mem_reserved.mp (hlaid.mem_reserved hmapping hhome)
  have hbounds := (hlaid.wellFormed _ home hhome).bounds hregion
  obtain ⟨hvaddr, hsize⟩ := Prod.mk.inj hrange
  unfold pageSize Valloc.regionSize at *
  omega

end Views

variable {palloc : State → Nat → Option (List Nat)} {world : World} {context : Nat}

/-- In every state of a run the kernel and a process that exists see the same byte at every
address. -/
theorem views_agree (hpalloc : Exact palloc) (hreach : (kernelRuns palloc).Reachable world)
    (hcontext : (world.state.contexts context).isSome) (vaddr : Nat) :
    ViewsAgree world.state context vaddr := by
  obtain ⟨target, htarget⟩ := Option.isSome_iff_exists.mp hcontext
  exact (sound_of_reachable hpalloc hreach).viewsAgree htarget vaddr

/-- A page that is shared with a process at 0x8000, and an address below it. -/
theorem views_agree_share : ∃ world : World,
    (kernelRuns (pagesFrom 0x5000)).Reachable world ∧ (world.state.contexts 1).isSome = true ∧
      Holds world.state 1 0x8123 1 ⟨1, ⟨true, false, false, false⟩, 0x8000, 1, .shared 0⟩ ∧
      ViewsAgree world.state 1 0x8123 ∧ ViewsAgree world.state 1 0x7fff := by
  have hcalls : ∃ dropped,
      SharesPage 4096 ⟨true, false, false, false⟩ dropped ∧
      (dropped.contexts 1).isSome = true ∧
      dropped.mappings 1 = some ⟨1, ⟨true, false, false, false⟩, 0x8000, 1, .shared 0⟩ :=
    ⟨_, ⟨_, _, rfl, rfl, rfl, rfl, rfl⟩, rfl, rfl⟩
  obtain ⟨dropped, hshares, hpresent, hloan⟩ := hcalls
  have hreach := hshares.reachable (by decide)
  exact ⟨⟨dropped, []⟩, hreach, hpresent, ⟨hloan, rfl, by decide, by decide⟩,
    views_agree (pagesFrom_exact _) hreach hpresent _,
    views_agree (pagesFrom_exact _) hreach hpresent _⟩

end PKernel.Pman
