import PKernel.Paging.KernelViews
import PKernel.Programs.BufferCalls

/-! # What other processes see of a buffer

The calls of `BufferCalls` store through the kernel's view of the memory, where no page is borrowed:
a mapping that waits for its own copy is not given one. Whoever has a mapping of the same frames sees
the bytes.
-/

namespace PKernel.Buffers

open Library.Transition
open Pman (Holds State World kernelAddress kernelPointer storeByte)
open Vfs (FileType Name)

section Code

/-- The stores of a call, in their order. -/
def storeAll : List (Nat × UInt8) → State → Except Fault State
  | [], state => .ok state
  | (address, byte) :: rest, state => do
      let state ← storeByte state address byte
      storeAll rest state

variable (direntSize : Nat) (layout : FileType → Nat → Name → List UInt8)

/-- A call with its stores. -/
def Call.run (state : State) (context vaddr : Nat) (call : Call) :
    Except Fault (Except Errno Nat × State) := do
  let outcome ← call.perform direntSize layout state context vaddr
  let state ← storeAll outcome.stores state
  return (outcome.result, state)

end Code

/-! ## Stores -/

section Stores

variable {state next : State} {stores : List (Nat × UInt8)} {paddr : Nat} {byte : UInt8}

theorem storeAll_returns (hreached : ∀ store ∈ stores, ∃ paddr, kernelAddress state store.1 = .ok paddr) :
    ∃ next, storeAll stores state = .ok next := by
  induction stores generalizing state with
  | nil => exact ⟨state, rfl⟩
  | cons store rest ih =>
      obtain ⟨paddr, hpaddr⟩ := hreached store List.mem_cons_self
      rw [storeAll, storeByte, hpaddr, ok_bind, pure_eq_ok, ok_bind]
      exact ih fun other hother => hreached other (List.mem_cons_of_mem _ hother)

/-- Every store that a call gets to do has an address. -/
theorem storeAll_reached (hcall : storeAll stores state = .ok next) :
    ∀ store ∈ stores, ∃ paddr, kernelAddress state store.1 = .ok paddr := by
  induction stores generalizing state with
  | nil => exact fun _ hmem => nomatch hmem
  | cons store rest ih =>
      obtain ⟨between, hstore, hrest⟩ := bind_eq_ok.mp hcall
      obtain ⟨paddr, hpaddr, hbetween⟩ := bind_eq_ok.mp hstore
      cases hbetween
      intro other hother
      rcases List.mem_cons.mp hother with rfl | hmem
      · exact ⟨paddr, hpaddr⟩
      · exact ih hrest other hmem

theorem storeAll_outside (hcall : storeAll stores state = .ok next)
    (hout : ∀ store ∈ stores, kernelAddress state store.1 ≠ .ok paddr) :
    next.memory paddr = state.memory paddr := by
  induction stores generalizing state with
  | nil => rw [Except.ok.inj hcall]
  | cons store rest ih =>
      obtain ⟨between, hstore, hrest⟩ := bind_eq_ok.mp hcall
      obtain ⟨reached, hreached, hbetween⟩ := bind_eq_ok.mp hstore
      cases hbetween
      have hne : paddr ≠ reached := by
        rintro rfl
        exact hout store List.mem_cons_self hreached
      have hlater := ih hrest fun other hother => hout other (List.mem_cons_of_mem _ hother)
      exact hlater.trans (Function.update_of_ne hne _ _)

/-- Stores of the same byte leave it wherever they reach. -/
theorem storeAll_const (hbyte : ∀ store ∈ stores, store.2 = byte)
    (hcall : storeAll stores state = .ok next)
    (hreached : state.memory paddr = byte ∨
      ∃ store ∈ stores, kernelAddress state store.1 = .ok paddr) :
    next.memory paddr = byte := by
  induction stores generalizing state with
  | nil =>
      rw [← Except.ok.inj hcall]
      exact hreached.resolve_right fun ⟨_, hmem, _⟩ => nomatch hmem
  | cons store rest ih =>
      obtain ⟨between, hstore, hrest⟩ := bind_eq_ok.mp hcall
      obtain ⟨reached, hstored, hbetween⟩ := bind_eq_ok.mp hstore
      cases hbetween
      refine ih (fun other hother => hbyte other (List.mem_cons_of_mem _ hother)) hrest ?_
      by_cases heq : paddr = reached
      · left
        rw [heq]
        exact (Function.update_self _ _ _).trans (hbyte store List.mem_cons_self)
      · rcases hreached with hmemory | ⟨other, hother, haddress⟩
        · exact .inl ((Function.update_of_ne heq _ _).trans hmemory)
        · rcases List.mem_cons.mp hother with rfl | hmem
          · exact absurd (Except.ok.inj (haddress.symm.trans hstored)) heq
          · exact .inr ⟨other, hmem, haddress⟩

end Stores

/-! ## Other processes -/

/-- A byte of physical memory is in a private mapping of another process. -/
def PrivateElsewhere (state : State) (context paddr : Nat) : Prop :=
  ∃ other id mapping vaddr target, other ≠ context ∧ other ≠ Pman.kernelContext ∧
    Holds state other vaddr id mapping ∧ mapping.protection.shared = false ∧
    state.contexts other = some target ∧ Pman.translate target.table vaddr = some paddr

/-- Nothing has changed there. -/
def Isolated (state next : State) (context : Nat) : Prop :=
  ∀ paddr, PrivateElsewhere state context paddr → next.memory paddr = state.memory paddr

/-- A call is given at most so many bytes of buffer, and what it calls keeps to them. -/
def Call.Within (direntSize : Nat) (layout : FileType → Nat → Name → List UInt8) (count : Nat) :
    Call → Prop
  | read size file => size ≤ count ∧ ∀ opened, file = some opened → opened.Keeps
  | readdir size _ => size ≤ count ∧ ∀ type name,
      (layout type (direntSize + name.length + 1) name).length ≤ direntSize + name.length + 1
  | pipe fds => fds.length ≤ count

/-- No byte that the kernel reaches in a buffer of so many bytes, from its first one on, is in a
private mapping of another process. -/
def Unshared (state : State) (context vaddr count : Nat) : Prop :=
  ∀ buffer paddr, kernelPointer state context vaddr = .ok buffer → buffer ≠ 0 → ∀ i < count,
    (∀ j < i, ∃ earlier, kernelAddress state (buffer + j) = .ok earlier) →
    kernelAddress state (buffer + i) = .ok paddr → ¬PrivateElsewhere state context paddr

section Isolation

variable {direntSize : Nat} {layout : FileType → Nat → Name → List UInt8} {state next : State}
  {context vaddr buffer count : Nat} {call : Call} {outcome : Outcome}

/-- A call stores bytes from the start of its buffer on. -/
theorem stores_place (hwithin : call.Within direntSize layout count)
    (hpointer : kernelPointer state context vaddr = .ok buffer)
    (hperform : call.perform direntSize layout state context vaddr = .ok outcome) :
    outcome.stores = [] ∨ buffer ≠ 0 ∧ ∃ bytes, outcome.stores = place buffer bytes ∧
      bytes.length ≤ count := by
  have hcases : ∀ act, withBuffer state context vaddr act = .ok outcome →
      outcome = .fails .fault ∨ buffer ≠ 0 ∧ outcome = act buffer := by
    intro act hact
    rw [withBuffer, hpointer, ok_bind] at hact
    split at hact
    next => exact .inl (Except.ok.inj hact).symm
    next hbuffer => exact .inr ⟨hbuffer, (Except.ok.inj hact).symm⟩
  cases call with
  | read size file =>
      rcases hcases _ hperform with rfl | ⟨hbuffer, rfl⟩
      · exact .inl rfl
      cases file with
      | none => exact .inl rfl
      | some file =>
          rcases (fileRead_stores file buffer size).2 with hnone | ⟨offset, hplace⟩
          · exact .inl hnone
          · exact .inr ⟨hbuffer, _, hplace,
              ((hwithin.2 file rfl size offset).1).trans hwithin.1⟩
  | readdir size file =>
      rcases hcases _ hperform with rfl | ⟨hbuffer, rfl⟩
      · exact .inl rfl
      cases file with
      | none => exact .inl rfl
      | some file =>
          rcases fileReaddir_stores direntSize layout file buffer size with
            hnone | ⟨type, name, hfits, hplace⟩
          · exact .inl hnone
          · exact .inr ⟨hbuffer, _, hplace, ((hwithin.2 type name).trans hfits).trans hwithin.1⟩
  | pipe fds =>
      rcases hcases _ hperform with rfl | ⟨hbuffer, rfl⟩
      · exact .inl rfl
      · exact .inr ⟨hbuffer, fds, rfl, hwithin⟩

/-- The stores reach the buffer byte by byte. -/
theorem unshared_isolated (hunshared : Unshared state context vaddr count)
    (hwithin : call.Within direntSize layout count)
    (hpointer : kernelPointer state context vaddr = .ok buffer) {result : Except Errno Nat}
    (hrun : call.run direntSize layout state context vaddr = .ok (result, next)) :
    Isolated state next context := by
  obtain ⟨outcome, hperform, hrun⟩ := bind_eq_ok.mp hrun
  obtain ⟨after, hstore, hrun⟩ := bind_eq_ok.mp hrun
  cases hrun
  intro paddr hprivate
  refine storeAll_outside hstore fun store hmem haddress => ?_
  rcases stores_place hwithin hpointer hperform with hnone | ⟨hbuffer, bytes, hplace, hlength⟩
  · rw [hnone] at hmem
    cases hmem
  · have hreached := storeAll_reached hstore
    rw [hplace] at hmem hreached
    obtain ⟨i, hi, hstore⟩ := mem_place (List.mem_map_of_mem hmem)
    rw [hstore] at haddress
    refine hunshared buffer paddr hpointer hbuffer i (Nat.lt_of_lt_of_le hi hlength) ?_ haddress
      hprivate
    intro j hj
    have hbefore := @mem_place_of_lt buffer bytes j (hj.trans hi)
    obtain ⟨earlier, hearlier, hsame⟩ := List.mem_map.mp hbefore
    obtain ⟨reached, hreached⟩ := hreached earlier hearlier
    exact ⟨reached, hsame ▸ hreached⟩

/-- A file of other bytes than the ones that are there changes them. -/
theorem isolated_unshared (hpointer : kernelPointer state context vaddr = .ok buffer)
    (hisolated : ∀ call : Call, call.Within direntSize layout count → ∀ result next,
      call.run direntSize layout state context vaddr = .ok (result, next) →
      Isolated state next context) : Unshared state context vaddr count := by
  intro found paddr hfound hbuffer i hi hbefore haddress hprivate
  cases hpointer.symm.trans hfound
  obtain ⟨byte, hbyte⟩ : ∃ byte : UInt8, byte ≠ state.memory paddr := by
    by_cases hzero : state.memory paddr = 0
    · exact ⟨1, by rw [hzero]; decide⟩
    · exact ⟨0, fun heq => hzero heq.symm⟩
  have hperform : (Call.read (i + 1) (some (fileOf (i + 1) byte))).perform direntSize layout state
      context vaddr = .ok ⟨[], place buffer (List.replicate (i + 1) byte), .ok (i + 1)⟩ := by
    rw [← fileRead_fileOf]
    exact perform_eq hpointer hbuffer _ .read
  have hstores : ∀ store ∈ place buffer (List.replicate (i + 1) byte),
      store.2 = byte ∧ ∃ reached, kernelAddress state store.1 = .ok reached := by
    intro store hmem
    obtain ⟨j, hj, rfl⟩ := List.mem_mapIdx.mp hmem
    rw [List.length_replicate] at hj
    refine ⟨List.getElem_replicate _, ?_⟩
    rcases Nat.lt_succ_iff_lt_or_eq.mp hj with hlt | rfl
    · exact hbefore j hlt
    · exact ⟨paddr, haddress⟩
  obtain ⟨next, hnext⟩ := storeAll_returns fun store hmem => (hstores store hmem).2
  have hrun : (Call.read (i + 1) (some (fileOf (i + 1) byte))).run direntSize layout state context
      vaddr = .ok (.ok (i + 1), next) := by
    rw [Call.run, hperform, ok_bind, hnext, ok_bind, pure_eq_ok]
  have hwithin : (Call.read (i + 1) (some (fileOf (i + 1) byte))).Within direntSize layout count := by
    refine ⟨hi, fun opened hopened => ?_⟩
    exact Option.some.inj hopened ▸ ramfsFile_keeps _ _
  have hlast : ∃ store ∈ place buffer (List.replicate (i + 1) byte),
      kernelAddress state store.1 = .ok paddr := by
    obtain ⟨store, hstore, hsame⟩ := List.mem_map.mp
      (@mem_place_of_lt buffer (List.replicate (i + 1) byte) i (by simp))
    exact ⟨store, hstore, hsame ▸ haddress⟩
  have hchanged := storeAll_const (fun store hmem => (hstores store hmem).1) hnext (.inr hlast)
  exact hbyte (hchanged.symm.trans (hisolated _ hwithin _ next hrun paddr hprivate))

/-- In every state of every run the calls that are given at most so many bytes of buffer leave the
private memory of the other processes as it is exactly if the buffer is in none of it. -/
theorem isolated_iff {palloc : State → Nat → Option (List Nat)} {world : World}
    (hreach : (Pman.system palloc).Reachable world)
    (hcontext : (world.state.contexts context).isSome) :
    (∀ call : Call, call.Within direntSize layout count → ∀ result next,
      call.run direntSize layout world.state context vaddr = .ok (result, next) →
      Isolated world.state next context) ↔ Unshared world.state context vaddr count := by
  have hcounted := (hreach.invariant Pman.system_inductive).counted
  obtain ⟨buffer, hpointer⟩ := exists_pointer hcounted hcontext vaddr
  exact ⟨isolated_unshared hpointer, fun hunshared call hwithin result next hrun =>
    unshared_isolated hunshared hwithin hpointer hrun⟩

end Isolation

/-! ## After a fork -/

section Example

/-- A process with a private page at 0x8000 and its child, as `process_create_fork` leaves them: both
have borrowed the page. -/
structure Forked (world : World) : Prop where
  reach : (Pman.system fun _ _ => some [0x5000]).Reachable world
  parent : (world.state.contexts 1).isSome
  found : ∃ root, root.vaddr = 0 ∧
    Found world.state 1 0x8123 ⟨1, ⟨true, false, false, false⟩, 0x8000, 1, .borrowed 0⟩ root
  address : kernelAddress world.state 0x123 = .ok 0x5123
  child : PrivateElsewhere world.state 1 0x5123
  memory : world.state.memory 0x5123 = 0

theorem forked : ∃ world, Forked world := by
  have hcalls : ∃ allocated lent last parent child,
      Pman.addAlloc (fun _ _ => some [0x5000])
        (Pman.newContext (Pman.newContext Pman.emptyState).2).2 0 ⟨true, false, false, false⟩ 0 4096 =
          .ok (0, allocated) ∧
      Pman.addBorrowed allocated 2 ⟨true, false, false, false⟩ 0 0x8000 = .ok (1, lent) ∧
      Pman.addBorrowed lent 1 ⟨true, false, false, false⟩ 0 0x8000 = .ok (2, last) ∧
      last.contexts 1 = some parent ∧ parent.mappings = [2] ∧
      last.mappings 2 = some ⟨1, ⟨true, false, false, false⟩, 0x8000, 1, .borrowed 0⟩ ∧
      last.mappings 1 = some ⟨2, ⟨true, false, false, false⟩, 0x8000, 1, .borrowed 0⟩ ∧
      last.mappings 0 = some ⟨0, ⟨true, false, false, false⟩, 0, 1, .alloc 3 [0x5000]⟩ ∧
      last.root 2 = .ok 0 ∧ Pman.getVaddr last 1 0x8123 = .ok (some 2) ∧
      last.contexts 2 = some child ∧ child.table 8 = some ⟨0x5000, false, true, true⟩ ∧
      kernelAddress last 0x123 = .ok 0x5123 ∧ last.memory 0x5123 = 0 :=
    ⟨_, _, _, _, _, rfl, rfl, rfl, rfl, rfl, rfl, rfl, rfl, rfl, rfl, rfl, rfl, rfl, rfl⟩
  obtain ⟨allocated, lent, last, parent, child, halloc, hchild, hparent, htarget, hlist, hmapping,
    hother, hroot, hrootId, hget, hchildTarget, hchildTable, haddress, hmemory⟩ := hcalls
  have hinit : (Pman.system fun _ _ => some [0x5000]).Reachable ⟨Pman.emptyState, []⟩ :=
    .init ⟨Pman.emptyState_booted, rfl⟩
  have hreach : (Pman.system fun _ _ => some [0x5000]).Reachable ⟨last, [0]⟩ :=
    ((((hinit.step .newContext).step .newContext).step (.addAlloc (by decide) halloc)).step
      (.addBorrowed hchild)).step (.addBorrowed hparent)
  have hcontains : Contains last 1 0x8123 2
      ⟨1, ⟨true, false, false, false⟩, 0x8000, 1, .borrowed 0⟩ :=
    ⟨parent, htarget, hlist ▸ List.mem_cons_self, hmapping, by simp, by simp [pageSize]⟩
  refine ⟨⟨last, [0]⟩, hreach, by rw [htarget]; rfl,
    ⟨_, rfl, .of_get hget hcontains hrootId hroot⟩, haddress, ?_, hmemory⟩
  refine ⟨2, 1, _, 0x8123, child, by decide, by decide, ⟨hother, rfl, by simp, by simp [pageSize]⟩,
    rfl, hchildTarget, ?_⟩
  simp [Pman.translate, pageSize, hchildTable]

/-- One frame for the page that is there before the fork, and one for what is made after it. -/
def twoPages (state : State) (_ : Nat) : Option (List Nat) :=
  some [match state.roots with | [] => 0x5000 | _ => 0x6000]

/-- After the fork the parent is given another page, and the buffer is in that. -/
theorem isolated_forked : ∃ world, (Pman.system twoPages).Reachable world ∧
    PrivateElsewhere world.state 1 0x5123 ∧
    ∀ call : Call, call.Within 24 (fun _ _ _ => []) 1 → ∀ result next,
      call.run 24 (fun _ _ _ => []) world.state 1 0x9123 = .ok (result, next) →
      Isolated world.state next 1 := by
  have hcalls : ∃ allocated lent forked own given last child,
      Pman.addAlloc twoPages (Pman.newContext (Pman.newContext Pman.emptyState).2).2 0
        ⟨true, false, false, false⟩ 0 4096 = .ok (0, allocated) ∧
      Pman.addBorrowed allocated 2 ⟨true, false, false, false⟩ 0 0x8000 = .ok (1, lent) ∧
      Pman.addBorrowed lent 1 ⟨true, false, false, false⟩ 0 0x8000 = .ok (2, forked) ∧
      Pman.addAlloc twoPages forked 0 ⟨true, false, false, false⟩ 0 4096 = .ok (3, own) ∧
      Pman.addShared own 1 ⟨true, false, false, false⟩ 3 0x9000 = .ok (4, given) ∧
      Pman.unmap given 3 = .ok last ∧ last.nextMapping = 5 ∧
      last.mappings 1 = some ⟨2, ⟨true, false, false, false⟩, 0x8000, 1, .borrowed 0⟩ ∧
      [0, 2, 3, 4].map (fun id => (last.mappings id).map Pman.Mapping.context) =
        [some 0, some 1, some 0, some 1] ∧
      last.contexts 2 = some child ∧ child.table 8 = some ⟨0x5000, false, true, true⟩ ∧
      (last.contexts 1).isSome ∧ kernelPointer last 1 0x9123 = .ok 0x1123 ∧
      kernelAddress last 0x1123 = .ok 0x6123 :=
    ⟨_, _, _, _, _, _, _, rfl, rfl, rfl, rfl, rfl, rfl, rfl, rfl, rfl, rfl, rfl, rfl, rfl, rfl⟩
  obtain ⟨allocated, lent, forked, own, given, last, child, halloc, hchild, hparent, hown, hgive,
    hunmap, hnext, hloan, hothers, hcontext, htable, hcaller, hpointer, haddress⟩ := hcalls
  have hinit : (Pman.system twoPages).Reachable ⟨Pman.emptyState, []⟩ :=
    .init ⟨Pman.emptyState_booted, rfl⟩
  have hreach := ((((((((hinit.step .newContext).step .newContext).step
    (.addAlloc (by decide) halloc)).step (.addBorrowed hchild)).step (.addBorrowed hparent)).step
    (.addAlloc (by decide) hown)).step (.addShared hgive)).step (.unmapRoot List.mem_cons_self hunmap))
  refine ⟨_, hreach, ?_, (isolated_iff hreach hcaller).mpr ?_⟩
  · refine ⟨2, 1, _, 0x8123, child, by decide, by decide, ⟨hloan, rfl, by simp, by simp [pageSize]⟩,
      rfl, hcontext, ?_⟩
    simp [Pman.translate, pageSize, htable]
  · rintro buffer paddr hbuffer - i hi - hpaddr ⟨other, id, mapping, vaddr, target, hne, huser,
      ⟨hlive, rfl, hlow, hhigh⟩, -, htarget, htranslate⟩
    obtain rfl := Nat.lt_one_iff.mp hi
    cases hpointer.symm.trans hbuffer
    cases haddress.symm.trans hpaddr
    have hid := (hreach.invariant Pman.system_inductive).counted.id_lt hlive
    rw [hnext] at hid
    have hborrowed : id = 1 := by
      by_contra hother
      obtain rfl | rfl | rfl | rfl : id = 0 ∨ id = 2 ∨ id = 3 ∨ id = 4 := by omega
      all_goals simp_all [Pman.kernelContext]
    subst hborrowed
    cases hloan.symm.trans hlive
    cases hcontext.symm.trans htarget
    have hvaddr : vaddr / pageSize = 8 := by
      simp only [pageSize] at hlow hhigh ⊢
      omega
    rw [Pman.translate, hvaddr, htable, Option.map_some, Option.some.injEq] at htranslate
    have hoffset := Nat.mod_lt vaddr (show 0 < pageSize by decide)
    simp only [pageSize] at htranslate hoffset
    omega

/-- The child sees what its parent reads from a file. -/
theorem not_isolated_forked : ∃ world, Forked world ∧
    ∃ call : Call, call.Within 24 (fun _ _ _ => []) 1 ∧ ∃ result next,
      call.run 24 (fun _ _ _ => []) world.state 1 0x8123 = .ok (result, next) ∧
      ¬Isolated world.state next 1 := by
  obtain ⟨world, hforked⟩ := forked
  obtain ⟨root, hroot, hfound⟩ := hforked.found
  have hpointer : kernelPointer world.state 1 0x8123 = .ok 0x123 := by
    refine hfound.pointer.trans (congrArg Except.ok ?_)
    dsimp only
    omega
  have hperform : (Call.read 1 (some (fileOf 1 1))).perform 24 (fun _ _ _ => []) world.state 1
      0x8123 = .ok ⟨[], [(0x123, 1)], .ok 1⟩ :=
    (perform_eq hpointer (by decide) (some (fileOf 1 1)) .read).trans
      (congrArg Except.ok (fileRead_fileOf 0x123 1 1))
  refine ⟨world, hforked, .read 1 (some (fileOf 1 1)), ⟨Nat.le_refl 1, fun opened hopened => ?_⟩,
    .ok 1, { world.state with memory := Function.update world.state.memory 0x5123 1 }, ?_, ?_⟩
  · exact Option.some.inj hopened ▸ ramfsFile_keeps _ _
  · rw [Call.run, hperform, ok_bind, storeAll, storeByte, hforked.address]
    rfl
  · intro hisolated
    have hsame := hisolated 0x5123 hforked.child
    rw [hforked.memory] at hsame
    simp at hsame

end Example

end PKernel.Buffers
