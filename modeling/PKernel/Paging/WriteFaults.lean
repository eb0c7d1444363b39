import PKernel.Paging.Translation
import PKernel.Signals.SignalTable

/-! # Write faults

`pman_page_fault_handler` for a fault in user mode. A fault outside of the
mappings of the process becomes a signal. Inside of them the handler prepares the
mapping for writing. One that may not be written is left as it is, or becomes one
that is shared and just as unwritable: the same store faults again.
-/

namespace PKernel.Pman

open Library.Transition
open Signals (signalTableInvoke)

/-- The process that runs, and the parts of the kernel that its fault reaches. -/
structure Current where
  paging : State
  /-- `paging_context`. -/
  pagingContext : Nat
  process : Signals.Process
  threads : Scheduling.Memory
  killed : Bool

/-- `process_kill`, as far as the address space goes. -/
def processKill (current : Current) : Except Fault Current := do
  let paging ← freeContext current.paging current.pagingContext
  return { current with paging, killed := true }

section Code

variable (palloc : State → Nat → Option (List Nat)) (sigCount sigPage : Nat)

/-- `pman_context_prepare_write` with the pointer that the handler compares with
`NULL`. All paths of the function end with a mapping. -/
def preparedMapping (state : State) (mapping : Nat) : Except Fault (Option Nat × State) := do
  let (user, state) ← prepareWrite palloc state mapping
  return (some user, state)

/-- `pman_page_fault_handler` for a fault in user mode. -/
def pageFaultHandler (current : Current) (faultVaddr : Nat) : Except Fault Current := do
  match ← getVaddr current.paging current.pagingContext faultVaddr with
  | none =>
      let (_, process, threads) ←
        signalTableInvoke sigCount current.process sigPage current.threads
      return { current with process, threads }
  | some mapping =>
      let (prepared, paging) ← preparedMapping palloc current.paging mapping
      match prepared with
      | none => processKill { current with paging }
      | some _ => return { current with paging }

end Code

/-! ## Progress -/

/-- A store in user mode to an address goes through. -/
def Writable (current : Current) (vaddr : Nat) : Prop :=
  ∃ context leaf, current.paging.contexts current.pagingContext = some context ∧
    context.table (vaddr / pageSize) = some leaf ∧
    leaf.flags.readWrite = true ∧ leaf.flags.userSuper = true

/-- A store in user mode to an address of a present page faults. -/
structure WriteFault (current : Current) (vaddr : Nat) : Prop where
  present : ∃ context, current.paging.contexts current.pagingContext = some context ∧
    (context.table (vaddr / pageSize)).isSome
  unwritable : ¬Writable current vaddr

/-- What a fault is to lead to: the store goes through, the process is gone, or
it has one signal more. -/
def Progress (before after : Current) (vaddr : Nat) : Prop :=
  Writable after vaddr ∨ after.killed = true ∨
    ∃ sig, after.process.signalTable.pending = before.process.signalTable.pending ++ [sig]

variable {palloc : State → Nat → Option (List Nat)} {sigCount sigPage vaddr id : Nat}
  {current after : Current} {created : List Nat} {mapping : Mapping}

/-- A fault inside of a mapping changes nothing but the mappings. -/
theorem pageFaultHandler_inside
    (hinside : getVaddr current.paging current.pagingContext vaddr = .ok (some id))
    (hreturn : pageFaultHandler palloc sigCount sigPage current vaddr = .ok after) :
    ∃ user paging, prepareWrite palloc current.paging id = .ok (user, paging) ∧
      after = { current with paging } := by
  unfold pageFaultHandler preparedMapping at hreturn
  rw [hinside, ok_bind] at hreturn
  obtain ⟨⟨prepared, paging⟩, hprepared, hreturn⟩ := bind_eq_ok.mp hreturn
  obtain ⟨⟨user, state⟩, hprepare, hprepared⟩ := bind_eq_ok.mp hprepared
  simp only [pure_eq_ok, Except.ok.injEq, Prod.mk.injEq] at hprepared
  obtain ⟨rfl, rfl⟩ := hprepared
  cases hreturn
  exact ⟨user, state, hprepare, rfl⟩

/-- The mapping that holds an address, and the page of the address in it. -/
theorem getVaddr_spec {state : State} {context : Nat} {target : Context}
    {windows : Nat → List (Nat × Nat)} (hlaid : LaidOut windows state)
    (htarget : state.contexts context = some target)
    (hinside : getVaddr state context vaddr = .ok (some id)) :
    ∃ mapping, state.mappings id = some mapping ∧ mapping.context = context ∧
      ∃ i < mapping.sizePages, vaddr / pageSize = mapping.vaddr / pageSize + i := by
  unfold getVaddr at hinside
  rw [State.context_eq_ok.mpr htarget, ok_bind, pure_eq_ok, Except.ok.injEq] at hinside
  have hlisted := List.mem_of_find?_eq_some hinside
  have htest := List.find?_some hinside
  obtain ⟨mapping, hmapping, hcontext⟩ := (hlaid.listed _ target htarget id).mp hlisted
  refine ⟨mapping, hmapping, hcontext, vaddr / pageSize - mapping.vaddr / pageSize, ?_⟩
  simp only [hmapping, decide_eq_true_eq] at htest
  obtain ⟨first, hfirst⟩ := (hlaid.vacant_release hmapping (hcontext ▸ htarget)).1
  rw [hfirst] at htest ⊢
  unfold pageSize at *
  omega

/-- After a loan was remapped its pages are as writable as its protection says. -/
theorem prepareWrite_page {state next : State} {windows : Nat → List (Nat × Nat)} {held : List Nat}
    {lender user i : Nat} (hpalloc : Exact palloc) (hmirrored : Mirrored state)
    (hcounted : Counted state held) (hlaid : LaidOut windows state)
    (hmapping : state.mappings id = some mapping) (hborrowed : mapping.kind = .borrowed lender)
    (hcall : prepareWrite palloc state id = .ok (user, next)) (hi : i < mapping.sizePages) :
    ∃ context paddr, next.contexts mapping.context = some context ∧
      context.table (mapping.vaddr / pageSize + i) =
        some ⟨paddr, flagsOf mapping.context mapping.protection mapping.protection.write⟩ := by
  have hafter := prepareWrite_mirrored hpalloc hmirrored hcounted hlaid hcall
  have hafterCounted := prepareWrite_counted hcounted hcall
  obtain ⟨found, hfound, hkept | ⟨lender, held', lenderId, start, removed, shared, hkind, hremaps,
    hstart, hstartLaid, hstartMapping, hsize, _⟩⟩ := prepareWrite_remaps hcounted hlaid hcall
  · obtain rfl : mapping = found := Option.some.inj (hmapping.symm.trans hfound)
    exact absurd hborrowed (hkept.1 lender)
  obtain rfl : mapping = found := Option.some.inj (hmapping.symm.trans hfound)
  have hlender : mapping.kind.lender? = some lender := by rw [hkind]; rfl
  obtain ⟨rootId, huser⟩ := hremaps.user_eq hstart hstartLaid hstartMapping hlender hsize
  obtain ⟨context, hcontext⟩ := Option.isSome_iff_exists.mp (hafterCounted.context user _ huser)
  obtain ⟨paddr, _, hpage⟩ := hafter.mapped huser hcontext hi
  exact ⟨context, paddr, hcontext, hpage⟩

/-- A write fault inside of a mapping of a process leads to something exactly if
the protection of the mapping has `PMAN_PROT_WRITE`. -/
theorem writeFault_progress (hpalloc : Exact palloc)
    (hreach : (orderly palloc).Reachable ⟨current.paging, created⟩)
    (hprocess : current.pagingContext ≠ kernelContext) (halive : current.killed = false)
    (hfault : WriteFault current vaddr)
    (hinside : getVaddr current.paging current.pagingContext vaddr = .ok (some id))
    (hmapping : current.paging.mappings id = some mapping)
    (hreturn : pageFaultHandler palloc sigCount sigPage current vaddr = .ok after) :
    Progress current after vaddr ↔ mapping.protection.write = true := by
  obtain ⟨⟨hcounted, _⟩, ⟨windows, hlaid⟩, hmirrored⟩ :=
    hreach.invariant (tidy_inductive hpalloc)
  obtain ⟨⟨target, htarget, _⟩, hunwritable⟩ := hfault
  obtain ⟨found, hfound, hcontext, i, hi, hpage⟩ := getVaddr_spec hlaid htarget hinside
  obtain rfl : mapping = found := Option.some.inj (hmapping.symm.trans hfound)
  obtain ⟨user, paging, hprepare, rfl⟩ := pageFaultHandler_inside hinside hreturn
  obtain ⟨paddr, _, hleaf⟩ := hmirrored.mapped hmapping (hcontext ▸ htarget) hi
  have huser : (mapping.context != kernelContext) = true := by simpa [hcontext] using hprocess
  -- the page is present, so the fault is for the flag that the mapping gave it
  have hreadOnly : mapping.writes = false := by
    by_contra hwrites
    refine hunwritable ⟨target, _, htarget, hpage ▸ hleaf, ?_, ?_⟩
    · simpa [Mapping.flags, flagsOf] using hwrites
    · simpa [Mapping.flags, flagsOf] using huser
  have hpages := fun lender (hborrowed : mapping.kind = .borrowed lender) =>
    prepareWrite_page hpalloc hmirrored hcounted hlaid hmapping hborrowed hprepare hi
  constructor
  · rintro (⟨context, leaf, hafter, hstore, hwrite, _⟩ | hkilled | ⟨sig, hsignal⟩)
    · by_cases hborrowed : ∃ lender, mapping.kind = .borrowed lender
      · obtain ⟨lender, hborrowed⟩ := hborrowed
        obtain ⟨context', paddr', hafter', hleaf'⟩ := hpages lender hborrowed
        obtain rfl : context' = context := by
          rw [hcontext] at hafter'
          exact Option.some.inj (hafter'.symm.trans hafter)
        cases (hpage ▸ hstore).symm.trans hleaf'
        exact hwrite
      · -- nothing has changed
        obtain ⟨other, hother, ⟨_, _, rfl⟩ | ⟨lender, _, _, _, _, _, hkind, _⟩⟩ :=
          prepareWrite_remaps hcounted hlaid hprepare
        · exact absurd ⟨context, leaf, hafter, hstore, hwrite, by assumption⟩ hunwritable
        · obtain rfl : mapping = other := Option.some.inj (hmapping.symm.trans hother)
          exact absurd ⟨lender, hkind⟩ hborrowed
    · rw [halive] at hkilled
      exact absurd hkilled Bool.false_ne_true
    · exact absurd (congrArg List.length hsignal) (by simp)
  · intro hwrite
    cases hkind : mapping.kind with
    | borrowed lender =>
        obtain ⟨context, paddr, hafter, hleaf⟩ := hpages lender hkind
        refine .inl ⟨context, _, hcontext ▸ hafter, hpage ▸ hleaf, hwrite, ?_⟩
        simpa [flagsOf] using huser
    | _ => simp [Mapping.writes, hkind, hwrite] at hreadOnly

/-! ## Two pages -/

/-- The pages from an address on. -/
def pagesFrom (first : Nat) (_ : State) (count : Nat) : Option (List Nat) :=
  some ((List.range count).map fun i => first + i * pageSize)

theorem pagesFrom_exact (first : Nat) : Exact (pagesFrom first) := by
  intro state count paddrs hpaddrs
  cases hpaddrs
  simp

/-- Nothing is mapped. -/
theorem emptyState_orderly {palloc : State → Nat → Option (List Nat)} :
    (orderly palloc).init ⟨emptyState, []⟩ := by
  refine ⟨⟨emptyState_booted, rfl⟩, ?_⟩
  intro id context page hcontext hpage
  by_cases hid : id = kernelContext
  · obtain rfl : (⟨Valloc.initial, fun _ => none, []⟩ : Context) = context := by
      simpa [emptyState, hid] using hcontext
    exact absurd hpage Bool.false_ne_true
  · simp [emptyState, hid] at hcontext

/-- A page of the kernel is lent to a new context at an address of its choice. -/
theorem orderly_loan {allocated lent : State} {op : Op}
    (halloc : addAlloc (pagesFrom 0x5000) (newContext emptyState).2 kernelContext
      ⟨true, false, false, false⟩ 0 4096 = .ok (0, allocated))
    (hcontext : allocated.contexts 1 = some ⟨Valloc.initial, fun _ => none, []⟩)
    (hloan : Step (pagesFrom 0x5000) ⟨allocated, [0]⟩ op ⟨lent, [0]⟩)
    (hrequest : op.request allocated = some (1, 0x8000, 1))
    (hmap : ∀ context protection vaddr paddr size,
      op ≠ .addMap context protection vaddr paddr size) :
    (orderly (pagesFrom 0x5000)).Reachable ⟨lent, [0]⟩ := by
  have hinit : (orderly (pagesFrom 0x5000)).Reachable ⟨emptyState, []⟩ := .init emptyState_orderly
  have hcreate := hinit.step ⟨⟨by simp [Op.request], by simp⟩, .newContext⟩
  have hallocated := hcreate.step ⟨⟨by simp [Op.request], by simp⟩,
    .addAlloc (by decide) halloc⟩
  refine hallocated.step ⟨⟨?_, ?_⟩, hloan⟩
  · intro context vaddr sizePages hasked
    obtain ⟨rfl, rfl, rfl⟩ : 1 = context ∧ 0x8000 = vaddr ∧ 1 = sizePages := by
      simpa using hrequest.symm.trans hasked
    refine ⟨by decide, ?_⟩
    intro target htarget
    cases hcontext.symm.trans htarget
    exact ⟨_, List.mem_cons_self, rfl, by decide, by decide⟩
  · intro context protection vaddr paddr size hop
    exact absurd hop (hmap context protection vaddr paddr size)

/-- A process with one page at 0x8000 and no threads. -/
def currentOf (paging : State) : Current where
  paging := paging
  pagingContext := 1
  process := ⟨[], Signals.signalTableInit (fun _ => .actTerminate) fun _ => 0⟩
  threads := ⟨fun _ => none, fun _ => none, fun _ => none⟩
  killed := false

/-- A page that was lent for copying on write becomes writable. -/
theorem writeFault_progress_borrowed : ∃ paging after,
    (orderly (pagesFrom 0x5000)).Reachable ⟨paging, []⟩ ∧
      WriteFault (currentOf paging) 0x8123 ∧
      pageFaultHandler (pagesFrom 0x5000) 8 5 (currentOf paging) 0x8123 = .ok after ∧
      Progress (currentOf paging) after 0x8123 := by
  have hcalls : ∃ allocated lent dropped after context leaf,
      addAlloc (pagesFrom 0x5000) (newContext emptyState).2 kernelContext
        ⟨true, false, false, false⟩ 0 4096 = .ok (0, allocated) ∧
      allocated.contexts 1 = some ⟨Valloc.initial, fun _ => none, []⟩ ∧
      addBorrowed allocated 1 ⟨true, false, false, false⟩ 0 0x8000 = .ok (1, lent) ∧
      (Op.addBorrowed 1 ⟨true, false, false, false⟩ 0 0x8000).request allocated =
        some (1, 0x8000, 1) ∧
      unmap lent 0 = .ok dropped ∧ dropped.contexts 1 = some context ∧
      context.table (0x8123 / pageSize) = some leaf ∧ leaf.flags.readWrite = false ∧
      getVaddr dropped 1 0x8123 = .ok (some 1) ∧
      dropped.mappings 1 = some ⟨1, ⟨true, false, false, false⟩, 0x8000, 1, .borrowed 0⟩ ∧
      pageFaultHandler (pagesFrom 0x5000) 8 5 (currentOf dropped) 0x8123 = .ok after :=
    ⟨_, _, _, _, _, _, rfl, rfl, rfl, rfl, rfl, rfl, rfl, rfl, rfl, rfl, rfl⟩
  obtain ⟨allocated, lent, dropped, after, context, leaf, halloc, hcontext, hlent, hrequest,
    hdropped, hdroppedContext, hleaf, hreadOnly, hinside, hmapping, hreturn⟩ := hcalls
  have hloan := orderly_loan halloc hcontext (.addBorrowed hlent) hrequest nofun
  have hunmap : Step (pagesFrom 0x5000) ⟨lent, [0]⟩ (.unmap 0) ⟨dropped, []⟩ :=
    .unmapRoot List.mem_cons_self hdropped
  have hreach : (orderly (pagesFrom 0x5000)).Reachable ⟨dropped, []⟩ :=
    hloan.step ⟨⟨by simp [Op.request], by simp⟩, hunmap⟩
  have hfault : WriteFault (currentOf dropped) 0x8123 := by
    refine ⟨⟨context, hdroppedContext, by rw [hleaf]; rfl⟩, ?_⟩
    rintro ⟨other, found, hother, hfound, hwrite, _⟩
    cases hdroppedContext.symm.trans hother
    cases hleaf.symm.trans hfound
    rw [hreadOnly] at hwrite
    exact Bool.false_ne_true hwrite
  exact ⟨dropped, after, hreach, hfault, hreturn,
    (writeFault_progress (pagesFrom_exact _) hreach Nat.one_ne_zero rfl hfault hinside hmapping
      hreturn).mpr rfl⟩

/-- A store to a page of program text: the process is neither told nor stopped, and the page
is as unwritable as before. -/
theorem writeFault_without_effect : ∃ paging after,
    (orderly (pagesFrom 0x5000)).Reachable ⟨paging, [0]⟩ ∧
      WriteFault (currentOf paging) 0x8123 ∧
      getVaddr paging 1 0x8123 = .ok (some 1) ∧
      paging.mappings 1 = some ⟨1, ⟨false, true, false, false⟩, 0x8000, 1, .shared 0⟩ ∧
      pageFaultHandler (pagesFrom 0x5000) 8 5 (currentOf paging) 0x8123 = .ok after ∧
      ¬Progress (currentOf paging) after 0x8123 := by
  have hcalls : ∃ allocated lent context leaf,
      addAlloc (pagesFrom 0x5000) (newContext emptyState).2 kernelContext
        ⟨true, false, false, false⟩ 0 4096 = .ok (0, allocated) ∧
      allocated.contexts 1 = some ⟨Valloc.initial, fun _ => none, []⟩ ∧
      addShared allocated 1 ⟨false, true, false, false⟩ 0 0x8000 = .ok (1, lent) ∧
      (Op.addShared 1 ⟨false, true, false, false⟩ 0 0x8000).request allocated =
        some (1, 0x8000, 1) ∧
      lent.contexts 1 = some context ∧ context.table (0x8123 / pageSize) = some leaf ∧
      leaf.flags.readWrite = false ∧ getVaddr lent 1 0x8123 = .ok (some 1) ∧
      lent.mappings 1 = some ⟨1, ⟨false, true, false, false⟩, 0x8000, 1, .shared 0⟩ ∧
      pageFaultHandler (pagesFrom 0x5000) 8 5 (currentOf lent) 0x8123 = .ok (currentOf lent) :=
    ⟨_, _, _, _, rfl, rfl, rfl, rfl, rfl, rfl, rfl, rfl, rfl, rfl⟩
  obtain ⟨allocated, lent, context, leaf, halloc, hcontext, hlent, hrequest, hlentContext, hleaf,
    hreadOnly, hinside, hmapping, hreturn⟩ := hcalls
  have hreach := orderly_loan halloc hcontext (.addShared hlent) hrequest nofun
  have hstuck : ¬Writable (currentOf lent) 0x8123 := by
    rintro ⟨other, found, hother, hfound, hwrite, _⟩
    cases hlentContext.symm.trans hother
    cases hleaf.symm.trans hfound
    rw [hreadOnly] at hwrite
    exact Bool.false_ne_true hwrite
  refine ⟨lent, currentOf lent, hreach, ⟨⟨context, hlentContext, by rw [hleaf]; rfl⟩, hstuck⟩,
    hinside, hmapping, hreturn, ?_⟩
  rintro (hwritable | hkilled | ⟨sig, hsignal⟩)
  · exact hstuck hwritable
  · exact absurd hkilled Bool.false_ne_true
  · exact absurd (congrArg List.length hsignal) (by simp)

end PKernel.Pman
