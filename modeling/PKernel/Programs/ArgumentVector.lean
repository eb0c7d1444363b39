import PKernel.Programs.ArgumentStrings

/-! # The argument vector of a program

`process_push_args`. The strings go into a buffer of the kernel and their addresses into an alias
of it that the process has; the vector goes onto the stack through a third alias. What a program
reads at its stack pointer are the number of its arguments and the addresses of its strings.
-/

namespace PKernel.Programs

open Pman
open Library.Transition
open Library.ByteMemory
open Vfs (Path)
open Function (update update_of_ne update_self)

/-! ## The stack -/

section Push

variable {state : Pman.State} {context argc base : Nat} {tsr : Tsr.TaskStateRecord}
  {argv : List Nat} {place : Nat → Nat}

/-- With room below the stack pointer, the vector is there afterwards, its length in front. -/
theorem pushMainArgs_spec (hreached : Reached state base (8 * (argc + 1)) place)
    (hkernRsp : kernelPointer state context tsr.rsp = .ok (base + 8 * (argc + 1)))
    (hbound : base + 8 * (argc + 1) ≤ 2 ^ 48) (hlength : argv.length = argc)
    (hwords : ∀ word ∈ argv, word < 2 ^ 64) :
    ∃ memory, pushMainArgs context state tsr argc argv =
        .ok ({ tsr with rsp := u64 (tsr.rsp + 2 ^ 64 - u64 (8 * (1 + argc))) },
          { state with memory }) ∧
      wordsAt (memory ∘ place) 0 (argc + 1) = argc :: argv ∧
      ∀ paddr, (∀ i < 8 * (argc + 1), place i ≠ paddr) → memory paddr = state.memory paddr := by
  have hvector : u64 (base + 8 * (argc + 1) + 2 ^ 64 - u64 (8 * argc)) = base + 8 := by
    unfold u64
    omega
  have hcount : u64 (base + 8 + 2 ^ 64 - 8) = base := by
    unfold u64
    omega
  obtain ⟨between, hpointers, hpointersRead, hpointersKept⟩ :=
    hreached.storeWords 8 hwords (by omega)
  have hword : ∀ word ∈ [argc], word < 2 ^ 64 := by
    intro word hword
    rw [List.mem_singleton.mp hword]
    omega
  obtain ⟨memory, hargc, hargcRead, hargcKept⟩ :=
    (hreached.congr between).storeWords 0 hword (by simp)
  rw [Nat.add_zero, storeWords_singleton] at hargc
  have hplace : ∀ i < 8 * (argc + 1), ∀ paddr, place i ≠ paddr →
      kernelAddress state (base + i) ≠ .ok paddr := by
    intro i hi paddr hne hsame
    exact hne (Except.ok.inj ((hreached.address i hi).symm.trans hsame))
  refine ⟨memory, ?_, ?_, ?_⟩
  · rw [pushMainArgs, hkernRsp, ok_bind]
    dsimp only
    rw [hvector, storePointers_eq (by omega), ← hlength, List.take_length, hpointers, ok_bind,
      hcount, hlength, hargc]
    rfl
  · have hrest : wordsAt (memory ∘ place) 8 argv.length =
        wordsAt (between ∘ place) 8 argv.length := by
      apply wordsAt_congr
      intro j hlow hhigh
      exact hargcKept j (by omega) (.inr (by simpa using hlow))
    have hhead : loadLE (memory ∘ place) 0 8 = argc := by
      simpa [wordsAt] using hargcRead
    rw [wordsAt, hhead, Nat.zero_add, ← hlength, hrest, hpointersRead]
  · intro paddr hout
    have hlast := storeWords_outside ((storeWords_singleton _ _ _).trans hargc) fun i hi =>
      hplace i (by simp at hi; omega) paddr (hout i (by simp at hi; omega))
    have hfirst := storeWords_outside hpointers fun i hi => by
      rw [Nat.add_assoc]
      exact hplace (8 + i) (by omega) paddr (hout (8 + i) (by omega))
    exact hlast.trans hfirst

end Push

/-! ## The buffer -/

/-- None of the pages that would be handed out is mapped by the kernel. -/
def Unused (palloc : Pman.State → Nat → Option (List Nat)) (state : Pman.State) : Prop :=
  ∀ count paddrs, palloc state count = some paddrs → ∀ paddr ∈ paddrs, ∀ kernel page leaf,
    state.contexts kernelContext = some kernel → kernel.table page = some leaf →
    PagesApart paddr leaf.paddr

/-- The state with a new root of the kernel and its loan to a process. -/
structure Buffer (palloc : Pman.State → Nat → Option (List Nat)) (state shared : Pman.State)
    (created : List Nat) (context kern user size : Nat) (root loan : Mapping) : Prop where
  tidy : KernelTidy ⟨shared, kern :: created⟩
  rootLive : shared.mappings kern = some root
  isRoot : root.kind.isRoot = true
  twice : 2 ≤ root.kind.references
  spread : Spread palloc → root.Spread
  size : size ≤ root.sizePages * pageSize
  loanLive : shared.mappings user = some loan
  home : loan.context = context
  lender : loan.kind.lender? = some kern
  freshRoot : state.mappings kern = none
  freshLoan : state.mappings user = none
  kept : ∀ id mapping, state.mappings id = some mapping → shared.mappings id = some mapping
  memory : shared.memory = state.memory
  /-- What the kernel had mapped it has mapped still, and to other frames than the new root's. -/
  table : Unused palloc state → ∀ kernel, state.contexts kernelContext = some kernel →
    ∃ after, shared.contexts kernelContext = some after ∧
      ∀ page leaf, kernel.table page = some leaf → after.table page = some leaf ∧
        ∀ i frame, root.frame? i = some frame → PagesApart frame leaf.paddr

section Buffers

variable {palloc : Pman.State → Nat → Option (List Nat)} {state allocated shared : Pman.State}
  {created : List Nat} {context kern user size : Nat} {given : Protection} {root loan : Mapping}

/-- The root that `pman_context_add_alloc` makes in the kernel's context. -/
theorem addAlloc_root
    (halloc : addAlloc palloc state kernelContext given 0 size = .ok (kern, allocated)) :
    ∃ kernel root paddrs target, state.contexts kernelContext = some kernel ∧
      palloc state (divUp size pageSize) = some paddrs ∧ kern = state.nextMapping ∧
      root.kind = .alloc 1 paddrs ∧ root.sizePages = divUp size pageSize ∧
      0 < divUp size pageSize ∧
      allocated.mappings = update state.mappings kern (some root) ∧
      allocated.contexts = update state.contexts kernelContext (some target) ∧
      (∀ page leaf, kernel.table page = some leaf → target.table page = some leaf) ∧
      allocated.memory = state.memory := by
  obtain ⟨kernel, place, paddrs, hkernel, _, hpositive, hpaddrs, rfl, rfl⟩ :=
    addAlloc_eq_ok halloc
  refine ⟨kernel, _, paddrs, _, hkernel, hpaddrs, rfl, rfl, rfl, Nat.pos_of_ne_zero hpositive,
    rfl, rfl, ?_, rfl⟩
  intro page leaf hleaf
  dsimp only [placed]
  exact (withRoot_of_isSome (by rw [hleaf]; rfl)).trans hleaf

theorem buffer_of_calls (hpalloc : Exact palloc) (htidy : KernelTidy ⟨state, created⟩)
    (huser : context ≠ kernelContext) (hsize : size < 2 ^ 64)
    (halloc : addAlloc palloc state kernelContext given 0 size = .ok (kern, allocated))
    (hshare : addShared allocated context given kern 0 = .ok (user, shared)) :
    ∃ root loan, Buffer palloc state shared created context kern user size root loan := by
  have hfirst : KernelTidy ⟨allocated, kern :: created⟩ := by
    have hstep : KernelStep palloc ⟨state, created⟩
        (some (.addAlloc kernelContext given 0 size)) ⟨allocated, kern :: created⟩ :=
      .call rfl ⟨⟨by simp [Op.request], by simp⟩, .addAlloc hsize halloc⟩
    exact htidy.step hpalloc hstep
  have hsecond : KernelTidy ⟨shared, kern :: created⟩ := by
    have hstep : KernelStep palloc ⟨allocated, kern :: created⟩
        (some (.addShared context given kern 0)) ⟨shared, kern :: created⟩ :=
      .call trivial ⟨⟨by simp [Op.request], by simp⟩, .addShared hshare⟩
    exact hfirst.step hpalloc hstep
  have hcounted := htidy.sound.counted
  have hallocated := hfirst.sound.counted
  have hsharedMemory : shared.memory = allocated.memory := by
    obtain ⟨_, _, _, _, _, _, _, _, _, _, _, _, hnext⟩ := addLoan_eq_ok hshare
    rw [hnext]
    rfl
  obtain ⟨kernel, made, paddrs, target, hkernel, hpaddrs, hkern, hkind, hpages, hpositive,
    hmappings, hcontexts, htable, hmemory⟩ := addAlloc_root halloc
  have hmade : allocated.mappings kern = some made := by rw [hmappings, update_self]
  have hisRoot : made.kind.isRoot = true := by rw [hkind]; rfl
  obtain ⟨rootId, root, after, loan, hrootId, huserId, hroot, hhome, hlent, hmappings',
    hcontexts'⟩ := addLoan_frame hshare
  cases (State.root_of_isRoot hmade hisRoot).symm.trans hrootId
  obtain rfl : made = root := Option.some.inj (hmade.symm.trans hroot)
  have hne : kern ≠ user := huserId ▸ Nat.ne_of_lt (hallocated.id_lt hmade)
  have hspreadMade : Spread palloc → made.Spread := by
    intro hspread
    obtain ⟨home, protection, vaddr, sizePages, kind⟩ := made
    obtain rfl : kind = .alloc 1 paddrs := hkind
    exact .alloc (hspread _ _ _ hpaddrs)
  have hraised : (made.withReferences (made.kind.references + 1)).kind = .alloc 2 paddrs := by
    rw [Mapping.withReferences, hkind]
    rfl
  have hkernelAfter : shared.contexts kernelContext = some target := by
    rw [hcontexts', update_of_ne huser.symm, hcontexts, update_self]
  refine ⟨made.withReferences (made.kind.references + 1), loan, ?_⟩
  constructor
  case tidy => exact hsecond
  case rootLive => rw [hmappings', update_of_ne hne, update_self]
  case isRoot => rw [hraised]; rfl
  case twice => rw [hraised]; exact Nat.le_refl _
  case spread => exact fun hspread => (hspreadMade hspread).withReferences _
  case size => exact (size_le_pages hsize hpositive).trans_eq (by rw [← hpages]; rfl)
  case loanLive => rw [hmappings', update_self]
  case home => exact hhome
  case lender => rw [hlent]; rfl
  case freshRoot => exact hkern ▸ hcounted.fresh _ (Nat.le_refl _)
  case freshLoan =>
    have hfresh := hallocated.fresh user (Nat.le_of_eq huserId.symm)
    rw [hmappings, update_of_ne hne.symm] at hfresh
    exact hfresh
  case kept =>
    intro id mapping hmapping
    have hnew : id ≠ kern := hkern ▸ Nat.ne_of_lt (hcounted.id_lt hmapping)
    have hbefore : allocated.mappings id = some mapping := by
      rw [hmappings, update_of_ne hnew]
      exact hmapping
    have hnewLoan : id ≠ user := huserId ▸ Nat.ne_of_lt (hallocated.id_lt hbefore)
    rw [hmappings', update_of_ne hnewLoan, update_of_ne hnew]
    exact hbefore
  case memory => exact hsharedMemory.trans hmemory
  case table =>
    intro hunused kernel' hkernel'
    obtain rfl : kernel = kernel' := Option.some.inj (hkernel.symm.trans hkernel')
    refine ⟨target, hkernelAfter, fun page leaf hleaf => ⟨htable page leaf hleaf, ?_⟩⟩
    intro i frame hframe
    have hmember : frame ∈ paddrs := by
      rw [Mapping.frame?, hraised] at hframe
      exact List.mem_of_getElem? hframe
    exact hunused _ paddrs hpaddrs frame hmember kernel page leaf hkernel hleaf

end Buffers

/-! ## The strings in the buffer -/

section Strings

variable {palloc : Pman.State → Nat → Option (List Nat)} {state shared : Pman.State}
  {created held : List Nat} {context kern user size arg : Nat} {argv : List Nat} {string : Path}
  {strings : List Path} {root loan : Mapping} {target : Context}

/-- A string that the kernel can read ends where its memory does. -/
theorem stringAt_bounded (hsound : Sound held state) (harg : arg < 2 ^ 64)
    (hstring : stringAt state arg = .ok string) : arg + (stored string).length ≤ 2 ^ 48 := by
  have hread : ∀ j < (stored string).length, u64 (arg + j) < 2 ^ 48 := by
    intro j hj
    have hload := readString_loads hstring (List.getElem?_eq_getElem hj)
    obtain ⟨paddr, haddress, _⟩ := bind_eq_ok.mp hload
    exact hsound.kernelAddress_lt haddress
  rw [stored_length] at *
  by_contra hlong
  have hfirst := hread 0 (Nat.succ_pos _)
  have hbeyond := hread (2 ^ 48 - arg)
  unfold u64 at hfirst hbeyond
  omega

/-- The addresses of some strings in the memory of the kernel. -/
def StringsAt (state : Pman.State) (argv : List Nat) (strings : List Path) : Prop :=
  List.Forall₂ (fun arg string => arg < 2 ^ 64 ∧ stringAt state arg = .ok string) argv strings

theorem packed_length_le (hsound : Sound held state) (hstrings : StringsAt state argv strings) :
    (packed strings).length ≤ strings.length * 2 ^ 48 := by
  unfold StringsAt at hstrings
  induction hstrings with
  | nil => exact Nat.zero_le _
  | cons hfirst _ ih =>
      have hbounded := stringAt_bounded hsound hfirst.1 hfirst.2
      rw [packed_cons, List.length_append, List.length_cons]
      omega

theorem requiredSize_eq (hstrings : StringsAt state argv strings)
    (hbound : (packed strings).length < 2 ^ 64) :
    requiredSize state argv = .ok (packed strings).length := by
  unfold StringsAt at hstrings
  induction hstrings with
  | nil => rfl
  | cons hfirst _ ih =>
      rw [packed_cons, List.length_append, stored_length] at hbound ⊢
      rw [requiredSize, hfirst.2, ok_bind, ih (by omega), ok_bind, pure_eq_ok]
      exact congrArg Except.ok (Nat.mod_eq_of_lt hbound)

/-- A string that the kernel has mapped is not in the buffer. -/
theorem Buffer.source
    (hbuffer : Buffer palloc state shared created context kern user size root loan)
    (hunused : Unused palloc state) (hsound : Sound held state) (htarget : shared.contexts kernelContext = some target)
    (harg : arg < 2 ^ 64) (hstring : stringAt state arg = .ok string) :
    Source target.table shared.memory size root.place arg string := by
  have hbounded := stringAt_bounded hsound harg hstring
  refine ⟨hbounded, fun j byte hbyte => ?_⟩
  obtain ⟨paddr, haddress, hbyteAt⟩ := bind_eq_ok.mp (readString_loads hstring hbyte)
  obtain ⟨kernel, hkernel, htranslate⟩ := bind_eq_ok.mp haddress
  have hkernel := State.context_eq_ok.mp hkernel
  have hj := (List.getElem?_eq_some_iff.mp hbyte).1
  have hword : u64 (arg + j) = arg + j := by
    unfold u64
    omega
  rw [hword, Pman.translate] at htranslate
  obtain ⟨after, hafter, hkept⟩ := hbuffer.table hunused kernel hkernel
  obtain rfl : after = target := Option.some.inj (hafter.symm.trans htarget)
  cases hleaf : kernel.table ((arg + j) / pageSize) with
  | none => simp [hleaf] at htranslate
  | some leaf =>
      rw [hleaf] at htranslate
      obtain rfl : leaf.paddr + (arg + j) % pageSize = paddr := Except.ok.inj htranslate
      obtain ⟨hleafAfter, hapart⟩ := hkept _ leaf hleaf
      refine ⟨_, by rw [Pman.translate, hleafAfter, Option.map_some], ?_, ?_⟩
      · rw [hbuffer.memory]
        exact Except.ok.inj hbyteAt
      · intro i hi hsame
        obtain ⟨frame, hframe, hplace⟩ := hbuffer.tidy.sound.frame_place hbuffer.rootLive
          hbuffer.isRoot (Nat.lt_of_lt_of_le hi hbuffer.size)
        have hframes := hapart _ frame hframe
        rw [hplace] at hsame
        unfold PagesApart pageSize at *
        omega

end Strings

/-- The state with the strings in a new mapping of the process. -/
structure Copied (state next : Pman.State) (created : List Nat) (context : Nat)
    (strings : List Path) (user : Nat) (root loan : Mapping) : Prop where
  tidy : KernelTidy ⟨next, created⟩
  fresh : state.mappings user = none
  live : next.mappings user = some loan
  home : loan.context = context
  rootLive : ∃ kern, next.root user = .ok kern ∧ next.mappings kern = some root ∧
    root.kind.isRoot = true
  size : (packed strings).length ≤ loan.sizePages * pageSize
  bytes : ∀ k byte, (packed strings)[k]? = some byte → next.memory (root.place k) = byte
  kept : ∀ id mapping, state.mappings id = some mapping → next.mappings id = some mapping
  /-- The strings are in other frames than those the kernel had mapped. -/
  apart : ∀ kernel, state.contexts kernelContext = some kernel → ∀ page leaf,
    kernel.table page = some leaf → ∀ i frame, root.frame? i = some frame →
      PagesApart frame leaf.paddr

section Copies

variable {palloc : Pman.State → Nat → Option (List Nat)} {state allocated shared : Pman.State}
  {created : List Nat} {context kern user size : Nat} {argv : List Nat}
  {strings : List Path} {root loan : Mapping}

/-- The kernel lets go of a buffer that it shares. -/
theorem Buffer.unmap (hpalloc : Exact palloc)
    (hbuffer : Buffer palloc state shared created context kern user size root loan)
    (memory : Nat → UInt8) :
    ∃ next, Pman.unmap { shared with memory } kern = .ok next ∧ KernelTidy ⟨next, created⟩ ∧
      next.memory = memory ∧
      next.mappings = update shared.mappings kern
        (some (root.withReferences (root.kind.references - 1))) := by
  have hstored : KernelTidy ⟨{ shared with memory }, kern :: created⟩ := by
    have hstep : KernelStep palloc ⟨shared, kern :: created⟩ none
        ⟨{ shared with memory }, kern :: created⟩ := .store memory
    exact hbuffer.tidy.step hpalloc hstep
  obtain ⟨found, hfound, hunmap⟩ := hstored.sound.counted.unmap_root List.mem_cons_self
  obtain rfl : root = found := Option.some.inj (hbuffer.rootLive.symm.trans hfound)
  have hothers : root.kind.references - 1 ≠ 0 := by
    have := hbuffer.twice
    omega
  have hdropped : ({ shared with memory } : Pman.State).drop kern root =
      ({ shared with memory } : Pman.State).setMapping kern
        (root.withReferences (root.kind.references - 1)) := if_neg hothers
  refine ⟨_, hunmap, ?_, ?_, ?_⟩
  · have hstep : Pman.Step palloc ⟨{ shared with memory }, kern :: created⟩ (.unmap kern)
        ⟨_, (kern :: created).erase kern⟩ := .unmapRoot List.mem_cons_self hunmap
    rw [List.erase_cons_head] at hstep
    have hcall : KernelStep palloc _ (some (.unmap kern)) _ :=
      .call trivial ⟨⟨by simp [Op.request], by simp⟩, hstep⟩
    exact hstored.step hpalloc hcall
  · rw [hdropped]
    rfl
  · rw [hdropped]
    rfl

/-- The strings go into a buffer that is large enough. -/
theorem Buffer.copy (hpalloc : Exact palloc) (hspread : Spread palloc)
    (hunused : Unused palloc state)
    (hbuffer : Buffer palloc state shared created context kern user (packed strings).length root
      loan)
    {held : List Nat} (hsound : Sound held state) (hstrings : StringsAt state argv strings) :
    ∃ stored next root', copyStrings root.vaddr loan.vaddr 0 shared argv =
        .ok (offsets loan.vaddr strings, stored) ∧
      Pman.unmap stored kern = .ok next ∧
      Copied state next created context strings user root' loan := by
  have hshared : Sound (kern :: created) shared := hbuffer.tidy.sound
  obtain ⟨target, htarget⟩ := Option.isSome_iff_exists.mp hshared.rooted.kernel
  have hhome := hshared.rooted.kernelRoots kern root hbuffer.rootLive hbuffer.isRoot
  have hrootId := State.root_of_isRoot hbuffer.rootLive hbuffer.isRoot
  have hsources : List.Forall₂
      (Source target.table shared.memory (packed strings).length root.place) argv strings :=
    hstrings.imp fun arg string hstring =>
      hbuffer.source hunused hsound htarget hstring.1 hstring.2
  obtain ⟨memory, hcopy, hbytes, _⟩ := @copyStrings_spec _ _ _ _ root.vaddr loan.vaddr 0 _ _
    htarget
    (fun i hi => hshared.translate_mapping hbuffer.rootLive (hhome ▸ htarget) hrootId
      hbuffer.rootLive (Nat.lt_of_lt_of_le hi hbuffer.size))
    (fun i hi j hj hsame => hshared.place_injective (hbuffer.spread hspread) hbuffer.rootLive hbuffer.isRoot
      (Nat.lt_of_lt_of_le hi hbuffer.size) (Nat.lt_of_lt_of_le hj hbuffer.size) hsame)
    hsources (by omega)
  obtain ⟨next, hunmap, htidy, hmemory, hmappings⟩ := hbuffer.unmap hpalloc memory
  have hne : user ≠ kern := by
    rintro rfl
    obtain rfl : root = loan := Option.some.inj (hbuffer.rootLive.symm.trans hbuffer.loanLive)
    exact absurd hbuffer.isRoot (by simp [Kind.isRoot_eq_false hbuffer.lender])
  have hlive : next.mappings user = some loan := by
    rw [hmappings, update_of_ne hne]
    exact hbuffer.loanLive
  have hrootLive : next.mappings kern =
      some (root.withReferences (root.kind.references - 1)) := by
    rw [hmappings, update_self]
  have hisRoot : (root.withReferences (root.kind.references - 1)).kind.isRoot = true := by
    simpa [Mapping.withReferences] using hbuffer.isRoot
  have hpositive : 0 < next.nextMapping := Nat.zero_lt_of_lt (htidy.sound.counted.id_lt hlive)
  have hplace : (root.withReferences (root.kind.references - 1)).place = root.place := by
    funext offset
    rw [Mapping.place, Mapping.withReferences_frame?, Mapping.place]
  obtain ⟨windows, hlaid⟩ := hshared.laidOut
  have hsize := hlaid.loanSize user loan kern root hbuffer.loanLive hbuffer.lender hbuffer.rootLive
  refine ⟨{ shared with memory }, next, root.withReferences (root.kind.references - 1), hcopy,
    hunmap, ?_⟩
  constructor
  case tidy => exact htidy
  case fresh => exact hbuffer.freshLoan
  case live => exact hlive
  case home => exact hbuffer.home
  case rootLive =>
    exact ⟨kern, State.root_of_lender hpositive hlive hbuffer.lender hrootLive hisRoot, hrootLive,
      hisRoot⟩
  case size => exact hsize ▸ hbuffer.size
  case bytes =>
    intro k byte hbyte
    rw [hmemory, hplace, ← hbytes k byte hbyte, Nat.zero_add]
  case kept =>
    intro id mapping hmapping
    have hnew : id ≠ kern := by
      rintro rfl
      simp [hbuffer.freshRoot] at hmapping
    rw [hmappings, update_of_ne hnew]
    exact hbuffer.kept id mapping hmapping
  case apart =>
    intro kernel hkernel page leaf hleaf i frame hframe
    obtain ⟨_, _, hframes⟩ := hbuffer.table hunused kernel hkernel
    rw [Mapping.withReferences_frame?] at hframe
    exact (hframes page leaf hleaf).2 i frame hframe

end Copies

/-! ## The vector on the stack -/

/-- `DEFAULT_THREAD_STACK_SIZE`, which the stack of every thread has. -/
def defaultThreadStackSize : Nat := 0x2000

/-- The stack pointer is in the stack, with room for the vector and its length below. -/
structure StackFits (state : Pman.State) (process : Process) (argc : Nat) (stack : Mapping) :
    Prop where
  live : state.mappings process.stackMapping = some stack
  home : stack.context = process.pagingContext
  size : stack.sizePages * pageSize ≤ defaultThreadStackSize
  room : stack.vaddr + 8 * (argc + 1) ≤ process.tsr.rsp
  inside : process.tsr.rsp < stack.vaddr + stack.sizePages * pageSize

/-- There are pages and addresses for the strings. -/
structure HasMemory (palloc : Pman.State → Nat → Option (List Nat)) (state : Pman.State)
    (context size : Nat) : Prop where
  kernel : Supplied palloc state (divUp size pageSize)
  user : ∀ target, state.contexts context = some target →
    Room target.regions (divUp size pageSize)

/-- What a program is to find after `process_push_args`. -/
structure Passed (state : Pman.State) (process process' : Process) (strings : List Path)
    (next : Pman.State) : Prop where
  argc : process'.argc = strings.length
  length : process'.argv.length = strings.length
  /-- Each pointer is the address of a copy of its string in one new mapping of the process. -/
  copies : ∃ id mapping, state.mappings id = none ∧ next.mappings id = some mapping ∧
    mapping.context = process.pagingContext ∧
    ∀ (i pointer : Nat) (string : Path), process'.argv[i]? = some pointer → strings[i]? = some string →
      mapping.vaddr ≤ pointer ∧
      pointer + (stored string).length ≤ mapping.vaddr + mapping.sizePages * pageSize ∧
      ∀ j byte, (stored string)[j]? = some byte →
        loadUser next process.pagingContext (pointer + j) = some byte
  disjoint : (process'.argv.zip strings).Pairwise fun first second =>
    first.1 + (stored first.2).length ≤ second.1
  rsp : process'.tsr.rsp + 8 * (strings.length + 1) = process.tsr.rsp
  vector : loadUserWords next process.pagingContext process'.tsr.rsp (strings.length + 1) =
    some (strings.length :: process'.argv)

section Calls

variable {palloc : Pman.State → Nat → Option (List Nat)} {state next : Pman.State}
  {created : List Nat} {context user : Nat} {argv pointers : List Nat} {strings : List Path}
  {root loan stack : Mapping} {process process' : Process}

/-- The sum is a word. -/
theorem requiredSize_lt {size : Nat} (hsize : requiredSize state argv = .ok size) :
    size < 2 ^ 64 := by
  cases argv with
  | nil =>
      cases hsize
      exact Nat.two_pow_pos 64
  | cons arg argv =>
      obtain ⟨_, _, hsize⟩ := bind_eq_ok.mp hsize
      obtain ⟨_, _, hsize⟩ := bind_eq_ok.mp hsize
      cases hsize
      exact u64_lt _

/-- Arguments leave the mappings there are. -/
theorem argumentPointers_keeps (hpalloc : Exact palloc) (htidy : KernelTidy ⟨state, created⟩)
    (huser : context ≠ kernelContext)
    (hcall : argumentPointers palloc context state argv = .ok (pointers, next)) :
    Sound created next ∧
      ∀ id mapping, state.mappings id = some mapping → next.mappings id = some mapping := by
  unfold argumentPointers at hcall
  by_cases hempty : argv = []
  · rw [if_pos hempty] at hcall
    obtain ⟨_, rfl⟩ := Prod.mk.inj (Except.ok.inj hcall)
    exact ⟨htidy.sound, fun _ _ h => h⟩
  rw [if_neg hempty] at hcall
  obtain ⟨size, hsize, hcall⟩ := bind_eq_ok.mp hcall
  obtain ⟨⟨kern, allocated⟩, halloc, hcall⟩ := bind_eq_ok.mp hcall
  obtain ⟨⟨user, shared⟩, hshare, hcall⟩ := bind_eq_ok.mp hcall
  obtain ⟨_, _, hcall⟩ := bind_eq_ok.mp hcall
  obtain ⟨_, _, hcall⟩ := bind_eq_ok.mp hcall
  obtain ⟨⟨_, copied⟩, hcopy, hcall⟩ := bind_eq_ok.mp hcall
  obtain ⟨last, hunmap, hcall⟩ := bind_eq_ok.mp hcall
  obtain ⟨_, rfl⟩ := Prod.mk.inj (Except.ok.inj hcall)
  obtain ⟨memory, rfl⟩ := copyStrings_frame hcopy
  obtain ⟨root, loan, hbuffer⟩ :=
    buffer_of_calls hpalloc htidy huser (requiredSize_lt hsize) halloc hshare
  obtain ⟨next, hunmap', hnext, _, hmappings⟩ := hbuffer.unmap hpalloc memory
  obtain rfl : next = last := Except.ok.inj (hunmap'.symm.trans hunmap)
  refine ⟨hnext.sound, fun id mapping hmapping => ?_⟩
  have hnew : id ≠ kern := by
    rintro rfl
    simp [hbuffer.freshRoot] at hmapping
  rw [hmappings, update_of_ne hnew]
  exact hbuffer.kept id mapping hmapping

theorem newArguments_copied (hpalloc : Exact palloc) (hspread : Spread palloc)
    (htidy : KernelTidy ⟨state, created⟩) (hunused : Unused palloc state)
    (huser : context ≠ kernelContext) (hstrings : StringsAt state argv strings)
    (hbound : (packed strings).length < 2 ^ 64)
    (hcall : newArguments palloc context state argv = .ok (pointers, next)) :
    ∃ user root loan, pointers = offsets loan.vaddr strings ∧
      Copied state next created context strings user root loan := by
  unfold newArguments at hcall
  rw [requiredSize_eq hstrings hbound, ok_bind] at hcall
  obtain ⟨⟨kern, allocated⟩, halloc, hcall⟩ := bind_eq_ok.mp hcall
  obtain ⟨⟨user, shared⟩, hshare, hcall⟩ := bind_eq_ok.mp hcall
  obtain ⟨root, loan, hbuffer⟩ :=
    buffer_of_calls hpalloc htidy huser hbound halloc hshare
  obtain ⟨stored, last, root', hcopy, hunmap, hcopied⟩ := 
    hbuffer.copy hpalloc hspread hunused htidy.sound hstrings
  simp only [State.mapping_eq_ok.mpr hbuffer.rootLive, State.mapping_eq_ok.mpr hbuffer.loanLive,
    ok_bind, hcopy, hunmap, pure_eq_ok, Except.ok.injEq, Prod.mk.injEq] at hcall
  obtain ⟨rfl, rfl⟩ := hcall
  exact ⟨user, root', loan, rfl, hcopied⟩

theorem newArguments_returns (hpalloc : Exact palloc) (hspread : Spread palloc)
    (htidy : KernelTidy ⟨state, created⟩) (hunused : Unused palloc state)
    (huser : context ≠ kernelContext) (hlive : (state.contexts context).isSome)
    (hstrings : StringsAt state argv strings) (hbound : (packed strings).length < 2 ^ 64)
    (hmemory : HasMemory palloc state context (packed strings).length) :
    ∃ result, newArguments palloc context state argv = .ok result := by
  obtain ⟨kern, allocated, halloc, hallocated, hnew⟩ :=
    htidy.sound.addAlloc hpalloc hbound hmemory.kernel ⟨false, false, false, false⟩
  obtain ⟨made, hmade, _, hpages⟩ := hnew.root
  obtain ⟨target, htarget⟩ := Option.isSome_iff_exists.mp hlive
  have hfits : Fits target.regions 0 made.sizePages :=
    .inl ⟨rfl, hpages ▸ hmemory.user target htarget⟩
  obtain ⟨user, shared, _, hshare, _⟩ := hallocated.lend hmade
    ((hnew.contexts context huser).trans htarget) hfits ⟨false, false, false, false⟩
  obtain ⟨root, loan, hbuffer⟩ :=
    buffer_of_calls hpalloc htidy huser hbound halloc hshare
  obtain ⟨stored, last, _, hcopy, hunmap, _⟩ := 
    hbuffer.copy hpalloc hspread hunused htidy.sound hstrings
  refine ⟨(offsets loan.vaddr strings, last), ?_⟩
  unfold newArguments
  rw [requiredSize_eq hstrings hbound, ok_bind]
  simp only [halloc, hshare, State.mapping_eq_ok.mpr hbuffer.rootLive,
    State.mapping_eq_ok.mpr hbuffer.loanLive, ok_bind, hcopy, hunmap, pure_eq_ok]

/-- A mapping of a process that is kept has the root that it had. -/
theorem root_kept {held still : List Nat} (hsound : Sound held state) (hnext : Sound still next)
    (hkept : ∀ id mapping, state.mappings id = some mapping → next.mappings id = some mapping)
    {id : Nat} (hlive : state.mappings id = some stack) (huser : stack.context ≠ kernelContext) :
    ∃ lender base, state.root id = .ok lender ∧ next.root id = .ok lender ∧
      state.mappings lender = some base ∧ next.mappings lender = some base ∧
      base.kind.isRoot = true ∧ base.sizePages = stack.sizePages := by
  obtain ⟨lender, hlender⟩ := hsound.loans_of_user huser hlive
  obtain ⟨base, hbase, hisRoot⟩ := hsound.counted.lender id stack lender hlive hlender
  obtain ⟨windows, hlaid⟩ := hsound.laidOut
  have hstill := hkept id stack hlive
  have hbefore := Nat.zero_lt_of_lt (hsound.counted.id_lt hlive)
  have hafter := Nat.zero_lt_of_lt (hnext.counted.id_lt hstill)
  have hbaseStill := hkept lender base hbase
  exact ⟨lender, base, State.root_of_lender hbefore hlive hlender hbase hisRoot,
    State.root_of_lender hafter hstill hlender hbaseStill hisRoot, hbase, hbaseStill, hisRoot,
    hlaid.loanSize id stack lender base hlive hlender hbase⟩

/-- A byte of a root that the kernel had is not one of the strings. -/
theorem Copied.place_ne {held : List Nat} {lender first second : Nat} {base : Mapping}
    (hcopied : Copied state next created context strings user root loan)
    (hsound : Sound held state) (hbase : state.mappings lender = some base)
    (hisRoot : base.kind.isRoot = true) (hfirst : first < base.sizePages * pageSize)
    (hsecond : second < loan.sizePages * pageSize) : base.place first ≠ root.place second := by
  obtain ⟨kernel, hkernel⟩ := Option.isSome_iff_exists.mp hsound.rooted.kernel
  have hhome := hsound.rooted.kernelRoots lender base hbase hisRoot
  obtain ⟨frame, hleaf, hplace⟩ := hsound.leaf hbase (hhome ▸ hkernel)
    (State.root_of_isRoot hbase hisRoot) hbase hfirst
  have hnext : Sound created next := hcopied.tidy.sound
  obtain ⟨kern, hkern, hroot, hrootIsRoot⟩ := hcopied.rootLive
  obtain ⟨kern', root', hkern', hroot', _, hsize, _⟩ := hnext.root hcopied.live
  obtain rfl : kern = kern' := Except.ok.inj (hkern.symm.trans hkern')
  obtain rfl : root = root' := Option.some.inj (hroot.symm.trans hroot')
  obtain ⟨other, hframe, hother⟩ := hnext.frame_place hroot hrootIsRoot (hsize ▸ hsecond)
  have hapart := hcopied.apart kernel hkernel _ _ hleaf _ other hframe
  rw [← hplace, hother]
  unfold PagesApart pageSize at *
  dsimp only at hapart
  omega

/-- With the strings in place and room on the stack, the program finds all it is to find. -/
theorem Copied.push {held : List Nat}
    (hcopied : Copied state next created process.pagingContext strings user root loan)
    (hsound : Sound held state) (hgood : EachMapping Mapping.Spread state)
    (huser : process.pagingContext ≠ kernelContext)
    (hstack : StackFits state process strings.length stack) :
    ∃ tsr memory, pushMainArgs process.pagingContext next process.tsr strings.length
        (offsets loan.vaddr strings) = .ok (tsr, { next with memory }) ∧
      Passed state process
        { process with argc := strings.length, argv := offsets loan.vaddr strings, tsr }
        strings { next with memory } := by
  obtain ⟨hlive, hhome, _, hroom, hinside⟩ := hstack
  have hnext : Sound created next := hcopied.tidy.sound
  obtain ⟨lender, base, _, hlender, hbase, hbaseKept, hisRoot, hbaseSize⟩ :=
    root_kept hsound hnext hcopied.kept hlive (hhome ▸ huser)
  have hkept := hcopied.kept _ stack hlive
  have hholds : Holds next process.pagingContext process.tsr.rsp process.stackMapping stack :=
    ⟨hkept, hhome, by omega, hinside⟩
  have hstackEnd := hnext.range_le hkept
  have hbaseEnd := hnext.range_le hbaseKept
  have hloanEnd := hnext.range_le hcopied.live
  have hfits : process.tsr.rsp - stack.vaddr - 8 * (strings.length + 1) +
      8 * (strings.length + 1) ≤ base.sizePages * pageSize := by
    rw [hbaseSize]
    omega
  have hreached := hnext.reached (hgood.all lender base hbase) hbaseKept hisRoot hfits
  have hpointer : kernelPointer next process.pagingContext process.tsr.rsp = .ok (base.vaddr +
      (process.tsr.rsp - stack.vaddr - 8 * (strings.length + 1)) + 8 * (strings.length + 1)) := by
    rw [kernelPointer, hnext.processUserToKernel_eq hholds hlender hbaseKept, ok_bind, pure_eq_ok,
      Option.getD_some]
    congr 1
    omega
  have hwords : ∀ word ∈ offsets loan.vaddr strings, word < 2 ^ 64 := by
    intro word hword
    have hle := mem_offsets_le hword
    have hsize := hcopied.size
    omega
  obtain ⟨memory, hpush, hvector, hothers⟩ :=
    pushMainArgs_spec hreached hpointer (by omega) (offsets_length _ _) hwords
  have hrsp : u64 (process.tsr.rsp + 2 ^ 64 - u64 (8 * (1 + strings.length))) =
      process.tsr.rsp - 8 * (strings.length + 1) := by
    unfold u64
    omega
  rw [hrsp] at hpush
  have hstored : Sound created { next with memory } := hnext.congr memory
  have hroots : ∀ id, ({ next with memory } : Pman.State).root id = next.root id :=
    getRootMapping_memory memory (next.nextMapping + 1)
  refine ⟨_, memory, hpush, ?_⟩
  constructor
  case argc => rfl
  case length => exact offsets_length _ _
  case copies =>
    obtain ⟨kern, hkern, hroot, _⟩ := hcopied.rootLive
    refine ⟨user, loan, hcopied.fresh, hcopied.live, hcopied.home, ?_⟩
    intro i pointer string hargv hstring
    obtain ⟨before, hoffset, hend, hbytes⟩ := @offsets_spec _ _ loan.vaddr _ hstring
    obtain rfl : loan.vaddr + before = pointer := Option.some.inj (hoffset.symm.trans hargv)
    have hsize := hcopied.size
    refine ⟨Nat.le_add_right _ _, by omega, fun j byte hbyte => ?_⟩
    have hj := (List.getElem?_eq_some_iff.mp hbyte).1
    have hload := hstored.loadUser_eq (hcopied.home ▸ huser) hcopied.live
      ((hroots user).trans hkern) hroot (show before + j < loan.sizePages * pageSize by omega)
    rw [hcopied.home, ← Nat.add_assoc] at hload
    rw [hload]
    refine congrArg some (.trans (hothers _ fun i hi => ?_) (hcopied.bytes _ _ (hbytes j byte hbyte)))
    exact hcopied.place_ne hsound hbase hisRoot (by omega) (by omega)
  case disjoint => exact offsets_pairwise loan.vaddr strings
  case rsp =>
    dsimp only
    omega
  case vector =>
    have hread := @loadUserWords_eq { next with memory } process.pagingContext
      (memory ∘ fun i => base.place
        (process.tsr.rsp - stack.vaddr - 8 * (strings.length + 1) + i))
      (process.tsr.rsp - 8 * (strings.length + 1)) 0 (strings.length + 1) fun j hj => by
        have hload := hstored.loadUser_eq (hhome ▸ huser) hkept ((hroots _).trans hlender)
          hbaseKept (show process.tsr.rsp - stack.vaddr - 8 * (strings.length + 1) + j <
            stack.sizePages * pageSize by omega)
        rw [hhome] at hload
        rw [show process.tsr.rsp - 8 * (strings.length + 1) + j = stack.vaddr +
          (process.tsr.rsp - stack.vaddr - 8 * (strings.length + 1) + j) by omega, hload,
          Nat.zero_add]
        rfl
    exact hread.trans (congrArg some hvector)

theorem processPushArgs_eq_ok (hnonempty : argv ≠ []) {result : Process × Pman.State} :
    processPushArgs palloc process state argv = .ok result ↔
      ∃ pointers next tsr last, newArguments palloc process.pagingContext state argv =
          .ok (pointers, next) ∧
        pushMainArgs process.pagingContext next process.tsr argv.length pointers =
          .ok (tsr, last) ∧
        result = ({ process with argc := argv.length, argv := pointers, tsr }, last) := by
  unfold processPushArgs argumentPointers
  rw [if_neg hnonempty]
  constructor
  · intro hcall
    obtain ⟨⟨pointers, next⟩, hnew, hcall⟩ := bind_eq_ok.mp hcall
    obtain ⟨⟨tsr, last⟩, hpush, hcall⟩ := bind_eq_ok.mp hcall
    exact ⟨pointers, next, tsr, last, hnew, hpush, (Except.ok.inj hcall).symm⟩
  · rintro ⟨pointers, next, tsr, last, hnew, hpush, rfl⟩
    rw [hnew, ok_bind]
    dsimp only
    rw [hpush]
    rfl

/-- The strings of a vector that fits on the stack are smaller than memory. -/
theorem StackFits.packed_lt {held : List Nat} (hsound : Sound held state)
    (hstack : StackFits state process argv.length stack)
    (hstrings : StringsAt state argv strings) : (packed strings).length < 2 ^ 64 := by
  obtain ⟨_, _, hsize, hroom, hinside⟩ := hstack
  have hlength := hstrings.length_eq
  have hpacked := packed_length_le hsound hstrings
  unfold defaultThreadStackSize at hsize
  omega

/-- A call with arguments that fit on the stack passes them to the program if it returns, and it
returns if there is memory for the strings. -/
theorem processPushArgs_passed (hpalloc : Exact palloc) (hspread : Spread palloc)
    (hreach : (lifetimes palloc).Reachable ⟨state, created⟩) (hunused : Unused palloc state)
    (huser : process.pagingContext ≠ kernelContext) (hnonempty : argv ≠ [])
    (hstrings : StringsAt state argv strings)
    (hstack : StackFits state process argv.length stack) :
    (∀ process' next, processPushArgs palloc process state argv = .ok (process', next) →
      Passed state process process' strings next) ∧
    (HasMemory palloc state process.pagingContext (packed strings).length →
      ∃ result, processPushArgs palloc process state argv = .ok result) := by
  have htidy : KernelTidy ⟨state, created⟩ := tidy_of_lifetimes hpalloc hreach
  have hgood : EachMapping Mapping.Spread state := spread_of_lifetimes hspread hreach
  have hsound : Sound created state := htidy.sound
  have hbound := hstack.packed_lt hsound hstrings
  have hlength := hstrings.length_eq
  -- what is pushed in either case
  have hpushed : ∀ pointers next,
      newArguments palloc process.pagingContext state argv = .ok (pointers, next) →
      ∃ tsr last, pushMainArgs process.pagingContext next process.tsr argv.length pointers =
          .ok (tsr, last) ∧
        Passed state process { process with argc := argv.length, argv := pointers, tsr }
          strings last := by
    intro pointers next hnew
    obtain ⟨user, root, loan, rfl, hcopied⟩ := newArguments_copied hpalloc hspread htidy hunused
      huser hstrings hbound hnew
    rw [hlength] at hstack ⊢
    obtain ⟨tsr, memory, hpush, hpassed⟩ := hcopied.push hsound hgood huser hstack
    exact ⟨tsr, _, hpush, hpassed⟩
  constructor
  · intro process' next' hcall
    obtain ⟨pointers, next, tsr, last, hnew, hpush, hresult⟩ :=
      (processPushArgs_eq_ok hnonempty).mp hcall
    cases hresult
    obtain ⟨tsr', last', hpush', hpassed⟩ := hpushed pointers next hnew
    cases hpush'.symm.trans hpush
    exact hpassed
  · intro hmemory
    have hlive := hstack.home ▸ hsound.counted.context _ stack hstack.live
    obtain ⟨⟨pointers, next⟩, hnew⟩ := newArguments_returns hpalloc hspread htidy hunused huser
      hlive hstrings hbound hmemory
    obtain ⟨tsr, last, hpush, _⟩ := hpushed pointers next hnew
    exact ⟨_, (processPushArgs_eq_ok hnonempty).mpr ⟨pointers, next, tsr, last, hnew, hpush, rfl⟩⟩

end Calls

/-! ## Some arguments -/

section Example

variable {paging : Pman.State}

theorem pagesBy_spread : Spread pagesBy := by
  rintro state count paddrs hpaddrs
  cases hpaddrs
  rw [List.pairwise_map]
  refine List.pairwise_lt_range.imp fun {i j} hij => .inl ?_
  unfold pageSize
  omega

/-- A page leads where it did, or to what was put in. -/
theorem leaf_of_update {table : Table} {first page : Nat} {leaf new : PageTables.Leaf}
    (hleaf : update table first (some new) page = some leaf) :
    table page = some leaf ∨ new = leaf := by
  by_cases heq : page = first
  · rw [heq, update_self, Option.some.injEq] at hleaf
    exact .inr hleaf
  · rw [update_of_ne heq] at hleaf
    exact .inl hleaf

/-- Where that stack is, and what is left beside it. -/
structure StackLayout (paging : Pman.State) : Prop where
  kernel : ∃ kernel, paging.contexts kernelContext = some kernel ∧
    kernel.table = update (update (update (fun _ => none)
      0 (some ⟨0x5000, ⟨true, true, false⟩⟩)) 1 (some ⟨0x15000, ⟨true, true, false⟩⟩))
      2 (some ⟨0x16000, ⟨true, true, false⟩⟩) ∧ Room kernel.regions 1
  user : ∃ user, paging.contexts 1 = some user ∧ Room user.regions 1
  next : paging.nextMapping = 3
  stack : paging.mappings 2 = some ⟨1, ⟨true, false, false, false⟩, 0x8000, 2, .shared 1⟩
  root : paging.root 2 = .ok 1
  rootLive : paging.mappings 1 = some
    ⟨kernelContext, ⟨true, false, false, false⟩, 0x1000, 2, .alloc 1 [0x15000, 0x16000]⟩
  address : kernelAddress paging 0x1010 = .ok 0x15010 ∧ kernelAddress paging 0x1011 = .ok 0x15011
  path : processUserToKernel paging 1 0x8010 = .ok (some 0x1010)
  argv : kernelArgv { paging with memory := stackBytes } 1 0x8020 1 = .ok [0x1010]

theorem stackMade : ∃ paging, StackMade paging ∧ StackLayout paging := by
  refine ⟨_, ⟨_, _, _, _, rfl, rfl, rfl, rfl, rfl, rfl, rfl⟩, ?_⟩
  constructor
  case kernel =>
    exact ⟨_, rfl, rfl, _,
      List.mem_cons_of_mem _ (List.mem_cons_of_mem _ List.mem_cons_self), rfl, by decide⟩
  case user => exact ⟨_, rfl, _, List.mem_cons_self, rfl, by decide⟩
  case next => rfl
  case stack => rfl
  case root => rfl
  case rootLive => rfl
  case address => exact ⟨rfl, rfl⟩
  case path => rfl
  case argv => rfl

namespace StackLayout

/-- The path of the root directory. -/
def slashPath : Path := ⟨[Vfs.slash], by decide⟩

/-- The empty path. -/
def emptyPath : Path := ⟨[], by decide⟩

theorem loadByte_of_address (paging : Pman.State) {vaddr paddr : Nat}
    (haddress : kernelAddress paging vaddr = .ok paddr) :
    loadByte { paging with memory := stackBytes } vaddr = .ok (stackBytes paddr) := by
  have hsame : kernelAddress { paging with memory := stackBytes } vaddr = .ok paddr := haddress
  rw [loadByte, hsame]
  rfl

theorem slash_stringAt (hlayout : StackLayout paging) :
    stringAt { paging with memory := stackBytes } 0x1010 = .ok slashPath := by
  refine readString_of_loads (by decide) fun j byte hbyte => ?_
  rcases j with _ | _ | j
  · exact Option.some.inj hbyte ▸ loadByte_of_address paging hlayout.address.1
  · exact Option.some.inj hbyte ▸ loadByte_of_address paging hlayout.address.2
  · cases hbyte

/-- The string behind the slash. -/
theorem empty_stringAt (hlayout : StackLayout paging) :
    stringAt { paging with memory := stackBytes } 0x1011 = .ok emptyPath := by
  refine readString_of_loads (by decide) fun j byte hbyte => ?_
  rcases j with _ | j
  · exact Option.some.inj hbyte ▸ loadByte_of_address paging hlayout.address.2
  · cases hbyte

theorem strings (hlayout : StackLayout paging) :
    StringsAt { paging with memory := stackBytes } [0x1010] [slashPath] :=
  .cons ⟨by decide, hlayout.slash_stringAt⟩ .nil

/-- The pages that are handed out after two roots and a loan are none of theirs. -/
theorem unused (hlayout : StackLayout paging) :
    Unused pagesBy { paging with memory := stackBytes } := by
  intro count paddrs hpaddrs paddr hmember found page leaf hfound hleaf
  obtain ⟨kernel, hkernel, htable, _⟩ := hlayout.kernel
  obtain rfl : kernel = found := Option.some.inj (hkernel.symm.trans hfound)
  cases hpaddrs
  obtain ⟨i, _, rfl⟩ := List.mem_map.mp hmember
  have hlow : leaf.paddr ≤ 0x16000 := by
    rw [htable] at hleaf
    rcases leaf_of_update hleaf with hleaf | rfl
    · rcases leaf_of_update hleaf with hleaf | rfl
      · rcases leaf_of_update hleaf with hnone | rfl
        · cases hnone
        · exact (by decide : 0x5000 ≤ 0x16000)
      · exact (by decide : 0x15000 ≤ 0x16000)
    · exact Nat.le_refl _
  have hnext : ({ paging with memory := stackBytes } : Pman.State).nextMapping = 3 := hlayout.next
  rw [hnext]
  refine .inr ?_
  unfold pageSize
  omega

/-- There is memory for strings that come to one page. -/
theorem hasMemory (hlayout : StackLayout paging) {size : Nat} (hsize : divUp size pageSize = 1) :
    HasMemory pagesBy { paging with memory := stackBytes } 1 size := by
  obtain ⟨kernel, hkernel, _, hkernelRoom⟩ := hlayout.kernel
  obtain ⟨user, huser, huserRoom⟩ := hlayout.user
  constructor
  case kernel =>
    rw [hsize]
    refine ⟨Nat.one_pos, rfl, fun target htarget => ?_⟩
    cases hkernel.symm.trans htarget
    exact hkernelRoom
  case user =>
    rw [hsize]
    intro target htarget
    cases huser.symm.trans htarget
    exact huserRoom

end StackLayout

/-- The process passes `"/"`, the empty string and `"/"` again to itself. -/
theorem processPushArgs_passed_three : ∃ (paging : Pman.State) (process' : Process)
    (next : Pman.State), (lifetimes pagesBy).Reachable ⟨(stackWorldOf paging 0x9ff8).paging, [0]⟩ ∧
      processPushArgs pagesBy (stackWorldOf paging 0x9ff8).process
        (stackWorldOf paging 0x9ff8).paging [0x1010, 0x1011, 0x1010] = .ok (process', next) ∧
      Passed (stackWorldOf paging 0x9ff8).paging (stackWorldOf paging 0x9ff8).process process'
        [⟨[Vfs.slash], by decide⟩, ⟨[], by decide⟩, ⟨[Vfs.slash], by decide⟩] next := by
  obtain ⟨paging, hmade, hlayout⟩ := stackMade
  have hreach := hmade.reachable 0x9ff8
  have hfits : StackFits (stackWorldOf paging 0x9ff8).paging (stackWorldOf paging 0x9ff8).process
      3 ⟨1, ⟨true, false, false, false⟩, 0x8000, 2, .shared 1⟩ :=
    ⟨hlayout.stack, rfl, by decide, (by decide : 0x8000 + 8 * (3 + 1) ≤ 0x9ff8),
      (by decide : 0x9ff8 < 0x8000 + 2 * pageSize)⟩
  have hstrings : StringsAt (stackWorldOf paging 0x9ff8).paging [0x1010, 0x1011, 0x1010]
      [⟨[Vfs.slash], by decide⟩, ⟨[], by decide⟩, ⟨[Vfs.slash], by decide⟩] :=
    .cons ⟨by decide, hlayout.slash_stringAt⟩ (.cons ⟨by decide, hlayout.empty_stringAt⟩
      hlayout.strings)
  obtain ⟨hpassed, hreturns⟩ := processPushArgs_passed pagesBy_exact pagesBy_spread hreach
    hlayout.unused Nat.one_ne_zero (by decide) hstrings hfits
  obtain ⟨⟨process', next⟩, hcall⟩ := hreturns (hlayout.hasMemory (by decide))
  exact ⟨paging, process', next, hreach, hcall, hpassed process' next hcall⟩

end Example

end PKernel.Programs
