import PKernel.Heap.Run

/-! # Reallocation to a larger block

`heap_realloc` takes a new block, copies as many bytes as the old block has,
and frees the old block. As long as the new block is at least as large, the
copy stays inside it and the call is an allocation, a write by the owner and a
free in a row. The runs here make all four calls a client can make.
-/

namespace PKernel.Heap

open Library.ByteMemory Library.Transition

variable {heap next : Heap} {tags : List Tag} {memory : Memory} {dst src count place : Nat}
  {block size newBlock newSize : Nat}

/-! ## The copy -/

theorem copyBytes_apply_of_outside (hout : place < dst ∨ dst + count ≤ place) :
    copyBytes memory dst src count place = memory place := by
  induction count with
  | zero => rfl
  | succ count ih =>
      rw [copyBytes, Function.update_of_ne (by omega)]
      exact ih (by omega)

/-- A forward copy whose destination does not start inside its source. -/
theorem copyBytes_apply (hsafe : dst ≤ src ∨ src + count ≤ dst) {offset : Nat}
    (hoffset : offset < count) :
    copyBytes memory dst src count (dst + offset) = memory (src + offset) := by
  induction count with
  | zero => omega
  | succ count ih =>
      rcases Nat.lt_succ_iff_lt_or_eq.mp hoffset with hearlier | rfl
      · rw [copyBytes, Function.update_of_ne (by omega)]
        exact ih (by omega) hearlier
      · -- the source byte has not been written yet
        rw [copyBytes, Function.update_self, copyBytes_apply_of_outside (by omega)]

/-! ## Calls that return -/

/-- An allocation that returns was not for so many bytes that the fit test
wraps: such a block would run over the top of the address space. -/
theorem heapAlloc_ok (hlayout : Layout heap tags) (hhead : 1 < heap.headTag)
    (hcall : heapAlloc heap size = .ok (next, block)) :
    0 < size ∧ size + tagSize + 1 < 2 ^ 64 := by
  obtain ⟨hzero, current, memory, cleared, hsearch, -, hclear, -, -⟩ := heapAlloc_eq_ok hcall
  have hfound : ∃ found ∈ tags, found.addr = current := by
    rcases hlayout.findTag_spec size with
      ⟨hnone, _⟩ | ⟨before, found, after, rest, rfl, _, _, hfound⟩
    · exact absurd (hnone.symm.trans hsearch) (by simp)
    · exact ⟨found, by simp, Except.ok.inj (hfound.symm.trans hsearch)⟩
  obtain ⟨found, hmem, rfl⟩ := hfound
  have hlow := hlayout.head_le hmem
  have htail := hlayout.mem_le_tail hmem
  have hbound := hlayout.bound
  have hblock : u64 (found.addr + tagSize) = found.addr + tagSize := u64_eq_self (by omega)
  have htop := (memset_ok hclear).1
  rw [hblock] at htop
  omega

theorem heapRealloc_eq_ok (hcall : heapRealloc heap block newSize = .ok (next, newBlock)) :
    ∃ grown, heapAlloc heap newSize = .ok (grown, newBlock) ∧
      heapFree { grown with
        memory := copyBytes grown.memory newBlock block
          (nextSize grown.memory (u64 (block + 2 ^ 64 - tagSize))) } block = .ok next := by
  simp only [heapRealloc] at hcall
  obtain ⟨⟨grown, fresh⟩, halloc, hcall⟩ := bind_eq_ok.mp hcall
  simp only at hcall
  obtain ⟨freed, hfree, hcall⟩ := bind_eq_ok.mp hcall
  cases hcall
  exact ⟨grown, halloc, hfree⟩

inductive Call where
  | alloc (size : Nat)
  | free (block : Nat)
  | realloc (block size : Nat)
  /-- A client writes one byte of a block it holds. -/
  | write (block offset : Nat) (byte : UInt8)

/-- The block that a call is given. -/
def Call.block? : Call → Option Nat
  | .alloc _ => none
  | .free block => some block
  | .realloc block _ => some block
  | .write block _ _ => some block

/-- One call that returns, on a block that its caller holds. -/
inductive CallStep (world : World) : Call → World → Prop
  | alloc {size block : Nat} {heap : Heap}
      (hreturn : heapAlloc world.heap size = .ok (heap, block)) :
      CallStep world (.alloc size) ⟨heap, (block, size) :: world.live⟩
  | free {block size : Nat} {heap : Heap} (hlive : (block, size) ∈ world.live)
      (hreturn : heapFree world.heap block = .ok heap) :
      CallStep world (.free block) ⟨heap, world.live.erase (block, size)⟩
  | realloc {block size newSize newBlock : Nat} {heap : Heap} (hlive : (block, size) ∈ world.live)
      (hreturn : heapRealloc world.heap block newSize = .ok (heap, newBlock)) :
      CallStep world (.realloc block newSize)
        ⟨heap, (newBlock, newSize) :: world.live.erase (block, size)⟩
  | write {block size offset : Nat} {byte : UInt8} (hlive : (block, size) ∈ world.live)
      (hoffset : offset < size) :
      CallStep world (.write block offset byte)
        ⟨{ world.heap with memory := Function.update world.heap.memory (block + offset) byte },
          world.live⟩

/-- All runs from `heap_init`, on any memory. -/
def calls : System World Call where
  init world := ∃ memory, world = ⟨heapInit memory, []⟩
  step := CallStep

/-- `heap_realloc` is called for at least as many bytes as the block has. -/
def Growing (world : World) : Call → Prop
  | .realloc block newSize => ∀ size, (block, size) ∈ world.live → size ≤ newSize
  | _ => True

/-- The runs of `heap_alloc`, `heap_free` and `heap_realloc` that never shrink
a block. -/
def runs : System World Call := calls.restrict Growing

theorem runs_step {world next : World} {call : Call} (hreach : runs.Reachable world)
    (hstep : CallStep world call next) (hgrowing : Growing world call) : runs.Reachable next :=
  .step hreach ⟨hgrowing, hstep⟩

/-! ## What a growing reallocation does -/

/-- The block moved with its bytes, and nothing else changed hands. -/
structure Reallocated (world : World) (block size newBlock newSize : Nat) (heap : Heap) :
    Prop where
  consistent : Consistent ⟨heap, (newBlock, newSize) :: world.live.erase (block, size)⟩
  copied : ∀ offset < min size newSize,
    heap.memory (newBlock + offset) = world.heap.memory (block + offset)
  released : ∀ count, (block, count) ∉ (newBlock, newSize) :: world.live.erase (block, size)
  others : ∀ start count, (start, count) ∈ world.live → start ≠ block →
    (start, count) ∈ world.live.erase (block, size) ∧
      Set.EqOn heap.memory world.heap.memory (Set.Ico start (start + count))

namespace Invariant

variable {world : World}

/-- Whatever the owner of a block writes into it, the tags stay as they are. -/
theorem overwrite (hworld : Invariant world tags) (hlive : (block, size) ∈ world.live)
    (hframe : ∀ place, place < block ∨ block + size ≤ place →
      memory place = world.heap.memory place) :
    Invariant ⟨{ world.heap with memory }, world.live⟩ tags where
  layout := by
    refine hworld.layout.of_frame fun place hplace => hframe place ?_
    by_contra hinside
    exact hplace (hworld.layout.reserved_outsideTags ((hworld.live block size).mp hlive)
      ⟨by omega, by omega⟩)
  headTag := hworld.headTag
  tailTag := hworld.tailTag
  live := hworld.live
  nodup := hworld.nodup

theorem heapAlloc_ok (hworld : Invariant world tags)
    (hcall : heapAlloc world.heap size = .ok (next, block)) :
    0 < size ∧ size + tagSize + 1 < 2 ^ 64 :=
  Heap.heapAlloc_ok hworld.layout (by rw [hworld.headTag]; decide) hcall

/-- The address of a live block determines its size. -/
theorem live_unique (hworld : Invariant world tags) {other : Nat}
    (hlive : (block, size) ∈ world.live) (hother : (block, other) ∈ world.live) : other = size :=
  hworld.layout.reserved_unique ((hworld.live block other).mp hother)
    ((hworld.live block size).mp hlive)

/-- The tag before a live block holds its size. -/
theorem nextSize_eq (hworld : Invariant world tags) (hlive : (block, size) ∈ world.live) :
    nextSize world.heap.memory (u64 (block + 2 ^ 64 - tagSize)) = size := by
  obtain ⟨tag, htag, _, rfl, rfl⟩ := (hworld.live block size).mp hlive
  have htail := hworld.layout.mem_le_tail htag
  have hbound := hworld.layout.bound
  have haddr : u64 (tag.addr + tagSize + 2 ^ 64 - tagSize) = tag.addr := by
    unfold u64
    omega
  rw [haddr, Heap.nextSize_eq, hworld.layout.read tag htag]

/-- After the copy the old block is still live, next to the new one. -/
theorem copied (hworld : Invariant world tags) (hlive : (block, size) ∈ world.live)
    (hgrows : size ≤ newSize)
    (hreturn : heapRealloc world.heap block newSize = .ok (next, newBlock)) :
    ∃ grown tags', heapAlloc world.heap newSize = .ok (grown, newBlock) ∧
      Allocated world.heap grown tags newBlock newSize ∧
      Invariant ⟨{ grown with memory := copyBytes grown.memory newBlock block size },
        (newBlock, newSize) :: world.live⟩ tags' ∧
      heapFree { grown with memory := copyBytes grown.memory newBlock block size } block =
        .ok next := by
  obtain ⟨grown, halloc, hfree⟩ := heapRealloc_eq_ok hreturn
  obtain ⟨hpos, hsize⟩ := hworld.heapAlloc_ok halloc
  obtain ⟨hallocated, tags', hgrown⟩ := hworld.alloc hpos hsize halloc
  have hold : (block, size) ∈ (newBlock, newSize) :: world.live := by simp [hlive]
  rw [hgrown.nextSize_eq hold] at hfree
  exact ⟨grown, tags', halloc, hallocated, hgrown.overwrite List.mem_cons_self
    fun place hplace => copyBytes_apply_of_outside (by omega), hfree⟩

/-- The call leaves the blocks as they are after the copy, but for the old one. -/
theorem realloc_kept (hworld : Invariant world tags) (hlive : (block, size) ∈ world.live)
    (hgrows : size ≤ newSize)
    (hreturn : heapRealloc world.heap block newSize = .ok (next, newBlock)) :
    ∃ grown tagsCopied, Allocated world.heap grown tags newBlock newSize ∧
      Invariant ⟨{ grown with memory := copyBytes grown.memory newBlock block size },
        (newBlock, newSize) :: world.live⟩ tagsCopied ∧ newBlock ≠ block ∧
      (∃ tags', Invariant ⟨next, (newBlock, newSize) :: world.live.erase (block, size)⟩ tags') ∧
      ∀ start count, (start, count) ∈ (newBlock, newSize) :: world.live →
        Set.EqOn next.memory (copyBytes grown.memory newBlock block size)
          (Set.Ico start (start + count)) := by
  obtain ⟨grown, tagsCopied, -, hallocated, hcopied, hfree⟩ := hworld.copied hlive hgrows hreturn
  have hold : (block, size) ∈ (newBlock, newSize) :: world.live := by simp [hlive]
  have hne : newBlock ≠ block := by
    rintro rfl
    exact hallocated.fresh size ((hworld.live newBlock size).mp hlive)
  obtain ⟨hfreed, tagsFree, hlast⟩ := hcopied.free hold hfree
  have herase : ((newBlock, newSize) :: world.live).erase (block, size) =
      (newBlock, newSize) :: world.live.erase (block, size) := by
    rw [List.erase_cons_tail]
    simpa using fun heq _ => hne heq
  simp only [herase] at hlast
  refine ⟨grown, tagsCopied, hallocated, hcopied, hne, ⟨tagsFree, hlast⟩, ?_⟩
  intro start count hmem place hplace
  exact hfreed.frame place (hcopied.layout.reserved_outsideTags
    ((hcopied.live start count).mp hmem) hplace)

theorem realloc (hworld : Invariant world tags) (hlive : (block, size) ∈ world.live)
    (hgrows : size ≤ newSize)
    (hreturn : heapRealloc world.heap block newSize = .ok (next, newBlock)) :
    (∃ tags', Invariant ⟨next, (newBlock, newSize) :: world.live.erase (block, size)⟩ tags') ∧
      Reallocated world block size newBlock newSize next := by
  obtain ⟨grown, tagsCopied, hallocated, hcopied, hne, ⟨tagsFree, hlast⟩, hkept⟩ :=
    hworld.realloc_kept hlive hgrows hreturn
  have hnew : (newBlock, newSize) ∈ (newBlock, newSize) :: world.live := by simp
  have hold : (block, size) ∈ (newBlock, newSize) :: world.live := by simp [hlive]
  have hapart := hcopied.apart hnew hold fun hpair => hne (Prod.mk.inj hpair).1
  simp only [Apart] at hapart
  refine ⟨⟨tagsFree, hlast⟩, hlast.consistent, ?_, ?_, ?_⟩
  · intro offset hoffset
    rw [hkept newBlock newSize hnew ⟨by omega, by omega⟩, copyBytes_apply (by omega) (by omega)]
    exact hallocated.frame block size ((hworld.live block size).mp hlive) ⟨by omega, by omega⟩
  · intro count hmem
    rcases List.mem_cons.mp hmem with hpair | hmem
    · exact hne (Prod.mk.inj hpair).1.symm
    · obtain rfl := hworld.live_unique hlive (List.mem_of_mem_erase hmem)
      exact hworld.nodup.not_mem_erase hmem
  · intro start count hmem hother
    refine ⟨(List.mem_erase_of_ne fun hpair => hother (Prod.mk.inj hpair).1).mpr hmem, ?_⟩
    intro place hplace
    have hfar := hcopied.apart hnew (show (start, count) ∈ (newBlock, newSize) :: world.live by
      simp [hmem]) fun hpair => hallocated.fresh count (by
        rw [(Prod.mk.inj hpair).1]
        exact (hworld.live start count).mp hmem)
    simp only [Apart] at hfar
    have hlower := hplace.1
    have hupper := hplace.2
    rw [hkept start count (by simp [hmem]) hplace, copyBytes_apply_of_outside (by omega)]
    exact hallocated.frame start count ((hworld.live start count).mp hmem) hplace

/-- Behind the bytes that were copied the new block is 0. -/
theorem realloc_zeroed (hworld : Invariant world tags) (hlive : (block, size) ∈ world.live)
    (hgrows : size ≤ newSize)
    (hreturn : heapRealloc world.heap block newSize = .ok (next, newBlock)) {offset : Nat}
    (hlower : size ≤ offset) (hupper : offset < newSize) : next.memory (newBlock + offset) = 0 := by
  obtain ⟨grown, -, hallocated, -, -, -, hkept⟩ := hworld.realloc_kept hlive hgrows hreturn
  rw [hkept newBlock newSize List.mem_cons_self ⟨by omega, by omega⟩,
    copyBytes_apply_of_outside (by omega)]
  exact hallocated.zeroed _ ⟨by omega, by omega⟩

/-- When the new block can be allocated the call returns. -/
theorem realloc_returns (hworld : Invariant world tags) (hlive : (block, size) ∈ world.live)
    (hgrows : size ≤ newSize) {grown : Heap}
    (halloc : heapAlloc world.heap newSize = .ok (grown, newBlock)) :
    ∃ next, heapRealloc world.heap block newSize = .ok (next, newBlock) := by
  obtain ⟨hpos, hsize⟩ := hworld.heapAlloc_ok halloc
  obtain ⟨-, tags', hgrown⟩ := hworld.alloc hpos hsize halloc
  have hold : (block, size) ∈ (newBlock, newSize) :: world.live := by simp [hlive]
  have hcopied : Invariant ⟨{ grown with memory := copyBytes grown.memory newBlock block size },
      (newBlock, newSize) :: world.live⟩ tags' :=
    hgrown.overwrite List.mem_cons_self fun place hplace => copyBytes_apply_of_outside (by omega)
  obtain ⟨next, hfree⟩ := hcopied.consistent.free block size hold
  refine ⟨next, ?_⟩
  simp only [heapRealloc, halloc, ok_bind, hgrown.nextSize_eq hold, hfree, pure_eq_ok]

theorem callStep (hworld : Invariant world tags) {call : Call} {next : World}
    (hstep : CallStep world call next) (hgrowing : Growing world call) :
    ∃ tags', Invariant next tags' := by
  cases hstep with
  | alloc hreturn =>
      obtain ⟨hpos, hsize⟩ := hworld.heapAlloc_ok hreturn
      exact (hworld.alloc hpos hsize hreturn).2
  | free hlive hreturn => exact (hworld.free hlive hreturn).2
  | realloc hlive hreturn => exact (hworld.realloc hlive (hgrowing _ hlive) hreturn).1
  | write hlive hoffset => exact ⟨tags, hworld.write hlive hoffset⟩

/-- A call keeps the blocks that it is not given, with their bytes. -/
theorem callStep_frame (hworld : Invariant world tags) {call : Call} {next : World}
    (hstep : CallStep world call next) (hgrowing : Growing world call)
    (hlive : (block, size) ∈ world.live) (hother : call.block? ≠ some block) :
    (block, size) ∈ next.live ∧
      Set.EqOn next.heap.memory world.heap.memory (Set.Ico block (block + size)) := by
  have hreserved := (hworld.live block size).mp hlive
  cases hstep with
  | alloc hreturn =>
      obtain ⟨hpos, hsize⟩ := hworld.heapAlloc_ok hreturn
      exact ⟨List.mem_cons_of_mem _ hlive,
        (hworld.alloc hpos hsize hreturn).1.frame block size hreserved⟩
  | @free other _ _ hfreed hreturn =>
      have hne : block ≠ other := fun hsame => hother (congrArg some hsame.symm)
      refine ⟨(List.mem_erase_of_ne fun hpair => hne (Prod.mk.inj hpair).1).mpr hlive, ?_⟩
      exact hworld.frame (.free hfreed hreturn) hlive fun hsame => hother hsame
  | realloc hmoved hreturn =>
      obtain ⟨-, hreallocated⟩ := hworld.realloc hmoved (hgrowing _ hmoved) hreturn
      obtain ⟨hkept, hbytes⟩ := hreallocated.others block size hlive
        fun hsame => hother (congrArg some hsame.symm)
      exact ⟨List.mem_cons_of_mem _ hkept, hbytes⟩
  | write hwritten hoffset =>
      exact ⟨hlive, hworld.frame (.write hwritten hoffset) hlive fun hsame => hother hsame⟩

end Invariant

theorem runs_inductive : runs.Inductive fun world => ∃ tags, Invariant world tags where
  init := by
    rintro world ⟨memory, rfl⟩
    exact ⟨initTags, Invariant.init memory⟩
  step := by
    rintro world call next ⟨tags, hworld⟩ ⟨hgrowing, hstep⟩
    exact hworld.callStep hstep hgrowing

end PKernel.Heap
