import PKernel.Filesystem.Ramfs

/-! # Runs of the files in memory

Files are made and written in any order, between other calls on the heap. Every file has a
block of its own, so that a run is a run of sparse byte arrays, and a read returns what such
an array has.
-/

namespace PKernel.Ramfs

open Heap Library Library.ByteMemory Library.Transition
open Function (update update_idem update_of_ne update_self)

/-- The nodes and the heap, with the blocks that are held. -/
structure World where
  storage : Storage
  live : List (Nat × Nat)

/-- The heap and those who hold blocks of it. -/
def World.heap (world : World) : Heap.World := ⟨world.storage.heap, world.live⟩

/-- The blocks of the nodes and of their files. -/
def Storage.Owns (storage : Storage) (block : Nat) : Prop :=
  ∃ address node, storage.nodes address = some node ∧ (block = address ∨ block = node.data)

/-- The blocks that are held when a node has moved from one block to another. -/
def World.moved (world : World) (node node' : Node) : List (Nat × Nat) :=
  if node.size < node'.size then (node'.data, node'.room) :: world.live.erase (node.data, node.room)
  else world.live

inductive Op where
  | make (address : Nat)
  | write (address : Nat) (data : List UInt8) (offset : Nat)
  /-- A call of `heap_alloc` or of another function of the heap. -/
  | other (call : Call)

/-- One call that returns. The other calls are not given the blocks of the files, and none of
them shrinks a block: `heap_realloc` is only ever called for more bytes. -/
inductive Step (world : World) : Op → World → Prop
  | make {address : Nat} {allocated made : Storage} {node : Node}
      (halloc : ramfsAllocNode world.storage = .ok (address, allocated))
      (hcreate : ramfsCreateNode allocated address .regular = .ok (true, made))
      (hnode : made.nodes address = some node) :
      Step world (.make address) ⟨made, (node.data, node.room) :: (address, nodeSize) :: world.live⟩
  | write {address offset count : Nat} {data : List UInt8} {node node' : Node} {next : Storage}
      (hnode : world.storage.nodes address = some node) (hfits : offset + data.length < 2 ^ 64)
      (hcall : ramfsWrite world.storage address data offset = .ok (count, next))
      (hnode' : next.nodes address = some node') :
      Step world (.write address data offset) ⟨next, world.moved node node'⟩
  | other {call : Call} {next : Heap.World} (hcall : CallStep world.heap call next)
      (hgrowing : Growing world.heap call)
      (hforeign : ∀ block, call.block? = some block → ¬world.storage.Owns block) :
      Step world (.other call) ⟨{ world.storage with heap := next.heap }, next.live⟩

/-- All runs from `heap_init`, on any memory. -/
def ramfs : System World Op where
  init world := ∃ memory, world = ⟨⟨heapInit memory, fun _ => none⟩, []⟩
  step := Step

/-! ## What the files are -/

inductive FileOp where
  | make (address : Nat)
  | write (address : Nat) (data : List UInt8) (offset : Nat)

/-- The files as sparse byte arrays. -/
inductive FileStep (files : Nat → Option SparseBytes) : FileOp → (Nat → Option SparseBytes) → Prop
  | make {address : Nat} (hfresh : files address = none) :
      FileStep files (.make address) (update files address (some .empty))
  | write {address offset : Nat} {data : List UInt8} {file : SparseBytes}
      (hfile : files address = some file) :
      FileStep files (.write address data offset)
        (update files address (some (file.write offset data)))

def sparseFiles : System (Nat → Option SparseBytes) FileOp where
  init files := files = fun _ => none
  step := FileStep

/-! ## The invariant -/

/-- The nodes and their files have blocks of their own. -/
structure Sound (world : World) : Prop where
  heap : ∃ tags, Invariant world.heap tags
  node : ∀ {address node}, world.storage.nodes address = some node → (address, nodeSize) ∈ world.live
  data : ∀ {address node}, world.storage.nodes address = some node →
    (node.data, node.room) ∈ world.live
  blank : ∀ {address node}, world.storage.nodes address = some node → node.size = 0 →
    world.storage.heap.memory node.data = 0
  distinct : ∀ {address other node node'}, world.storage.nodes address = some node →
    world.storage.nodes other = some node' → node.data = node'.data → address = other
  apart : ∀ {address other node node'}, world.storage.nodes address = some node →
    world.storage.nodes other = some node' → node.data ≠ other

variable {world next : World} {address : Nat} {node : Node}

/-- The newest block is at an address of its own. -/
theorem live_ne {heap : Heap} {live : List (Nat × Nat)} {tags : List Tag} {block size other count : Nat}
    (hworld : Invariant ⟨heap, (block, size) :: live⟩ tags) (hother : (other, count) ∈ live) :
    other ≠ block := by
  rintro rfl
  obtain rfl := hworld.live_unique List.mem_cons_self (List.mem_cons_of_mem _ hother)
  exact (List.nodup_cons.mp hworld.nodup).1 hother

/-- A call for one node leaves the other nodes and their blocks alone. -/
structure Replaced (world next : World) (address : Nat) (node : Node) : Prop where
  nodes : next.storage.nodes = update world.storage.nodes address (some node)
  others : ∀ other held, other ≠ address → world.storage.nodes other = some held →
    (other, nodeSize) ∈ next.live ∧ other ≠ node.data ∧ (held.data, held.room) ∈ next.live ∧
      held.data ≠ node.data ∧ held.data ≠ address ∧
      Set.EqOn next.storage.heap.memory world.storage.heap.memory
        (Set.Ico held.data (held.data + held.room))

theorem Replaced.cases (hreplaced : Replaced world next address node) {other : Nat} {held : Node}
    (hheld : next.storage.nodes other = some held) :
    other = address ∧ held = node ∨ other ≠ address ∧ world.storage.nodes other = some held := by
  rw [hreplaced.nodes] at hheld
  by_cases hsame : other = address
  · subst hsame
    rw [update_self, Option.some.injEq] at hheld
    exact .inl ⟨rfl, hheld.symm⟩
  · rw [update_of_ne hsame] at hheld
    exact .inr ⟨hsame, hheld⟩

theorem Sound.replace (hsound : Sound world) (hreplaced : Replaced world next address node)
    (hheap : ∃ tags, Invariant next.heap tags) (hnode : (address, nodeSize) ∈ next.live)
    (hdata : (node.data, node.room) ∈ next.live) (hne : node.data ≠ address)
    (hblank : node.size = 0 → next.storage.heap.memory node.data = 0) : Sound next where
  heap := hheap
  node hheld := by
    rcases hreplaced.cases hheld with ⟨rfl, rfl⟩ | ⟨hother, hheld⟩
    · exact hnode
    · exact (hreplaced.others _ _ hother hheld).1
  data hheld := by
    rcases hreplaced.cases hheld with ⟨rfl, rfl⟩ | ⟨hother, hheld⟩
    · exact hdata
    · exact (hreplaced.others _ _ hother hheld).2.2.1
  blank hheld hzero := by
    rcases hreplaced.cases hheld with ⟨rfl, rfl⟩ | ⟨hother, hheld⟩
    · exact hblank hzero
    · obtain ⟨-, -, -, -, -, hbytes⟩ := hreplaced.others _ _ hother hheld
      rw [hbytes ⟨le_rfl, by unfold Node.room; omega⟩]
      exact hsound.blank hheld hzero
  distinct hheld hheld' hsame := by
    rcases hreplaced.cases hheld with ⟨rfl, rfl⟩ | ⟨hother, hheld⟩ <;>
      rcases hreplaced.cases hheld' with ⟨rfl, rfl⟩ | ⟨hother', hheld'⟩
    · rfl
    · exact absurd hsame.symm (hreplaced.others _ _ hother' hheld').2.2.2.1
    · exact absurd hsame (hreplaced.others _ _ hother hheld).2.2.2.1
    · exact hsound.distinct hheld hheld' hsame
  apart hheld hheld' := by
    rcases hreplaced.cases hheld with ⟨rfl, rfl⟩ | ⟨hother, hheld⟩ <;>
      rcases hreplaced.cases hheld' with ⟨rfl, rfl⟩ | ⟨hother', hheld'⟩
    · exact hne
    · exact fun hsame => (hreplaced.others _ _ hother' hheld').2.1 hsame.symm
    · exact (hreplaced.others _ _ hother hheld).2.2.2.2.1
    · exact hsound.apart hheld hheld'

theorem Replaced.contents (hreplaced : Replaced world next address node) :
    next.storage.contents = update world.storage.contents address
      (some (node.contents next.storage.heap.memory)) := by
  funext other
  by_cases hsame : other = address
  · subst hsame
    simp [Storage.contents, hreplaced.nodes]
  · rw [update_of_ne hsame]
    simp only [Storage.contents, hreplaced.nodes, update_of_ne hsame]
    cases hheld : world.storage.nodes other with
    | none => rfl
    | some held =>
        obtain ⟨-, -, -, -, -, hbytes⟩ := hreplaced.others _ _ hsame hheld
        rw [Option.map_some, Option.map_some, Node.contents_congr hbytes]

/-! ## Files made -/

/-- A new file is empty, and has blocks that nobody held. -/
theorem Sound.made (hsound : Sound world) {allocated made : Storage} {goesOn : Bool}
    (halloc : ramfsAllocNode world.storage = .ok (address, allocated))
    (hcreate : ramfsCreateNode allocated address .regular = .ok (goesOn, made)) :
    goesOn = true ∧ world.storage.nodes address = none ∧ ∃ data,
      Replaced world ⟨made, (data, 1) :: (address, nodeSize) :: world.live⟩ address ⟨0, data⟩ ∧
        Sound ⟨made, (data, 1) :: (address, nodeSize) :: world.live⟩ := by
  obtain ⟨tags, hheap⟩ := hsound.heap
  simp only [ramfsAllocNode, bind_eq_ok, pure_eq_ok, Except.ok.injEq, Prod.mk.injEq] at halloc
  obtain ⟨⟨heap, block⟩, hfirst, rfl, rfl⟩ := halloc
  simp only [ramfsCreateNode, bind_eq_ok, pure_eq_ok, Except.ok.injEq, Prod.mk.injEq] at hcreate
  obtain ⟨⟨heap', data⟩, hsecond, rfl, rfl⟩ := hcreate
  obtain ⟨hpos, hsize⟩ := hheap.heapAlloc_ok hfirst
  obtain ⟨hfirstBlock, tags', hnode⟩ := hheap.alloc hpos hsize hfirst
  obtain ⟨hpos', hsize'⟩ := hnode.heapAlloc_ok hsecond
  obtain ⟨hsecondBlock, tags'', hdata⟩ := hnode.alloc hpos' hsize' hsecond
  have hfresh {other count : Nat} (hlive : (other, count) ∈ world.live) : other ≠ block ∧ other ≠ data :=
    ⟨live_ne hnode hlive, live_ne hdata (List.mem_cons_of_mem _ hlive)⟩
  have hnone : world.storage.nodes block = none := by
    by_contra hsome
    obtain ⟨held, hheld⟩ := Option.ne_none_iff_exists'.mp hsome
    exact (hfresh (hsound.node hheld)).1 rfl
  have hzero : heap'.memory data = 0 := hsecondBlock.zeroed data ⟨le_rfl, Nat.lt_succ_self data⟩
  have hreplaced : Replaced world ⟨⟨heap', update (update world.storage.nodes block
      (some ⟨0, 0⟩)) block (some ⟨0, data⟩)⟩, (data, 1) :: (block, nodeSize) :: world.live⟩ block
      ⟨0, data⟩ := by
    refine ⟨update_idem _ _ _, fun other held hother hheld => ?_⟩
    have hblock := hsound.data hheld
    refine ⟨by simp [hsound.node hheld], (hfresh (hsound.node hheld)).2, by simp [hblock],
      (hfresh hblock).2, (hfresh hblock).1, ?_⟩
    exact (hsecondBlock.frame _ _ ((hnode.live _ _).mp (List.mem_cons_of_mem _ hblock))).trans
      (hfirstBlock.frame _ _ ((hheap.live _ _).mp hblock))
  refine ⟨rfl, hnone, data, hreplaced, ?_⟩
  exact hsound.replace hreplaced ⟨tags'', hdata⟩ (by simp) List.mem_cons_self
    (live_ne hdata List.mem_cons_self).symm fun _ => hzero

/-! ## Files written -/

/-- A node with as many bytes as it should have, the old ones in front and zeros behind them. -/
structure Extended (world : World) (node node' : Node) (heap : Heap) (size : Nat) : Prop where
  size : node'.size = max node.size size
  invariant : ∃ tags, Invariant ⟨heap, world.moved node node'⟩ tags
  data : (node'.data, node'.room) ∈ world.moved node node'
  bytes : ∀ place < node'.size,
    heap.memory (node'.data + place) = (node.contents world.storage.heap.memory).byte place
  blank : node'.size = 0 → heap.memory node'.data = 0
  others : ∀ block count, (block, count) ∈ world.live → block ≠ node.data →
    (block, count) ∈ world.moved node node' ∧ block ≠ node'.data ∧
      Set.EqOn heap.memory world.storage.heap.memory (Set.Ico block (block + count))

theorem Sound.extended (hsound : Sound world) (hnode : world.storage.nodes address = some node)
    {node' : Node} {heap : Heap} {size : Nat}
    (hcall : ramfsExtend world.storage.heap node size = .ok (node', heap)) :
    Extended world node node' heap size := by
  obtain ⟨tags, hheap⟩ := hsound.heap
  have hlive := hsound.data hnode
  have hinside {place : Nat} (hplace : place < node.size) :
      (node.contents world.storage.heap.memory).byte place =
        world.storage.heap.memory (node.data + place) := Node.contents_byte hplace
  unfold ramfsExtend at hcall
  split at hcall
  next hgrows =>
    simp only [bind_eq_ok, pure_eq_ok, Except.ok.injEq, Prod.mk.injEq] at hcall
    obtain ⟨⟨heap', block⟩, hrealloc, rfl, rfl⟩ := hcall
    have hroom : node.room ≤ size := by
      unfold Node.room
      omega
    have hnewRoom : Node.room ⟨size, block⟩ = size := by
      change max 1 size = size
      omega
    obtain ⟨hinvariant, hreallocated⟩ := hheap.realloc hlive hroom hrealloc
    have hmoved : world.moved node ⟨size, block⟩ =
        (block, size) :: world.live.erase (node.data, node.room) := by
      rw [World.moved, if_pos hgrows, hnewRoom]
    refine ⟨(max_eq_right hgrows.le).symm, by rwa [hmoved], by simp [hmoved, hnewRoom], ?_,
      fun hzero => by simp only at hzero; omega, fun other count hother hne => ?_⟩
    · intro place hplace
      have hlt : place < size := hplace
      by_cases hold : place < node.room
      · rw [hreallocated.copied place (by omega)]
        by_cases hbyte : place < node.size
        · rw [hinside hbyte]
          rfl
        · -- the one byte of an empty file
          have hempty : node.size = 0 ∧ place = 0 := by
            unfold Node.room at hold
            omega
          obtain ⟨hempty, rfl⟩ := hempty
          rw [(node.contents world.storage.heap.memory).blank 0 (Nat.not_lt.mp hbyte)]
          exact hsound.blank hnode hempty
      · rw [hheap.realloc_zeroed hlive hroom hrealloc (Nat.not_lt.mp hold) hlt]
        refine ((node.contents world.storage.heap.memory).blank place ?_).symm
        change node.size ≤ place
        unfold Node.room at hold
        omega
    · obtain ⟨hkept, hbytes⟩ := hreallocated.others other count hother hne
      obtain ⟨tags', hnext⟩ := hinvariant
      rw [hmoved]
      exact ⟨List.mem_cons_of_mem _ hkept, live_ne hnext hkept, hbytes⟩
  next hfits =>
    cases hcall
    have hmoved : world.moved node node = world.live := if_neg (lt_irrefl _)
    rw [← hmoved] at hlive
    refine ⟨(max_eq_left (Nat.not_lt.mp hfits)).symm, ⟨tags, by rwa [hmoved]⟩, hlive,
      fun place hplace => (hinside hplace).symm, hsound.blank hnode, fun other count hother hne => ?_⟩
    rw [hmoved]
    exact ⟨hother, hne, Set.eqOn_refl _ _⟩

theorem ramfsWrite_eq_ok {data : List UInt8} {offset count : Nat} {next : Storage}
    (hnode : world.storage.nodes address = some node)
    (hcall : ramfsWrite world.storage address data offset = .ok (count, next)) :
    ∃ node' heap, ramfsExtend world.storage.heap node (u64 (offset + data.length)) = .ok (node', heap) ∧
      count = data.length ∧
      next = ⟨{ heap with memory := copyIn heap.memory (node'.data + offset) data },
        update world.storage.nodes address (some node')⟩ := by
  simp only [ramfsWrite, hnode, bind_eq_ok, pure_eq_ok, Except.ok.injEq, Prod.mk.injEq] at hcall
  obtain ⟨⟨node', heap⟩, hextend, rfl, rfl⟩ := hcall
  exact ⟨node', heap, hextend, rfl, rfl⟩

/-- A write that returns has put the bytes into the file, and left the other files alone. -/
theorem Sound.written (hsound : Sound world) (hnode : world.storage.nodes address = some node)
    {data : List UInt8} {offset count : Nat} {next : Storage} (hfits : offset + data.length < 2 ^ 64)
    (hcall : ramfsWrite world.storage address data offset = .ok (count, next)) :
    count = data.length ∧ ∃ node', Sound ⟨next, world.moved node node'⟩ ∧
      Replaced world ⟨next, world.moved node node'⟩ address node' ∧
      node'.contents next.heap.memory =
        (node.contents world.storage.heap.memory).write offset data := by
  obtain ⟨node', heap, hextend, rfl, rfl⟩ := ramfsWrite_eq_ok hnode hcall
  rw [u64_eq_self hfits] at hextend
  have hextended := hsound.extended hnode hextend
  obtain ⟨tags, hheap⟩ := hextended.invariant
  have hsize := hextended.size
  have hroom : node'.size ≤ node'.room := Nat.le_max_right 1 node'.size
  have hbound := hheap.block_lt hextended.data
  have houtside {place : Nat} (hplace : place < node'.data ∨ node'.data + node'.size ≤ place) :
      copyIn heap.memory (node'.data + offset) data place = heap.memory place :=
    copyIn_apply_of_outside (by omega) (by omega)
  have hinvariant : Invariant ⟨{ heap with memory := copyIn heap.memory (node'.data + offset) data },
      world.moved node node'⟩ tags :=
    hheap.overwrite hextended.data fun place hplace => houtside (by omega)
  have hne : node.data ≠ address := hsound.apart hnode hnode
  have hreplaced : Replaced world ⟨⟨{ heap with memory := copyIn heap.memory (node'.data + offset) data },
      update world.storage.nodes address (some node')⟩, world.moved node node'⟩ address
      node' := by
    refine ⟨rfl, fun other held hother hheld => ?_⟩
    obtain ⟨hotherLive, hotherNe, -⟩ := hextended.others other nodeSize (hsound.node hheld)
      (hsound.apart hnode hheld).symm
    have hdistinct : held.data ≠ node.data := fun hsame => hother (hsound.distinct hheld hnode hsame)
    obtain ⟨hheldLive, hheldNe, hbytes⟩ := hextended.others held.data held.room (hsound.data hheld)
      hdistinct
    refine ⟨hotherLive, hotherNe, hheldLive, hheldNe, hsound.apart hheld hnode, ?_⟩
    have hfar := hheap.apart hextended.data hheldLive fun hpair => hheldNe (Prod.mk.inj hpair).1.symm
    simp only [Heap.Apart] at hfar
    intro place hplace
    have hlower := hplace.1
    have hupper := hplace.2
    rw [← hbytes hplace]
    exact houtside (by omega)
  obtain ⟨hself, hselfNe, -⟩ := hextended.others address nodeSize (hsound.node hnode) hne.symm
  refine ⟨rfl, node', hsound.replace hreplaced ⟨tags, hinvariant⟩ hself hextended.data hselfNe.symm ?_,
    hreplaced, Node.contents_copyIn (by omega) hsize hextended.bytes⟩
  intro hzero
  rw [← hextended.blank hzero]
  exact houtside (by omega)

/-- If the block for a longer file can be allocated, a write returns. -/
theorem Sound.write_returns (hsound : Sound world) (hnode : world.storage.nodes address = some node)
    {data : List UInt8} {offset : Nat} (hfits : offset + data.length < 2 ^ 64)
    (halloc : node.size < offset + data.length →
      ∃ allocated, heapAlloc world.storage.heap (offset + data.length) = .ok allocated) :
    ∃ next, ramfsWrite world.storage address data offset = .ok (data.length, next) := by
  obtain ⟨tags, hheap⟩ := hsound.heap
  have hextend : ∃ extended, ramfsExtend world.storage.heap node (offset + data.length) =
      .ok extended := by
    unfold ramfsExtend
    split
    next hgrows =>
      obtain ⟨⟨grown, block⟩, hcall⟩ := halloc hgrows
      have hroom : node.room ≤ offset + data.length := by
        unfold Node.room
        omega
      obtain ⟨heap, hrealloc⟩ := hheap.realloc_returns (hsound.data hnode) hroom hcall
      refine ⟨(⟨offset + data.length, block⟩, heap), ?_⟩
      rw [show heapRealloc world.storage.heap node.data (offset + data.length) = .ok (heap, block)
        from hrealloc, ok_bind]
      exact pure_eq_ok _
    next => exact ⟨_, pure_eq_ok _⟩
  obtain ⟨⟨node', heap⟩, hextend⟩ := hextend
  refine ⟨⟨{ heap with memory := copyIn heap.memory (node'.data + offset) data },
    update world.storage.nodes address (some node')⟩, ?_⟩
  simp only [ramfsWrite, hnode, u64_eq_self hfits, hextend, ok_bind, pure_eq_ok]

/-! ## Other calls -/

theorem Sound.other (hsound : Sound world) {call : Call} {next : Heap.World}
    (hcall : CallStep world.heap call next) (hgrowing : Growing world.heap call)
    (hforeign : ∀ block, call.block? = some block → ¬world.storage.Owns block) :
    Sound ⟨{ world.storage with heap := next.heap }, next.live⟩ ∧
      Storage.contents { world.storage with heap := next.heap } = world.storage.contents := by
  obtain ⟨tags, hheap⟩ := hsound.heap
  have hframe {address : Nat} {node : Node} (hnode : world.storage.nodes address = some node)
      {block size : Nat} (hlive : (block, size) ∈ world.live) (howns : block = address ∨ block = node.data) :=
    hheap.callStep_frame hcall hgrowing hlive fun hsame => hforeign block hsame ⟨address, node, hnode, howns⟩
  refine ⟨⟨hheap.callStep hcall hgrowing, fun hnode => (hframe hnode (hsound.node hnode) (.inl rfl)).1,
    fun hnode => (hframe hnode (hsound.data hnode) (.inr rfl)).1, fun hnode hzero => ?_,
    hsound.distinct, hsound.apart⟩, ?_⟩
  · have hbytes := (hframe hnode (hsound.data hnode) (.inr rfl)).2
    rw [show next.heap.memory _ = world.heap.heap.memory _ from
      hbytes ⟨le_rfl, by unfold Node.room; omega⟩]
    exact hsound.blank hnode hzero
  · funext address
    simp only [Storage.contents]
    cases hnode : world.storage.nodes address with
    | none => rfl
    | some node =>
        rw [Option.map_some, Option.map_some,
          Node.contents_congr (hframe hnode (hsound.data hnode) (.inr rfl)).2]
        rfl

/-! ## Every run -/

theorem Storage.contents_eq_some {storage : Storage} {file : SparseBytes} :
    storage.contents address = some file ↔ ∃ node, storage.nodes address = some node ∧
      node.contents storage.heap.memory = file := Option.map_eq_some_iff

theorem Sound.step (hsound : Sound world) {op : Op} (hstep : Step world op next) : Sound next := by
  cases hstep with
  | make halloc hcreate hnode =>
      obtain ⟨-, -, data, hreplaced, hmade⟩ := hsound.made halloc hcreate
      rw [hreplaced.nodes, update_self] at hnode
      cases hnode
      exact hmade
  | write hnode hfits hcall hnode' =>
      obtain ⟨-, node', hwritten, hreplaced, -⟩ := hsound.written hnode hfits hcall
      rw [hreplaced.nodes, update_self] at hnode'
      cases hnode'
      exact hwritten
  | other hcall hgrowing hforeign => exact (hsound.other hcall hgrowing hforeign).1

theorem sound_inductive : ramfs.Inductive Sound where
  init := by
    rintro world ⟨memory, rfl⟩
    exact ⟨⟨initTags, Invariant.init memory⟩, nofun, nofun, nofun, nofun, nofun⟩
  step _ _ _ hsound hstep := hsound.step hstep

/-- A file that is made has no bytes, and the others have the bytes they had. -/
theorem Sound.contents_made (hsound : Sound world) {allocated made : Storage} {goesOn : Bool}
    (halloc : ramfsAllocNode world.storage = .ok (address, allocated))
    (hcreate : ramfsCreateNode allocated address .regular = .ok (goesOn, made)) :
    world.storage.contents address = none ∧
      made.contents = update world.storage.contents address (some .empty) := by
  obtain ⟨-, hnone, data, hreplaced, -⟩ := hsound.made halloc hcreate
  have hempty : Node.contents ⟨0, data⟩ made.heap.memory = .empty :=
    SparseBytes.ext_of_lt rfl nofun
  refine ⟨by rw [Storage.contents, hnone]; rfl, ?_⟩
  rw [← hempty]
  exact hreplaced.contents

theorem Sound.contents_written (hsound : Sound world) {file : SparseBytes}
    (hfile : world.storage.contents address = some file) {data : List UInt8} {offset count : Nat}
    {next : Storage} (hfits : offset + data.length < 2 ^ 64)
    (hcall : ramfsWrite world.storage address data offset = .ok (count, next)) :
    count = data.length ∧ next.contents =
      update world.storage.contents address (some (file.write offset data)) := by
  obtain ⟨node, hnode, rfl⟩ := Storage.contents_eq_some.mp hfile
  obtain ⟨hcount, node', -, hreplaced, hcontents⟩ := hsound.written hnode hfits hcall
  rw [← hcontents]
  exact ⟨hcount, hreplaced.contents⟩

/-- A run is a run of sparse byte arrays. -/
theorem reachable_contents (hreach : ramfs.Reachable world) :
    sparseFiles.Reachable world.storage.contents := by
  induction hreach with
  | init hinit =>
      obtain ⟨memory, rfl⟩ := hinit
      exact .init rfl
  | step hreach hstep ih =>
      have hsound := hreach.invariant sound_inductive
      cases hstep with
      | make halloc hcreate _ =>
          obtain ⟨hfresh, hcontents⟩ := hsound.contents_made halloc hcreate
          rw [hcontents]
          exact ih.step (FileStep.make hfresh)
      | write hnode hfits hcall _ =>
          have hfile := Storage.contents_eq_some.mpr ⟨_, hnode, rfl⟩
          rw [(hsound.contents_written hfile hfits hcall).2]
          exact ih.step (FileStep.write hfile)
      | other hcall hgrowing hforeign =>
          rw [(hsound.other hcall hgrowing hforeign).2]
          exact ih

/-- What the files in memory do, as sparse byte arrays. -/
structure Refines (storage : Storage) : Prop where
  run : sparseFiles.Reachable storage.contents
  made : ∀ address allocated goesOn created,
    ramfsAllocNode storage = .ok (address, allocated) →
    ramfsCreateNode allocated address .regular = .ok (goesOn, created) →
    created.contents = update storage.contents address (some .empty)
  wrote : ∀ address file data offset count next, storage.contents address = some file →
    offset + data.length < 2 ^ 64 → ramfsWrite storage address data offset = .ok (count, next) →
    count = data.length ∧ ∃ file', SparseBytes.Written file file' offset data ∧
      next.contents = update storage.contents address (some file')
  /-- A write returns unless the allocation of a longer block panics. -/
  returns : ∀ address file data offset, storage.contents address = some file →
    offset + data.length < 2 ^ 64 →
    (file.length < offset + data.length →
      ∃ allocated, heapAlloc storage.heap (offset + data.length) = .ok allocated) →
    ∃ next, ramfsWrite storage address data offset = .ok (data.length, next)
  reads : ∀ address file size offset, storage.contents address = some file →
    offset + size < 2 ^ 64 →
    ramfsRead storage address size offset = .ok (file.read offset size)

theorem ramfs_refines (hreach : ramfs.Reachable world) : Refines world.storage where
  run := reachable_contents hreach
  made _ _ _ _ halloc hcreate :=
    ((hreach.invariant sound_inductive).contents_made halloc hcreate).2
  wrote _ file data offset _ _ hfile hfits hcall := by
    obtain ⟨hcount, hcontents⟩ :=
      (hreach.invariant sound_inductive).contents_written hfile hfits hcall
    exact ⟨hcount, _, file.written offset data, hcontents⟩
  returns _ _ _ _ hfile hfits halloc := by
    obtain ⟨node, hnode, rfl⟩ := Storage.contents_eq_some.mp hfile
    exact (hreach.invariant sound_inductive).write_returns hnode hfits halloc
  reads _ _ _ _ hfile hfits := by
    obtain ⟨node, hnode, rfl⟩ := Storage.contents_eq_some.mp hfile
    have hsound := hreach.invariant sound_inductive
    obtain ⟨tags, hheap⟩ := hsound.heap
    have hbound := hheap.block_lt (hsound.data hnode)
    have hroom : node.size ≤ node.room := Nat.le_max_right 1 node.size
    exact ramfsRead_eq hnode (by omega) hfits

/-- A file with one byte written at offset 2. -/
theorem ramfs_refines_one_file : ∃ world address, ramfs.Reachable world ∧ Refines world.storage ∧
    ramfsRead world.storage address 10 0 = .ok [0, 0, 65] := by
  have hcalls : (do
      let (address, allocated) ← ramfsAllocNode ⟨heapInit fun _ => 0, fun _ => none⟩
      let (_, made) ← ramfsCreateNode allocated address .regular
      let (_, written) ← ramfsWrite made address [65] 2
      ramfsRead written address 10 0) = .ok [0, 0, 65] := by decide +kernel
  obtain ⟨⟨address, allocated⟩, halloc, hcalls⟩ := bind_eq_ok.mp hcalls
  obtain ⟨⟨goesOn, made⟩, hcreate, hcalls⟩ := bind_eq_ok.mp hcalls
  obtain ⟨⟨count, written⟩, hwrite, hread⟩ := bind_eq_ok.mp hcalls
  have hinit : ramfs.Reachable ⟨⟨heapInit fun _ => 0, fun _ => none⟩, []⟩ := .init ⟨_, rfl⟩
  obtain ⟨rfl, -, data, hreplaced, -⟩ :=
    (hinit.invariant sound_inductive).made halloc hcreate
  have hnode : made.nodes address = some ⟨0, data⟩ := by
    rw [hreplaced.nodes, update_self]
  have hmade := hinit.step (Step.make halloc hcreate hnode)
  obtain ⟨-, node, -, hreplaced', -⟩ := (hmade.invariant sound_inductive).written hnode
    (by decide) hwrite
  have hnode' : written.nodes address = some node := by
    rw [hreplaced'.nodes, update_self]
  have hwritten := hmade.step (Step.write hnode (by decide) hwrite hnode')
  exact ⟨_, address, hwritten, ramfs_refines hwritten, hread⟩

end PKernel.Ramfs
