import PKernel.Filesystem.Ramfs

/-! # The bytes that a transfer touches

`ramfs_read` and `ramfs_write` compare the sum of an offset and a size with the length of the
file. Both are numbers of the caller, and their sum has 64 bits.
-/

namespace PKernel.Ramfs

open Heap Library Library.ByteMemory

/-- Reads and writes of so many bytes touch only bytes of the file, as long as it is then. -/
structure InBounds (storage : Storage) (address offset size : Nat) : Prop where
  read : ∀ node, storage.nodes address = some node →
    ∀ index ∈ touched offset (node.readSize size offset), index < node.size
  write : ∀ data : List UInt8, data.length = size → ∀ count next node,
    ramfsWrite storage address data offset = .ok (count, next) →
    next.nodes address = some node → ∀ index ∈ touched offset size, index < node.size

variable {storage next : Storage} {address offset size count : Nat} {node : Node}
  {data : List UInt8}

theorem mem_touched {index : Nat} :
    index ∈ touched offset size ↔ ∃ i, (offset ≤ i ∧ i < offset + size) ∧ u64 i = index := by
  simp only [touched, List.mem_map, List.mem_range'_1]

/-- Indexes that wrap pass the last one there is. -/
theorem last_mem_touched (hoffset : offset < 2 ^ 64) (hwraps : 2 ^ 64 ≤ offset + size) :
    2 ^ 64 - 1 ∈ touched offset size :=
  mem_touched.mpr ⟨2 ^ 64 - 1, by omega, u64_eq_self (by omega)⟩

/-! ## The transfers -/

/-- `ramfs_write` changes no other byte of the heap it has for the file. -/
theorem ramfsWrite_touched (hnode : storage.nodes address = some node)
    (hcall : ramfsWrite storage address data offset = .ok (count, next)) : ∃ node' heap,
      ramfsExtend storage.heap node (u64 (offset + data.length)) = .ok (node', heap) ∧
      next.nodes address = some node' ∧
      ∀ place, (∀ index ∈ touched offset data.length, place ≠ u64 (node'.data + index)) →
        next.heap.memory place = heap.memory place := by
  rw [ramfsWrite, hnode] at hcall
  obtain ⟨⟨node', heap⟩, hextend, hcall⟩ := bind_eq_ok.mp hcall
  cases hcall
  refine ⟨node', heap, hextend, Function.update_self _ _ _, fun place hplace => ?_⟩
  refine copyIn_apply_of_ne fun i hi => ?_
  have hne := hplace (u64 (offset + i)) (mem_touched.mpr ⟨offset + i, by omega, rfl⟩)
  rwa [u64, u64, Nat.add_mod_mod, ← Nat.add_assoc] at hne

/-- The length of the file behind `ramfs_write`. -/
theorem ramfsExtend_size {heap heap' : Heap} {node' : Node} {length : Nat}
    (hextend : ramfsExtend heap node length = .ok (node', heap')) :
    node'.size = max node.size length := by
  unfold ramfsExtend at hextend
  split at hextend
  · obtain ⟨result, -, hextend⟩ := bind_eq_ok.mp hextend
    cases hextend
    exact (max_eq_right_of_lt ‹_›).symm
  · cases hextend
    exact (max_eq_left (Nat.le_of_not_lt ‹_›)).symm

/-! ## Reads -/

/-- A read goes out of its file if the sum wraps to no more than the length. -/
theorem read_inBounds_iff (hlength : node.size < 2 ^ 64) (hoffset : offset < 2 ^ 64) :
    (∀ index ∈ touched offset (node.readSize size offset), index < node.size) ↔
      offset + size < 2 ^ 64 ∨ node.size ≤ offset ∨ node.size < u64 (offset + size) := by
  rw [Nat.add_comm offset size]
  unfold Node.readSize
  constructor
  · intro hinside
    by_contra hnot
    obtain ⟨hwraps, hbefore, hsum⟩ : ¬size + offset < 2 ^ 64 ∧ ¬node.size ≤ offset ∧
        ¬node.size < u64 (size + offset) := by tauto
    rw [if_neg hbefore, if_neg hsum] at hinside
    have hlast := hinside (2 ^ 64 - 1) (last_mem_touched hoffset (by omega))
    omega
  · intro hor index hindex
    obtain ⟨i, hi, rfl⟩ := mem_touched.mp hindex
    have hlt : i < node.size := by
      split at hi
      · omega
      · split at hi
        · omega
        · have hfits : size + offset < 2 ^ 64 := by tauto
          have hsum : u64 (size + offset) = size + offset := u64_eq_self hfits
          omega
    rwa [u64_eq_self (hlt.trans hlength)]

/-! ## Writes -/

/-- A write goes out of its file if the sum wraps. -/
theorem write_inBounds_iff (hlength : node.size < 2 ^ 64) (hoffset : offset < 2 ^ 64)
    (hnode : storage.nodes address = some node) :
    (∀ data : List UInt8, data.length = size → ∀ count next node,
      ramfsWrite storage address data offset = .ok (count, next) →
      next.nodes address = some node → ∀ index ∈ touched offset size, index < node.size) ↔
      offset + size < 2 ^ 64 ∨
        ∀ result, ramfsExtend storage.heap node (u64 (offset + size)) ≠ .ok result := by
  constructor
  · intro hinside
    by_contra hnot
    obtain ⟨hwraps, hextend⟩ := not_or.mp hnot
    obtain ⟨⟨node', heap⟩, hextend⟩ := not_forall_not.mp hextend
    have hlast := hinside (List.replicate size 0) List.length_replicate _ _ node' (by
        rw [ramfsWrite, hnode]
        simp only [List.length_replicate]
        rw [hextend, ok_bind]
        rfl) (Function.update_self _ _ _) (2 ^ 64 - 1) (last_mem_touched hoffset (by omega))
    have hmax := ramfsExtend_size hextend
    have hsum := u64_lt (offset + size)
    omega
  · rintro hor data rfl count next node' hcall hnode' index hindex
    obtain ⟨twin, heap, hextend, htwin, -⟩ := ramfsWrite_touched hnode hcall
    obtain rfl : node' = twin := Option.some.inj (hnode'.symm.trans htwin)
    rcases hor with hfits | hstops
    · have hmax := ramfsExtend_size hextend
      rw [u64_eq_self hfits] at hmax
      obtain ⟨i, hi, rfl⟩ := mem_touched.mp hindex
      rw [u64_eq_self (show i < 2 ^ 64 by omega)]
      omega
    · exact absurd hextend (hstops _)

/-- Transfers stay in the file exactly if their offset and size have a sum of 64 bits, or the heap
has no room for a file as long as the wrapped sum. -/
theorem inBounds_iff (hnode : storage.nodes address = some node) (hlength : node.size < 2 ^ 64)
    (hoffset : offset < 2 ^ 64) :
    InBounds storage address offset size ↔ offset + size < 2 ^ 64 ∨
      node.size < u64 (offset + size) ∧
        ∀ result, heapRealloc storage.heap node.data (u64 (offset + size)) ≠ .ok result := by
  have hread : (∀ held, storage.nodes address = some held →
      ∀ index ∈ touched offset (held.readSize size offset), index < held.size) ↔
        offset + size < 2 ^ 64 ∨ node.size ≤ offset ∨ node.size < u64 (offset + size) := by
    rw [← read_inBounds_iff hlength hoffset]
    refine ⟨fun hall => hall node hnode, fun hall held hheld => ?_⟩
    cases hnode.symm.trans hheld
    exact hall
  have hextend : (∀ result, ramfsExtend storage.heap node (u64 (offset + size)) ≠ .ok result) ↔
      node.size < u64 (offset + size) ∧
        ∀ result, heapRealloc storage.heap node.data (u64 (offset + size)) ≠ .ok result := by
    unfold ramfsExtend
    by_cases hlonger : node.size < u64 (offset + size)
    · rw [if_pos hlonger]
      simp only [hlonger, true_and]
      constructor
      · rintro hstops ⟨heap, moved⟩ hrealloc
        exact hstops _ (by rw [hrealloc, ok_bind]; rfl)
      · rintro hstops result hbind
        obtain ⟨moved, hrealloc, -⟩ := bind_eq_ok.mp hbind
        exact hstops moved hrealloc
    · rw [if_neg hlonger]
      exact ⟨fun hstops => absurd rfl (hstops _), fun hand => absurd hand.1 hlonger⟩
  have hwrite := @write_inBounds_iff storage address offset size node hlength hoffset hnode
  rw [hextend] at hwrite
  constructor
  · rintro ⟨-, hwrites⟩
    exact hwrite.mp hwrites
  · intro hor
    refine ⟨hread.mpr ?_, hwrite.mpr hor⟩
    exact hor.imp_right fun hroom => .inr hroom.1

/-- A file of 10 bytes. -/
def tenBytes : Storage where
  heap := heapInit fun _ => 0
  nodes := Function.update (fun _ => none) 64 (some ⟨10, 128⟩)

theorem tenBytes_node : tenBytes.nodes 64 = some ⟨10, 128⟩ := by simp [tenBytes]

/-- A read and a write from its last byte on. -/
theorem inBounds_end : InBounds tenBytes 64 9 5 :=
  (inBounds_iff tenBytes_node (by decide) (by decide)).mpr (.inl (by decide))

/-- One byte at the last offset that a seek can set goes in front of the block. -/
theorem not_inBounds_wrapped : ¬InBounds tenBytes 64 (2 ^ 64 - 1) 1 ∧
    ∃ next, ramfsWrite tenBytes 64 [65] (2 ^ 64 - 1) = .ok (1, next) ∧
      next.nodes 64 = some ⟨10, 128⟩ ∧ next.heap.memory 127 = 65 := by
  have hcall : ∀ byte, ramfsWrite tenBytes 64 [byte] (2 ^ 64 - 1) = .ok (1, ⟨{ tenBytes.heap with
      memory := copyIn tenBytes.heap.memory (128 + (2 ^ 64 - 1)) [byte] },
        Function.update tenBytes.nodes 64 (some ⟨10, 128⟩)⟩) := by
    intro byte
    have hextend : ramfsExtend tenBytes.heap ⟨10, 128⟩ (u64 (2 ^ 64 - 1 + [byte].length)) =
        .ok (⟨10, 128⟩, tenBytes.heap) := if_neg (by rw [List.length_singleton]; decide)
    rw [ramfsWrite, tenBytes_node]
    simp only
    rw [hextend, ok_bind]
    rfl
  constructor
  · rintro ⟨-, hwrite⟩
    have hlast := hwrite [65] rfl _ _ ⟨10, 128⟩ (hcall 65) rfl (2 ^ 64 - 1)
      (last_mem_touched (by decide) (by decide))
    exact absurd hlast (by decide)
  · exact ⟨_, hcall 65, rfl, rfl⟩

end PKernel.Ramfs
