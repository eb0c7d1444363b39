import Mathlib.Data.Nat.Basic

/-! # Chains of chunks

A chunk has a size and may lead to another chunk. The bytes of a chain are counted from its
first chunk on, through chunks that may be empty or come again. A stretch of bytes is bounded
if the chain ends or gets to its last byte in finitely many chunks.
-/

namespace Library.ChunkChain

variable {Chunk : Type*} (size : Chunk → Nat) (next? : Chunk → Option Chunk) {chunk other : Chunk}
  {limit start stop n : Nat}

/-- The chunk with a number. -/
def nth : Nat → Chunk → Option Chunk
  | 0, chunk => some chunk
  | n + 1, chunk => (next? chunk).bind (nth n)

/-- The bytes in front of the chunk with a number. -/
def before : Nat → Chunk → Nat
  | 0, _ => 0
  | n + 1, chunk => size chunk + ((next? chunk).map (before n)).getD 0

/-- The chain ends, or it has so many bytes. -/
def Bounded (chunk : Chunk) (stop : Nat) : Prop :=
  ∃ n, nth next? n chunk = none ∨ stop ≤ before size next? n chunk

/-- The bytes of a stretch have places in their chunks below a limit. -/
def Within (limit : Nat) (chunk : Chunk) (start stop : Nat) : Prop :=
  ∀ n other, nth next? n chunk = some other → ∀ i, limit ≤ i → i < size other →
    before size next? n chunk + i < start ∨ stop ≤ before size next? n chunk + i

variable {size next?}

theorem before_next (hnext : next? chunk = some other) (n : Nat) :
    before size next? (n + 1) chunk = size chunk + before size next? n other := by
  simp [before, hnext]

theorem nth_next (hnext : next? chunk = some other) (n : Nat) :
    nth next? (n + 1) chunk = nth next? n other := by
  simp [nth, hnext]

/-- The bytes in front of a later chunk are at least those of the first. -/
theorem size_le_before (n : Nat) : size chunk ≤ before size next? (n + 1) chunk := Nat.le_add_right ..

/-! ## Bounded stretches -/

theorem bounded_of_le (hstop : stop ≤ size chunk) : Bounded size next? chunk stop :=
  ⟨1, .inr (Nat.le_trans hstop (size_le_before 0))⟩

theorem bounded_last (hlast : next? chunk = none) : Bounded size next? chunk stop :=
  ⟨1, .inl (by simp [nth, hlast])⟩

theorem bounded_next (hnext : next? chunk = some other) (hstop : 0 < stop) :
    Bounded size next? chunk (size chunk + stop) ↔ Bounded size next? other stop := by
  constructor
  · rintro ⟨_ | n, hn⟩
    · rcases hn with hnone | hle
      · cases hnone
      · exact absurd (Nat.le_zero.mp hle) (by omega)
    · rw [nth_next hnext, before_next hnext, Nat.add_le_add_iff_left] at hn
      exact ⟨n, hn⟩
  · rintro ⟨n, hn⟩
    refine ⟨n + 1, ?_⟩
    rwa [nth_next hnext, before_next hnext, Nat.add_le_add_iff_left]

/-! ## Stretches with places below a limit -/

theorem within_empty : Within size next? limit chunk start start := by
  intro n other _ i _ _
  omega

theorem within_last (hlast : next? chunk = none) (hstart : size chunk ≤ start) :
    Within size next? limit chunk start stop := by
  intro n other hother i _ hi
  cases n with
  | zero =>
      cases hother
      left
      rw [before]
      omega
  | succ n => simp [nth, hlast] at hother

theorem within_next (hnext : next? chunk = some other) :
    Within size next? limit chunk (size chunk + start) (size chunk + stop) ↔
      Within size next? limit other start stop := by
  constructor
  · intro hwithin n found hfound i hlimit hi
    have hplace := hwithin (n + 1) found (by rwa [nth_next hnext]) i hlimit hi
    rw [before_next hnext] at hplace
    omega
  · intro hwithin n found hfound i hlimit hi
    cases n with
    | zero =>
        cases hfound
        left
        rw [before]
        omega
    | succ n =>
        rw [nth_next hnext] at hfound
        have hplace := hwithin n found hfound i hlimit hi
        rw [before_next hnext]
        omega

/-- One byte of the first chunk. -/
theorem within_succ (hstart : start < size chunk) (hstop : start < stop) :
    Within size next? limit chunk start stop ↔
      start < limit ∧ Within size next? limit chunk (start + 1) stop := by
  constructor
  · intro hwithin
    refine ⟨?_, fun n other hother i hlimit hi => ?_⟩
    · by_contra hlimit
      have hplace := hwithin 0 chunk rfl start (Nat.le_of_not_lt hlimit) hstart
      rw [before] at hplace
      omega
    · have hplace := hwithin n other hother i hlimit hi
      omega
  · rintro ⟨hlimit, hwithin⟩ n other hother i hi hsize
    have hplace := hwithin n other hother i hi hsize
    cases n with
    | zero =>
        rw [before] at hplace ⊢
        omega
    | succ n =>
        have hlong : size chunk ≤ before size next? (n + 1) chunk := size_le_before n
        omega

end Library.ChunkChain
