import Mathlib.Data.List.Chain
import Mathlib.Data.List.Pairwise
import Mathlib.Algebra.GroupWithZero.Nat

/-! # Lists that tile an interval

A list of pieces, each with a start and a length, tiles `[low, high)` when the
first piece starts at `low`, every piece ends where the next one starts, and
the last one ends at `high`. Pieces of a tiling do not overlap, and every point
of the interval lies in one of them.
-/

namespace Library.Tiling

variable {α : Type*} (start length : α → Nat)

/-- The pieces lie end to end from `low` to `high`. -/
def Tiles : Nat → List α → Nat → Prop
  | low, [], high => low = high
  | low, piece :: rest, high => start piece = low ∧ Tiles (low + length piece) rest high

/-- Every marked piece of the first list has a twin in the second. -/
def MarkedIn (start length : α → Nat) (marked : α → Bool) (left right : List α) : Prop :=
  ∀ piece ∈ left, marked piece = true → ∃ twin ∈ right, marked twin = true ∧
    start twin = start piece ∧ length twin = length piece

/-- No two neighbouring pieces are both unmarked. -/
def Coalesced (marked : α → Bool) (pieces : List α) : Prop :=
  pieces.IsChain fun earlier later => marked earlier = true ∨ marked later = true

variable {start length} {low high : Nat} {pieces before after : List α} {piece : α}

@[simp]
theorem tiles_nil : Tiles start length low [] high ↔ low = high := Iff.rfl

@[simp]
theorem tiles_cons : Tiles start length low (piece :: pieces) high ↔
    start piece = low ∧ Tiles start length (low + length piece) pieces high := Iff.rfl

/-- A tiling of a concatenation is cut where the second list starts. -/
theorem tiles_append : Tiles start length low (before ++ after) high ↔
    ∃ middle, Tiles start length low before middle ∧ Tiles start length middle after high := by
  induction before generalizing low with
  | nil => simp
  | cons piece before ih =>
      simp only [List.cons_append, tiles_cons, ih]
      constructor
      · rintro ⟨hstart, middle, hbefore, hafter⟩
        exact ⟨middle, ⟨hstart, hbefore⟩, hafter⟩
      · rintro ⟨middle, ⟨hstart, hbefore⟩, hafter⟩
        exact ⟨hstart, middle, hbefore, hafter⟩

namespace Tiles

theorem le (htiles : Tiles start length low pieces high) : low ≤ high := by
  induction pieces generalizing low with
  | nil => exact Nat.le_of_eq htiles
  | cons piece pieces ih =>
      have := ih htiles.2
      omega

/-- The lengths of the pieces add up to that of the interval. -/
theorem sum_eq (htiles : Tiles start length low pieces high) :
    low + (pieces.map length).sum = high := by
  induction pieces generalizing low with
  | nil => simpa using htiles
  | cons piece pieces ih =>
      have hrest := ih htiles.2
      rw [List.map_cons, List.sum_cons]
      omega

/-- Every piece lies inside the interval. -/
theorem bounds (htiles : Tiles start length low pieces high) (hpiece : piece ∈ pieces) :
    low ≤ start piece ∧ start piece + length piece ≤ high := by
  obtain ⟨before, after, rfl⟩ := List.append_of_mem hpiece
  obtain ⟨middle, hbefore, hstart, hafter⟩ := tiles_append.mp htiles
  have hlow := hbefore.le
  have hhigh := hafter.le
  omega

/-- Earlier pieces end before later ones start. -/
theorem pairwise (htiles : Tiles start length low pieces high) :
    pieces.Pairwise fun earlier later => start earlier + length earlier ≤ start later := by
  induction pieces generalizing low with
  | nil => exact List.Pairwise.nil
  | cons piece pieces ih =>
      refine List.pairwise_cons.mpr ⟨?_, ih htiles.2⟩
      intro later hlater
      have hbounds := htiles.2.bounds hlater
      have := htiles.1
      omega

/-- Every point of the interval lies in a piece. -/
theorem exists_mem (htiles : Tiles start length low pieces high) {point : Nat}
    (hlow : low ≤ point) (hhigh : point < high) :
    ∃ piece ∈ pieces, start piece ≤ point ∧ point < start piece + length piece := by
  induction pieces generalizing low with
  | nil =>
      have : low = high := htiles
      omega
  | cons piece pieces ih =>
      have hstart := htiles.1
      by_cases hinside : point < low + length piece
      · exact ⟨piece, List.mem_cons_self, by omega, by omega⟩
      · obtain ⟨found, hfound, hbounds⟩ := ih htiles.2 (by omega)
        exact ⟨found, List.mem_cons_of_mem _ hfound, hbounds⟩

/-! ### Marked pieces determine a tiling

Let no two neighbouring pieces both be unmarked. Then an unmarked piece is a
maximal gap between marked ones, so the marked pieces leave no choice.
-/

section Marked

variable {marked : α → Bool} {left right : List α}

/-- The first piece has a twin only in the first place. -/
theorem head_twin {other : α} (hright : Tiles start length low (other :: right) high)
    (hpos : 0 < length other) {twin : α} (htwin : twin ∈ other :: right)
    (hstart : start twin = low) : twin = other := by
  rcases List.mem_cons.mp htwin with rfl | hlater
  · rfl
  · have := (hright.2.bounds hlater).1
    omega

/-- The gap at the front of one tiling is no longer than that of another. -/
theorem gap_le {other : α} (hleft : Tiles start length low (piece :: left) high)
    (hright : Tiles start length low (other :: right) high) (hpos : 0 < length piece)
    (hgap : marked piece = false) (hcoalesced : Coalesced marked (piece :: left))
    (hmarked : MarkedIn start length marked (piece :: left) (other :: right)) :
    length other ≤ length piece := by
  by_contra hlonger
  have hend := hright.2.le
  cases left with
  | nil =>
      have : low + length piece = high := hleft.2
      omega
  | cons next left =>
      have hnext : marked next = true := by
        simpa [hgap] using (List.isChain_cons_cons.mp hcoalesced).1
      have hstart : start next = low + length piece := hleft.2.1
      obtain ⟨twin, htwin, _, htwinStart, _⟩ := hmarked next (by simp) hnext
      rcases List.mem_cons.mp htwin with rfl | hlater
      · have := hright.1
        omega
      · have := (hright.2.bounds hlater).1
        omega

/-- Behind the first pieces, the marked ones still have their twins. -/
theorem markedIn_tail {other : α} (hleft : Tiles start length low (piece :: left) high)
    (hright : Tiles start length low (other :: right) high) (hpos : 0 < length piece)
    (hmarked : MarkedIn start length marked (piece :: left) (other :: right)) :
    MarkedIn start length marked left right := by
  intro later hlater hflag
  obtain ⟨twin, htwin, hrest⟩ := hmarked later (List.mem_cons_of_mem _ hlater) hflag
  rcases List.mem_cons.mp htwin with rfl | htail
  · have := (hleft.2.bounds hlater).1
    have := hright.1
    have := hrest.2.1
    omega
  · exact ⟨twin, htail, hrest⟩

/-- Two coalesced tilings of an interval with the same marked pieces are the
same, as far as starts, lengths and marks go. -/
theorem map_eq_of_marked (hleft : Tiles start length low left high)
    (hright : Tiles start length low right high) (hposLeft : ∀ piece ∈ left, 0 < length piece)
    (hposRight : ∀ piece ∈ right, 0 < length piece) (hcoalescedLeft : Coalesced marked left)
    (hcoalescedRight : Coalesced marked right) (hto : MarkedIn start length marked left right)
    (hfrom : MarkedIn start length marked right left) :
    left.map (fun piece => (start piece, length piece, marked piece)) =
      right.map fun piece => (start piece, length piece, marked piece) := by
  induction left generalizing low right with
  | nil =>
      cases right with
      | nil => rfl
      | cons other right =>
          have hend : low = high := hleft
          have hlonger := hright.2.le
          have := hposRight other (by simp)
          omega
  | cons piece left ih =>
      have hpos := hposLeft piece (by simp)
      cases right with
      | nil =>
          have hend : low = high := hright
          have hlonger := hleft.2.le
          omega
      | cons other right =>
          have hposOther := hposRight other (by simp)
          have hsame : length piece = length other ∧ marked piece = marked other := by
            cases hflag : marked piece with
            | true =>
                obtain ⟨twin, htwin, htwinFlag, hstart, hlength⟩ := hto piece (by simp) hflag
                obtain rfl := hright.head_twin hposOther htwin (hstart.trans hleft.1)
                exact ⟨hlength.symm, htwinFlag.symm⟩
            | false =>
                have hother : marked other = false := by
                  by_contra hset
                  obtain ⟨twin, htwin, htwinFlag, hstart, _⟩ :=
                    hfrom other (by simp) (by simpa using hset)
                  obtain rfl := hleft.head_twin hpos htwin (hstart.trans hright.1)
                  simp [hflag] at htwinFlag
                have hle := gap_le hleft hright hpos hflag hcoalescedLeft hto
                have hge := gap_le hright hleft hposOther hother hcoalescedRight hfrom
                exact ⟨Nat.le_antisymm hge hle, hother.symm⟩
          have hrest := ih hleft.2 (by rw [hsame.1]; exact hright.2)
            (fun later hlater => hposLeft later (List.mem_cons_of_mem _ hlater))
            (fun later hlater => hposRight later (List.mem_cons_of_mem _ hlater))
            (List.IsChain.tail hcoalescedLeft) (List.IsChain.tail hcoalescedRight)
            (markedIn_tail hleft hright hpos hto) (markedIn_tail hright hleft hposOther hfrom)
          simp only [List.map_cons, hrest, hsame.1, hsame.2, hleft.1, hright.1]

end Marked

end Tiles

end Library.Tiling
