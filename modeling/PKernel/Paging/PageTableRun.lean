import PKernel.Library.Transition
import PKernel.Paging.PageTableTree

/-! # Runs of the mapper

A run makes top-level tables and maps and unmaps ranges in them in any order.
The abstract state is the list of live mappings, a partial map from pages to
physical pages and flags for each top-level table. In every state of every run
the walk of every page of every table is what the partial map says.
-/

namespace PKernel.PageTables

open Library.TableTree Library.Transition

/-! ## Ranges of pages -/

section Ranges

variable {talloc : Tables → Option Allocation} {tables : Tables} {tops : List Nat} {top : Nat}

/-- Mapping a free range gives each of its pages its translation. -/
theorem mapPages_spec (hfresh : ∀ tables alloc, talloc tables = some alloc → Fresh tables alloc)
    (flags : Flags) {count first paddr : Nat} (hinv : Invariant tables tops) (htop : top ∈ tops)
    (hrange : first + count ≤ 2 ^ 36) (haligned : pageSize ∣ paddr)
    (hphys : paddr + count * pageSize ≤ 2 ^ 52)
    (hfree : ∀ i < count, walk tables top ((first + i) * pageSize) = none) :
    mapPages talloc top flags count tables paddr (first * pageSize) = .error .exhausted ∨
      ∃ allocations new, mapPages talloc top flags count tables paddr (first * pageSize) =
          .ok (true, allocations, new) ∧ Invariant new tops ∧
        ∀ other ∈ tops, ∀ page < 2 ^ 36, walk new other (page * pageSize) =
          if other = top ∧ first ≤ page ∧ page < first + count then
            some ⟨paddr + (page - first) * pageSize, flags⟩
          else walk tables other (page * pageSize) := by
  induction count generalizing tables first paddr with
  | zero =>
      refine .inr ⟨[], tables, rfl, hinv, ?_⟩
      intro other _ page _
      rw [if_neg (by omega)]
  | succ count ih =>
      have hhere : walk tables top (first * pageSize) = none := by
        simpa using hfree 0 (Nat.succ_pos count)
      have hnextPaddr : u64 (paddr + pageSize) = paddr + pageSize := by
        apply u64_eq_self
        unfold pageSize at *
        omega
      have hnextVaddr : u64 (first * pageSize + pageSize) = (first + 1) * pageSize := by
        rw [← Nat.succ_mul]
        apply u64_eq_self
        unfold pageSize at *
        omega
      rcases pagingMapSingle_spec hfresh hinv htop haligned
          (by unfold pageSize at *; omega) hhere flags with
        hdry | ⟨allocations, middle, hcall, hmiddle, hwalk⟩
      · left
        simp only [mapPages, hdry, error_bind]
      have hrest : ∀ i < count, walk middle top ((first + 1 + i) * pageSize) = none := by
        intro i hi
        rw [hwalk top htop, if_neg, ← hfree (i + 1) (by omega), Nat.add_assoc, Nat.add_comm 1]
        rintro ⟨-, hsame⟩
        have := (samePage_iff (by omega) (by omega)).mp hsame
        omega
      rcases ih hmiddle (by omega) (Nat.dvd_add haligned (Nat.dvd_refl _))
          (by rw [Nat.succ_mul] at hphys; omega) hrest with
        hdry | ⟨rest, new, hrestCall, hnew, hnewWalk⟩
      · left
        simp only [mapPages, hcall, ok_bind, Bool.not_true, Bool.false_eq_true, ↓reduceIte,
          hnextPaddr, hnextVaddr, hdry, error_bind]
      refine .inr ⟨allocations ++ rest, new, ?_, hnew, ?_⟩
      · simp only [mapPages, hcall, ok_bind, Bool.not_true, Bool.false_eq_true, ↓reduceIte,
          hnextPaddr, hnextVaddr, hrestCall, pure_eq_ok]
      · intro other hother page hpage
        rw [hnewWalk other hother page hpage, hwalk other hother]
        simp only [samePage_iff (show first < 2 ^ 36 by omega) hpage]
        by_cases hsame : other = top
        · -- The first page, one of the others, or none of them.
          rcases Nat.lt_trichotomy page first with hlt | rfl | hgt
          · rw [if_neg (by omega), if_neg (by omega), if_neg (by omega)]
          · rw [if_neg (by omega), if_pos ⟨hsame, rfl⟩, if_pos ⟨hsame, by omega, by omega⟩,
              Nat.sub_self, Nat.zero_mul, Nat.add_zero]
          · by_cases hinside : page < first + 1 + count
            · have hoffset : paddr + pageSize + (page - (first + 1)) * pageSize =
                  paddr + (page - first) * pageSize := by
                unfold pageSize
                omega
              rw [if_pos ⟨hsame, by omega, hinside⟩, if_pos ⟨hsame, by omega, by omega⟩, hoffset]
            · rw [if_neg (by omega), if_neg (by omega), if_neg (by omega)]
        · rw [if_neg fun h => hsame h.1, if_neg fun h => hsame h.1, if_neg fun h => hsame h.1]

/-- Unmapping a mapped range takes its translations away. -/
theorem unmapPages_spec {count first : Nat} (hinv : Invariant tables tops) (htop : top ∈ tops)
    (hrange : first + count ≤ 2 ^ 36)
    (hmapped : ∀ i < count, walk tables top ((first + i) * pageSize) ≠ none) :
    ∃ new, unmapPages tables top (first * pageSize) count = .ok new ∧ Invariant new tops ∧
      ∀ other ∈ tops, ∀ page < 2 ^ 36, walk new other (page * pageSize) =
        if other = top ∧ first ≤ page ∧ page < first + count then none
        else walk tables other (page * pageSize) := by
  induction count with
  | zero =>
      refine ⟨tables, rfl, hinv, ?_⟩
      intro other _ page _
      rw [if_neg (by omega)]
  | succ count ih =>
      obtain ⟨middle, hcall, hmiddle, hwalk⟩ := ih (by omega) fun i hi => hmapped i (by omega)
      have hvaddr : u64 (first * pageSize + count * pageSize) = (first + count) * pageSize := by
        rw [← Nat.add_mul]
        apply u64_eq_self
        unfold pageSize
        omega
      obtain ⟨leaf, hleaf⟩ : ∃ leaf, walk middle top ((first + count) * pageSize) = some leaf := by
        rw [hwalk top htop _ (by omega), if_neg (by omega)]
        exact Option.ne_none_iff_exists'.mp (hmapped count (by omega))
      obtain ⟨new, hsingle, hnew, hnewWalk⟩ := pagingUnmapSingle_spec hmiddle htop hleaf
      refine ⟨new, ?_, hnew, ?_⟩
      · simp only [unmapPages, hcall, ok_bind, hvaddr, hsingle, pure_eq_ok]
      · intro other hother page hpage
        rw [hnewWalk other hother, hwalk other hother page hpage]
        simp only [samePage_iff (show first + count < 2 ^ 36 by omega) hpage]
        by_cases hsame : other = top
        · by_cases hlast : page = first + count
          · rw [if_pos ⟨hsame, hlast⟩, if_pos ⟨hsame, by omega, by omega⟩]
          · rw [if_neg fun h => hlast h.2]
            by_cases hinside : first ≤ page ∧ page < first + count
            · rw [if_pos ⟨hsame, hinside⟩, if_pos ⟨hsame, by omega, by omega⟩]
            · rw [if_neg fun h => hinside h.2, if_neg (by omega)]
        · rw [if_neg fun h => hsame h.1, if_neg fun h => hsame h.1, if_neg fun h => hsame h.1]

end Ranges

/-! ## The partial map -/

/-- A live mapping: the table, what `paging_map_ex` recorded, and what it was
asked for. -/
structure Mapped where
  pml4t : Nat
  mapping : PagingMapping
  paddr : Nat
  flags : Flags
deriving DecidableEq

namespace Mapped

def firstPage (mapped : Mapped) : Nat := mapped.mapping.vaddr / pageSize

/-- The page of the table belongs to the mapping. -/
def Covers (mapped : Mapped) (pml4t page : Nat) : Prop :=
  pml4t = mapped.pml4t ∧ mapped.firstPage ≤ page ∧ page < mapped.firstPage + mapped.mapping.sizePages

instance (mapped : Mapped) (pml4t page : Nat) : Decidable (mapped.Covers pml4t page) :=
  inferInstanceAs (Decidable (_ ∧ _))

/-- The translation that the mapping gives a page. -/
def leafAt (mapped : Mapped) (pml4t page : Nat) : Option Leaf :=
  if mapped.Covers pml4t page then
    some ⟨mapped.paddr + (page - mapped.firstPage) * pageSize, mapped.flags⟩
  else none

end Mapped

/-- The partial map of the live mappings. -/
def lookup (live : List Mapped) (pml4t page : Nat) : Option Leaf :=
  live.findSome? fun mapped => mapped.leafAt pml4t page

/-- No page belongs to two mappings. -/
def Apart (live : List Mapped) : Prop :=
  live.Pairwise fun first second => ∀ pml4t page, first.Covers pml4t page →
    ¬second.Covers pml4t page

section Lookup

variable {live : List Mapped} {mapped : Mapped} {pml4t page : Nat} {leaf : Leaf}

theorem Mapped.covers_of_leafAt (hleaf : mapped.leafAt pml4t page = some leaf) :
    mapped.Covers pml4t page := by
  unfold Mapped.leafAt at hleaf
  split at hleaf
  · assumption
  · cases hleaf

theorem lookup_eq_some (hapart : Apart live) : lookup live pml4t page = some leaf ↔
    ∃ mapped ∈ live, mapped.leafAt pml4t page = some leaf := by
  induction live with
  | nil => simp [lookup]
  | cons first live ih =>
      obtain ⟨hfirst, hlive⟩ := List.pairwise_cons.mp hapart
      rw [lookup, List.findSome?_cons]
      by_cases hcovers : first.Covers pml4t page
      · have hhere : first.leafAt pml4t page =
            some ⟨first.paddr + (page - first.firstPage) * pageSize, first.flags⟩ := if_pos hcovers
        rw [hhere]
        constructor
        · intro hleaf
          exact ⟨first, List.mem_cons_self, hhere.trans hleaf⟩
        · rintro ⟨mapped, hmapped, hleaf⟩
          rcases List.mem_cons.mp hmapped with rfl | hmapped
          · exact hhere.symm.trans hleaf
          · exact absurd (Mapped.covers_of_leafAt hleaf) (hfirst mapped hmapped pml4t page hcovers)
      · have hhere : first.leafAt pml4t page = none := if_neg hcovers
        rw [hhere]
        simp only [List.mem_cons, exists_eq_or_imp, hhere]
        exact (ih hlive).trans (by simp)

theorem lookup_eq_none (hnone : ∀ mapped ∈ live, ¬mapped.Covers pml4t page) :
    lookup live pml4t page = none := by
  rw [lookup, List.findSome?_eq_none_iff]
  intro mapped hmapped
  exact if_neg (hnone mapped hmapped)

theorem lookup_cons : lookup (mapped :: live) pml4t page =
    if mapped.Covers pml4t page then
      some ⟨mapped.paddr + (page - mapped.firstPage) * pageSize, mapped.flags⟩
    else lookup live pml4t page := by
  rw [lookup, List.findSome?_cons, Mapped.leafAt]
  split <;> simp_all [lookup]

theorem Apart.erase (hapart : Apart live) (mapped : Mapped) : Apart (live.erase mapped) :=
  List.Pairwise.sublist List.erase_sublist hapart

/-- The other live mappings keep off the pages of this one. -/
theorem Apart.erase_covers (hapart : Apart live) (hmapped : mapped ∈ live)
    (hcovers : mapped.Covers pml4t page) :
    ∀ other ∈ live.erase mapped, ¬other.Covers pml4t page := by
  have hperm := List.perm_cons_erase hmapped
  have hpairwise : Apart (mapped :: live.erase mapped) :=
    (hperm.pairwise_iff fun h pml4t page hsecond hfirst => h pml4t page hfirst hsecond).mp hapart
  intro other hother
  exact (List.pairwise_cons.mp hpairwise).1 other hother pml4t page hcovers

theorem lookup_erase (hapart : Apart live) (hmapped : mapped ∈ live) :
    lookup (live.erase mapped) pml4t page =
      if mapped.Covers pml4t page then none else lookup live pml4t page := by
  split
  · next hcovers => exact lookup_eq_none (hapart.erase_covers hmapped hcovers)
  · next hcovers =>
      ext leaf
      rw [lookup_eq_some (hapart.erase mapped), lookup_eq_some hapart]
      constructor
      · rintro ⟨other, hother, hleaf⟩
        exact ⟨other, List.mem_of_mem_erase hother, hleaf⟩
      · rintro ⟨other, hother, hleaf⟩
        refine ⟨other, (List.mem_erase_of_ne ?_).mpr hother, hleaf⟩
        rintro rfl
        exact hcovers (Mapped.covers_of_leafAt hleaf)

end Lookup

/-! ## Runs -/

/-- The tables in memory, the top-level ones, and the live mappings. -/
structure World where
  tables : Tables
  tops : List Nat
  live : List Mapped

inductive Op where
  | newTable
  | map (pml4t paddr vaddr sizePages : Nat) (flags : Flags)
  | unmap (mapped : Mapped)

/-- The top-level table that an operation is on. -/
def Op.target : Op → Option Nat
  | .newTable => none
  | .map pml4t _ _ _ _ => some pml4t
  | .unmap mapped => some mapped.pml4t

/-- One call that returns. -/
inductive Step (talloc : Tables → Option Allocation) (world : World) : Op → World → Prop
  | newTable {alloc : Allocation} {tables : Tables}
      (hreturn : tallocAlloc talloc world.tables = .ok (alloc, tables)) :
      Step talloc world .newTable ⟨tables, alloc.vaddr :: world.tops, world.live⟩
  | map {pml4t paddr vaddr sizePages : Nat} {flags : Flags} {result : Bool}
      {mapping : PagingMapping} {tables : Tables} (htop : pml4t ∈ world.tops)
      (hvaddr : pageSize ∣ vaddr) (hrange : vaddr + sizePages * pageSize ≤ 2 ^ 48)
      (hpaddr : pageSize ∣ paddr) (hphys : paddr + sizePages * pageSize ≤ 2 ^ 52)
      (hfree : ∀ i < sizePages, walk world.tables pml4t (vaddr + i * pageSize) = none)
      (hreturn : pagingMapEx talloc world.tables pml4t paddr vaddr sizePages flags =
        .ok (result, mapping, tables)) :
      Step talloc world (.map pml4t paddr vaddr sizePages flags)
        ⟨tables, world.tops, ⟨pml4t, mapping, paddr, flags⟩ :: world.live⟩
  | unmap {mapped : Mapped} {tables : Tables} (hlive : mapped ∈ world.live)
      (hreturn : pagingUnmap world.tables mapped.pml4t mapped.mapping = .ok tables) :
      Step talloc world (.unmap mapped) ⟨tables, world.tops, world.live.erase mapped⟩

/-- A run starts before any table was handed out. -/
def system (talloc : Tables → Option Allocation) : System World Op where
  init world := world.tables.used = [] ∧ world.tops = [] ∧ world.live = []
  step := Step talloc

/-- The walks of the tables are what the live mappings say. -/
structure WorldInvariant (world : World) : Prop where
  tables : Invariant world.tables world.tops
  walk : ∀ top ∈ world.tops, ∀ page < 2 ^ 36,
    walk world.tables top (page * pageSize) = lookup world.live top page
  range : ∀ mapped ∈ world.live, mapped.pml4t ∈ world.tops ∧ pageSize ∣ mapped.mapping.vaddr ∧
    mapped.mapping.vaddr + mapped.mapping.sizePages * pageSize ≤ 2 ^ 48
  apart : Apart world.live

/-- What holds between calls. -/
structure Consistent (talloc : Tables → Option Allocation) (world : World) : Prop where
  /-- Page `i` of each live mapping is translated as asked for. -/
  mapped : ∀ mapped ∈ world.live, ∀ i < mapped.mapping.sizePages,
    walk world.tables mapped.pml4t (mapped.mapping.vaddr + i * pageSize) =
      some ⟨mapped.paddr + i * pageSize, mapped.flags⟩
  /-- Every other page is not present. -/
  absent : ∀ top ∈ world.tops, ∀ page < 2 ^ 36,
    (∀ mapped ∈ world.live, ¬mapped.Covers top page) →
      walk world.tables top (page * pageSize) = none
  /-- No call changes the walk of another top-level table. -/
  frame : ∀ op next, Step talloc world op next → ∀ other ∈ world.tops, op.target ≠ some other →
    ∀ page < 2 ^ 36,
      walk next.tables other (page * pageSize) = walk world.tables other (page * pageSize)
  /-- Mapping a free range succeeds as long as there are tables. -/
  map : ∀ pml4t ∈ world.tops, ∀ paddr vaddr sizePages flags, pageSize ∣ vaddr →
    vaddr + sizePages * pageSize ≤ 2 ^ 48 → pageSize ∣ paddr →
    paddr + sizePages * pageSize ≤ 2 ^ 52 →
    (∀ i < sizePages, walk world.tables pml4t (vaddr + i * pageSize) = none) →
      pagingMapEx talloc world.tables pml4t paddr vaddr sizePages flags = .error .exhausted ∨
        ∃ allocations tables,
          pagingMapEx talloc world.tables pml4t paddr vaddr sizePages flags =
            .ok (true, ⟨sizePages, allocations, vaddr⟩, tables)
  /-- Unmapping a live mapping returns. -/
  unmap : ∀ mapped ∈ world.live,
    ∃ tables, pagingUnmap world.tables mapped.pml4t mapped.mapping = .ok tables

variable {talloc : Tables → Option Allocation}
  (hfresh : ∀ tables alloc, talloc tables = some alloc → Fresh tables alloc)
  {world next : World} {op : Op}

theorem WorldInvariant.init (hinit : (system talloc).init world) : WorldInvariant world := by
  obtain ⟨hused, htops, hlive⟩ := hinit
  refine ⟨⟨?_, ?_, ?_, ?_, ?_⟩, ?_, ?_, ?_⟩ <;> simp [hused, htops, hlive, roots, Forest, Apart]

namespace WorldInvariant

include hfresh in
/-- A call of `paging_map_ex` on a free range. -/
theorem map_spec (hworld : WorldInvariant world) {pml4t paddr vaddr sizePages : Nat} (flags : Flags)
    (htop : pml4t ∈ world.tops) (hvaddr : pageSize ∣ vaddr)
    (hrange : vaddr + sizePages * pageSize ≤ 2 ^ 48) (hpaddr : pageSize ∣ paddr)
    (hphys : paddr + sizePages * pageSize ≤ 2 ^ 52)
    (hfree : ∀ i < sizePages, PageTables.walk world.tables pml4t (vaddr + i * pageSize) = none) :
    pagingMapEx talloc world.tables pml4t paddr vaddr sizePages flags = .error .exhausted ∨
      ∃ allocations tables,
        pagingMapEx talloc world.tables pml4t paddr vaddr sizePages flags =
          .ok (true, ⟨sizePages, allocations, vaddr⟩, tables) ∧
        WorldInvariant ⟨tables, world.tops,
          ⟨pml4t, ⟨sizePages, allocations, vaddr⟩, paddr, flags⟩ :: world.live⟩ := by
  obtain ⟨first, rfl⟩ := hvaddr
  rw [Nat.mul_comm pageSize first] at *
  have hpages : first + sizePages ≤ 2 ^ 36 := by
    unfold pageSize at hrange
    omega
  have hfree' : ∀ i < sizePages,
      PageTables.walk world.tables pml4t ((first + i) * pageSize) = none := by
    intro i hi
    rw [Nat.add_mul]
    exact hfree i hi
  have hfirst : first * pageSize / pageSize = first := Nat.mul_div_cancel _ (by decide)
  rcases mapPages_spec hfresh flags hworld.tables htop hpages hpaddr hphys hfree' with
    hdry | ⟨allocations, tables, hcall, hinv, hwalk⟩
  · left
    simp only [pagingMapEx, hdry, error_bind]
  refine .inr ⟨allocations, tables, ?_, hinv, ?_, ?_, ?_⟩
  · simp only [pagingMapEx, hcall, ok_bind, pure_eq_ok]
  · intro other hother page hpage
    rw [hwalk other hother page hpage, lookup_cons, hworld.walk other hother page hpage]
    simp only [Mapped.Covers, Mapped.firstPage, hfirst]
  · intro mapped hmapped
    rcases List.mem_cons.mp hmapped with rfl | hmapped
    · exact ⟨htop, Nat.dvd_mul_left _ _, hrange⟩
    · exact hworld.range mapped hmapped
  · refine List.pairwise_cons.mpr ⟨?_, hworld.apart⟩
    rintro mapped hmapped top page ⟨rfl, hlow, hhigh⟩ hcovers
    simp only [Mapped.firstPage, hfirst] at hlow hhigh
    -- A live mapping of the page would have made the walk succeed before.
    have hnone := hfree' (page - first) (by omega)
    rw [Nat.add_sub_cancel' hlow, hworld.walk top htop page (by omega)] at hnone
    have hsome := (lookup_eq_some hworld.apart).mpr ⟨mapped, hmapped, if_pos hcovers⟩
    rw [hnone] at hsome
    cases hsome

theorem unmap_spec (hworld : WorldInvariant world) {mapped : Mapped}
    (hmapped : mapped ∈ world.live) :
    ∃ tables, pagingUnmap world.tables mapped.pml4t mapped.mapping = .ok tables ∧
      WorldInvariant ⟨tables, world.tops, world.live.erase mapped⟩ := by
  obtain ⟨htop, hvaddr, hrange⟩ := hworld.range mapped hmapped
  have hfirst : mapped.mapping.vaddr = mapped.firstPage * pageSize :=
    (Nat.div_mul_cancel hvaddr).symm
  have hpages : mapped.firstPage + mapped.mapping.sizePages ≤ 2 ^ 36 := by
    rw [hfirst] at hrange
    unfold pageSize at hrange
    omega
  obtain ⟨tables, hcall, hinv, hwalk⟩ := unmapPages_spec hworld.tables htop hpages (by
    intro i hi hnone
    rw [hworld.walk _ htop _ (by omega)] at hnone
    have hsome := (lookup_eq_some hworld.apart).mpr ⟨mapped, hmapped,
      if_pos (show mapped.Covers mapped.pml4t (mapped.firstPage + i) from
        ⟨rfl, by omega, by omega⟩)⟩
    rw [hnone] at hsome
    cases hsome)
  refine ⟨tables, by rw [pagingUnmap, hfirst, hcall], hinv, ?_, ?_, hworld.apart.erase mapped⟩
  · intro other hother page hpage
    rw [hwalk other hother page hpage, lookup_erase hworld.apart hmapped,
      hworld.walk other hother page hpage]
    rfl
  · intro other hother
    exact hworld.range other (List.mem_of_mem_erase hother)

include hfresh in
theorem newTable_spec (hworld : WorldInvariant world) {alloc : Allocation}
    (halloc : talloc world.tables = some alloc) :
    WorldInvariant ⟨world.tables.register alloc, alloc.vaddr :: world.tops, world.live⟩ := by
  have hgood := hfresh world.tables alloc halloc
  have hnew : alloc.vaddr ∉ world.tops := by
    intro htop
    obtain ⟨taken, htaken, hvaddr⟩ := hworld.tables.topLevel _ htop
    exact hgood.vaddr taken htaken hvaddr
  refine ⟨register_invariant hworld.tables hgood, ?_, ?_, hworld.apart⟩
  · intro other hother page hpage
    rw [register_walk hworld.tables hgood hother]
    split
    · next heq =>
        refine (lookup_eq_none ?_).symm
        rintro mapped hmapped ⟨hsame, -⟩
        rw [heq] at hsame
        exact hnew (hsame ▸ (hworld.range mapped hmapped).1)
    · next hne =>
        exact hworld.walk other ((List.mem_cons.mp hother).resolve_left hne) page hpage
  · intro mapped hmapped
    obtain ⟨htop, hrest⟩ := hworld.range mapped hmapped
    exact ⟨List.mem_cons_of_mem _ htop, hrest⟩

include hfresh in
theorem step (hworld : WorldInvariant world) (hstep : Step talloc world op next) :
    WorldInvariant next := by
  cases hstep with
  | newTable hreturn =>
      unfold tallocAlloc at hreturn
      split at hreturn
      · next halloc =>
          cases hreturn
          exact hworld.newTable_spec hfresh halloc
      · cases hreturn
  | map htop hvaddr hrange hpaddr hphys hfree hreturn =>
      rcases hworld.map_spec hfresh _ htop hvaddr hrange hpaddr hphys hfree with
        hdry | ⟨allocations, tables, hcall, hnext⟩
      · rw [hdry] at hreturn
        cases hreturn
      · rw [hcall] at hreturn
        obtain ⟨⟩ := Except.ok.inj hreturn
        exact hnext
  | unmap hlive hreturn =>
      obtain ⟨tables, hcall, hnext⟩ := hworld.unmap_spec hlive
      rw [hcall] at hreturn
      obtain ⟨⟩ := Except.ok.inj hreturn
      exact hnext

omit hfresh in
/-- The partial map of a table is left alone by operations on others. -/
theorem lookup_step (hworld : WorldInvariant world) (hstep : Step talloc world op next)
    {other : Nat} (htarget : op.target ≠ some other) (page : Nat) :
    lookup next.live other page = lookup world.live other page := by
  cases hstep with
  | newTable => rfl
  | map =>
      rw [lookup_cons, if_neg]
      rintro ⟨rfl, -⟩
      exact htarget rfl
  | unmap hlive =>
      rw [lookup_erase hworld.apart hlive, if_neg]
      rintro ⟨rfl, -⟩
      exact htarget rfl

theorem tops_step (hstep : Step talloc world op next) : ∀ top ∈ world.tops, top ∈ next.tops := by
  cases hstep with
  | newTable => exact fun top htop => List.mem_cons_of_mem _ htop
  | map => exact fun top htop => htop
  | unmap => exact fun top htop => htop

include hfresh in
theorem consistent (hworld : WorldInvariant world) : Consistent talloc world := by
  refine ⟨?_, ?_, ?_, ?_, ?_⟩
  · intro mapped hmapped i hi
    obtain ⟨htop, hvaddr, hrange⟩ := hworld.range mapped hmapped
    have hfirst : mapped.mapping.vaddr = mapped.firstPage * pageSize :=
      (Nat.div_mul_cancel hvaddr).symm
    rw [hfirst, ← Nat.add_mul, hworld.walk _ htop _ (by
      rw [hfirst] at hrange
      unfold pageSize at hrange
      omega), lookup_eq_some hworld.apart]
    refine ⟨mapped, hmapped, ?_⟩
    rw [Mapped.leafAt, if_pos ⟨rfl, by omega, by omega⟩, Nat.add_sub_cancel_left]
  · intro top htop page hpage hnone
    rw [hworld.walk top htop page hpage, lookup_eq_none hnone]
  · intro op next hstep other hother htarget page hpage
    rw [hworld.walk other hother page hpage,
      (hworld.step hfresh hstep).walk other (tops_step hstep other hother) page hpage,
      hworld.lookup_step hstep htarget]
  · intro pml4t htop paddr vaddr sizePages flags hvaddr hrange hpaddr hphys hfree
    rcases hworld.map_spec hfresh flags htop hvaddr hrange hpaddr hphys hfree with
      hdry | ⟨allocations, tables, hcall, -⟩
    · exact .inl hdry
    · exact .inr ⟨allocations, tables, hcall⟩
  · intro mapped hmapped
    obtain ⟨tables, hcall, -⟩ := hworld.unmap_spec hmapped
    exact ⟨tables, hcall⟩

end WorldInvariant

/-- Page tables refine a partial map, for every allocator of fresh tables. -/
theorem pageTables_consistent {talloc : Tables → Option Allocation}
    (hfresh : ∀ tables alloc, talloc tables = some alloc → Fresh tables alloc) {world : World}
    (hreach : (system talloc).Reachable world) : Consistent talloc world := by
  have hinductive : (system talloc).Inductive WorldInvariant :=
    ⟨fun _ hinit => WorldInvariant.init hinit, fun _ _ _ hworld hstep => hworld.step hfresh hstep⟩
  exact (hreach.invariant hinductive).consistent hfresh

/-- Hands out frames from `0x100000` on, as long as they are not in use. -/
def tallocFrom (tables : Tables) : Option Allocation :=
  let paddr := 0x100000 + tables.used.length * pageSize
  let vaddr := 0x10000000000 + tables.used.length * pageSize
  if (∀ other ∈ tables.used, other.paddr ≠ paddr ∧ other.vaddr ≠ vaddr) ∧ paddr < 2 ^ 52 then
    some ⟨paddr, vaddr⟩
  else none

theorem tallocFrom_fresh {tables : Tables} {alloc : Allocation}
    (halloc : tallocFrom tables = some alloc) : Fresh tables alloc := by
  simp only [tallocFrom] at halloc
  split at halloc
  · next hgood =>
      cases halloc
      refine ⟨fun other hother => (hgood.1 other hother).1,
        fun other hother => (hgood.1 other hother).2, ?_, hgood.2⟩
      exact Nat.dvd_add (by decide) (Nat.dvd_mul_left _ _)
  · cases halloc

/-- Three read-only user pages from `0x1fe000` on, the last of them in the second
page table. -/
theorem pageTables_consistent_after_map : ∃ world : World, world.live.length = 1 ∧
    (system tallocFrom).Reachable world ∧ Consistent tallocFrom world := by
  have hinit : (system tallocFrom).Reachable
      ⟨⟨fun _ _ => .zero, fun _ => 0, fun _ => none, []⟩, [], []⟩ := .init ⟨rfl, rfl, rfl⟩
  have hnew := System.Reachable.step hinit (Step.newTable rfl)
  have hfresh : ∀ tables alloc, tallocFrom tables = some alloc → Fresh tables alloc :=
    fun _ _ halloc => tallocFrom_fresh halloc
  rcases (pageTables_consistent hfresh hnew).map 0x10000000000 (by decide) 0x5000 0x1fe000 3
    ⟨false, false, true⟩ (by decide) (by decide) (by decide) (by decide) (by decide) with
    hdry | ⟨allocations, tables, hcall⟩
  · have hreturns := congrArg (fun call => call.toOption.isSome) hdry
    exact absurd hreturns (by decide +kernel)
  · have hmapped := System.Reachable.step hnew (Step.map (by decide) (by decide) (by decide)
      (by decide) (by decide) (by decide) hcall)
    exact ⟨_, rfl, hmapped, pageTables_consistent hfresh hmapped⟩

end PKernel.PageTables
