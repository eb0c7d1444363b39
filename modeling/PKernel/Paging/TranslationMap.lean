import PKernel.Library.Associations
import PKernel.Library.Transition
import PKernel.Paging.TableAllocator

/-! # The translation map

`translation_map.c`: the virtual address of every registered physical page, in
buckets of pages with a fixed number of entries. A new entry goes to the first page
of its bucket with room, or to a new page in front; removing one moves the later
entries of its page up. `next` pointers are the order of the lists, and a page is
the list of its first `entry_count` entries: that is what is in memory as long as
no two pages have one frame.
-/

namespace PKernel.TranslationMap

open Library.Associations Library.Transition
open Library.Associations.Spells (update_none)
open Bitmap (Area Words bitmapReserve)
open Talloc (tmapBuckets tmapHash tmapPageEntries addTmapPage)

/-- `paging_tmap_entry_t`. -/
structure Entry where
  paddr : Nat
  vaddr : Nat
deriving DecidableEq, Repr

/-- `paging_tmap`, with the frames of the pages made so far, latest first: their number
gives `next_page_ptr`. -/
structure Tmap where
  rootEntries : Nat → List (List Entry)
  frames : List Nat

/-- The loop of `paging_tmap_init`, for the buckets below a count. -/
def initBuckets (area : Area) (words : Words) : Nat → Except Fault (Words × Tmap)
  | 0 => return (words, ⟨fun _ => [], []⟩)
  | i + 1 => do
      let (words, tmap) ← initBuckets area words i
      let (frame, words, _) ← addTmapPage area words tmap.frames.length
      return (words, ⟨Function.update tmap.rootEntries i [[]], frame :: tmap.frames⟩)

/-- `paging_tmap_init`: a page directory, a page table, and one empty page for each bucket. -/
def tmapInit (area : Area) (words : Words) : Except Fault (Words × Tmap) :=
  initBuckets area (bitmapReserve area (bitmapReserve area words).2).2 tmapBuckets

/-- The loop of `paging_tmap_map`: `none` when all pages are full. -/
def insertEntry (entry : Entry) : List (List Entry) → Option (List (List Entry))
  | [] => none
  | page :: rest =>
      if page.length ≠ tmapPageEntries then some ((page ++ [entry]) :: rest)
      else (insertEntry entry rest).map fun rest => page :: rest

/-- `paging_tmap_map`. -/
def tmapMap (area : Area) (words : Words) (tmap : Tmap) (paddr vaddr : Nat) :
    Except Fault (Words × Tmap) := do
  let hashIdx := tmapHash paddr
  match insertEntry ⟨paddr, vaddr⟩ (tmap.rootEntries hashIdx) with
  | some pages =>
      return (words, { tmap with rootEntries := Function.update tmap.rootEntries hashIdx pages })
  | none =>
      let (frame, words, _) ← addTmapPage area words tmap.frames.length
      return (words, ⟨Function.update tmap.rootEntries hashIdx
        ([⟨paddr, vaddr⟩] :: tmap.rootEntries hashIdx), frame :: tmap.frames⟩)

/-- The inner loops of `paging_tmap_unmap`: the entries behind the first one for
`paddr` move up by one. -/
def shiftOut (paddr : Nat) : List Entry → Option (List Entry)
  | [] => none
  | entry :: rest =>
      if entry.paddr = paddr then some rest
      else (shiftOut paddr rest).map fun rest => entry :: rest

/-- The outer loop of `paging_tmap_unmap`. -/
def removeEntry (paddr : Nat) : List (List Entry) → Option (List (List Entry))
  | [] => none
  | page :: rest =>
      match shiftOut paddr page with
      | some page => some (page :: rest)
      | none => (removeEntry paddr rest).map fun rest => page :: rest

/-- `paging_tmap_unmap`. -/
def tmapUnmap (tmap : Tmap) (paddr : Nat) : Bool × Tmap :=
  let hashIdx := tmapHash paddr
  match removeEntry paddr (tmap.rootEntries hashIdx) with
  | some pages =>
      (true, { tmap with rootEntries := Function.update tmap.rootEntries hashIdx pages })
  | none => (false, tmap)

/-- `paging_tmap_translate`, with 0 for `NULL`. -/
def tmapTranslate (tmap : Tmap) (paddr : Nat) : Nat :=
  match (tmap.rootEntries (tmapHash paddr)).findSome? fun page =>
      page.find? fun entry => entry.paddr = paddr with
  | some entry => entry.vaddr
  | none => 0

/-! ## Entries of one bucket -/

variable {paddr vaddr : Nat} {entry : Entry} {page : List Entry} {chain changed : List (List Entry)}

theorem insertEntry_eq_none :
    insertEntry entry chain = none ↔ ∀ page ∈ chain, page.length = tmapPageEntries := by
  induction chain with
  | nil => simp [insertEntry]
  | cons page chain ih =>
      unfold insertEntry
      split
      next hroom => simpa using fun h => absurd h hroom
      next hfull =>
        rw [ne_eq, not_not] at hfull
        simpa [hfull] using ih

/-- The chain holds one more entry. -/
theorem insertEntry_perm (hinsert : insertEntry entry chain = some changed) :
    changed.flatten.Perm (entry :: chain.flatten) := by
  induction chain generalizing changed with
  | nil => cases hinsert
  | cons page chain ih =>
      unfold insertEntry at hinsert
      split at hinsert
      · cases hinsert
        rw [List.flatten_cons, List.flatten_cons, List.append_assoc, List.singleton_append]
        exact List.perm_middle
      · obtain ⟨rest, hrest, rfl⟩ := Option.map_eq_some_iff.mp hinsert
        rw [List.flatten_cons, List.flatten_cons]
        exact ((ih hrest).append_left page).trans List.perm_middle

theorem shiftOut_eq_none : shiftOut paddr page = none ↔ ∀ entry ∈ page, entry.paddr ≠ paddr := by
  induction page with
  | nil => simp [shiftOut]
  | cons entry page ih =>
      unfold shiftOut
      split
      next hfound => simp [hfound]
      next hother => simpa [hother] using ih

theorem shiftOut_eq_some {rest : List Entry} (hshift : shiftOut paddr page = some rest) :
    ∃ before entry after, page = before ++ entry :: after ∧ entry.paddr = paddr ∧
      rest = before ++ after := by
  induction page generalizing rest with
  | nil => cases hshift
  | cons entry page ih =>
      unfold shiftOut at hshift
      split at hshift
      next hfound =>
        cases hshift
        exact ⟨[], entry, page, rfl, hfound, rfl⟩
      next =>
        obtain ⟨rest, hrest, rfl⟩ := Option.map_eq_some_iff.mp hshift
        obtain ⟨before, found, after, rfl, hfound, rfl⟩ := ih hrest
        exact ⟨entry :: before, found, after, rfl, hfound, rfl⟩

theorem removeEntry_eq_none :
    removeEntry paddr chain = none ↔ ∀ entry ∈ chain.flatten, entry.paddr ≠ paddr := by
  induction chain with
  | nil => simp [removeEntry]
  | cons page chain ih =>
      rw [List.flatten_cons, List.forall_mem_append, ← shiftOut_eq_none, ← ih, removeEntry]
      split
      next hfound => simp [hfound]
      next hnone => simp [hnone]

/-- The chain loses one entry for the address. -/
theorem removeEntry_eq_some (hremove : removeEntry paddr chain = some changed) :
    ∃ before entry after, chain.flatten = before ++ entry :: after ∧ entry.paddr = paddr ∧
      changed.flatten = before ++ after := by
  induction chain generalizing changed with
  | nil => cases hremove
  | cons page chain ih =>
      unfold removeEntry at hremove
      split at hremove
      next rest hshift =>
        cases hremove
        obtain ⟨before, entry, after, rfl, hfound, rfl⟩ := shiftOut_eq_some hshift
        exact ⟨before, entry, after ++ chain.flatten, by simp, hfound, by simp⟩
      next =>
        obtain ⟨rest, hrest, rfl⟩ := Option.map_eq_some_iff.mp hremove
        obtain ⟨before, entry, after, hchain, hfound, hrest⟩ := ih hrest
        exact ⟨page ++ before, entry, after, by simp [hchain], hfound, by simp [hrest]⟩

/-! ## The whole map -/

/-- The entries of each bucket spell `mapped` on the addresses of the bucket. -/
def Refines (tmap : Tmap) (mapped : Nat → Option Nat) : Prop :=
  ∀ hashIdx, Spells Entry.paddr Entry.vaddr (tmap.rootEntries hashIdx).flatten
    fun paddr => if tmapHash paddr = hashIdx then mapped paddr else none

variable {tmap after : Tmap} {mapped : Nat → Option Nat} {area : Area} {words rest : Words}

/-- A change of the mapping of one address is a change of its bucket. -/
theorem restrict_update (mapped : Nat → Option Nat) (paddr hashIdx : Nat) (value : Option Nat) :
    (fun q => if tmapHash q = hashIdx then Function.update mapped paddr value q else none) =
      if tmapHash paddr = hashIdx then
        Function.update (fun q => if tmapHash q = hashIdx then mapped q else none) paddr value
      else fun q => if tmapHash q = hashIdx then mapped q else none := by
  funext q
  by_cases hq : q = paddr
  · subst hq
    by_cases hhash : tmapHash q = hashIdx <;> simp [hhash]
  · by_cases hhash : tmapHash paddr = hashIdx <;> simp [hhash, hq]

namespace Refines

/-- Write one bucket. -/
theorem update (hmap : Refines tmap mapped) {value : Option Nat}
    {chain : List (List Entry)} {frames : List Nat}
    (hchain : Spells Entry.paddr Entry.vaddr chain.flatten (Function.update
      (fun q => if tmapHash q = tmapHash paddr then mapped q else none) paddr value)) :
    Refines ⟨Function.update tmap.rootEntries (tmapHash paddr) chain, frames⟩
      (Function.update mapped paddr value) := by
  intro hashIdx
  rw [restrict_update]
  by_cases hhash : tmapHash paddr = hashIdx
  · subst hhash
    simpa using hchain
  · rw [if_neg hhash]
    simpa [Ne.symm hhash] using hmap hashIdx

theorem translate (hmap : Refines tmap mapped) (paddr : Nat) :
    tmapTranslate tmap paddr = (mapped paddr).getD 0 := by
  have hfind := (hmap (tmapHash paddr)).find?_eq paddr
  rw [List.find?_flatten, if_pos rfl] at hfind
  rw [← hfind, tmapTranslate]
  cases (tmap.rootEntries (tmapHash paddr)).findSome? fun page =>
    page.find? fun entry => entry.paddr = paddr with
  | none => rfl
  | some entry => rfl

theorem unmap (hmap : Refines tmap mapped) (paddr : Nat) :
    (tmapUnmap tmap paddr).1 = (mapped paddr).isSome ∧
      Refines (tmapUnmap tmap paddr).2 (Function.update mapped paddr none) := by
  have hbucket := hmap (tmapHash paddr)
  unfold tmapUnmap
  simp only
  split
  next chain hremove =>
    obtain ⟨before, entry, behind, hchain, rfl, hchanged⟩ := removeEntry_eq_some hremove
    rw [hchain] at hbucket
    have hsome := hbucket.sound entry (by simp)
    rw [if_pos rfl] at hsome
    refine ⟨by rw [hsome]; rfl, hmap.update ?_⟩
    rw [hchanged]
    exact hbucket.remove
  next hremove =>
    have hnone := hbucket.eq_none_iff.mpr (removeEntry_eq_none.mp hremove)
    rw [if_pos rfl] at hnone
    refine ⟨by rw [hnone]; rfl, ?_⟩
    rwa [update_none hnone]

theorem map (hmap : Refines tmap mapped) (hnew : mapped paddr = none)
    (hcall : tmapMap area words tmap paddr vaddr = .ok (rest, after)) :
    Refines after (Function.update mapped paddr (some vaddr)) := by
  have hbucket := @Spells.insert _ _ _ _ _ _ ⟨paddr, vaddr⟩ _ _ (hmap (tmapHash paddr))
    (by rw [if_pos rfl, hnew])
  unfold tmapMap at hcall
  simp only at hcall
  split at hcall
  next chain hinsert =>
    cases hcall
    exact hmap.update (hbucket.perm (insertEntry_perm hinsert).symm)
  next =>
    obtain ⟨⟨frame, words, made⟩, -, hcall⟩ := bind_eq_ok.mp hcall
    cases hcall
    exact hmap.update hbucket

end Refines

end PKernel.TranslationMap
