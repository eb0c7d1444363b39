import PKernel.Library.Tiling
import PKernel.Machine
import Mathlib.Data.List.Chain
import Mathlib.Data.List.Perm.Basic

/-! # The virtual address space as a list of regions

`valloc_alloc`, `valloc_reserve` and `valloc_release` seen as edits of the list
of regions that their node list spells. Each edit replaces a stretch of
neighbouring regions by another one over the same addresses, and every such
replacement keeps the address space tiled and coalesced as long as no free
region ends up beside another.
-/

namespace PKernel.Valloc

open Library.Tiling

/-- `VALLOC_REGION_SIZE`. -/
def regionSize : Nat := 0x1000000000000

/-- The data fields of `valloc_node_t`. -/
structure Region where
  isFree : Bool
  startAddr : Nat
  sizePages : Nat
deriving DecidableEq, Repr

namespace Region

/-- The test that ends the search of `valloc_alloc`. -/
def suits (sizePages : Nat) (region : Region) : Bool :=
  region.isFree && decide (sizePages ≤ region.sizePages)

/-- `end` in `valloc_reserve`, a signed value. -/
def endInt (region : Region) : Int :=
  intptr (intptr region.startAddr + pageSize * intptr region.sizePages)

/-- The test that ends the search of `valloc_reserve`. -/
def covers (vaddr : Nat) (region : Region) : Bool :=
  decide (intptr region.startAddr ≤ intptr vaddr ∧ intptr vaddr < region.endInt)

/-- The length of a region in bytes. -/
def bytes (region : Region) : Nat := pageSize * region.sizePages

end Region

/-- The first region that passes `test`, with the regions on its two sides. -/
def splitFirst (test : Region → Bool) : List Region → Option (List Region × Region × List Region)
  | [] => none
  | region :: rest =>
      if test region then some ([], region, rest)
      else (splitFirst test rest).map fun (before, found, after) => (region :: before, found, after)

/-- The test that `valloc_reserve` starts with. -/
def misaligned (vaddr : Nat) : Bool := decide ((intptr vaddr).tmod pageSize ≠ 0)

/-- `req_end` in `valloc_reserve`. -/
def reqEnd (vaddr sizePages : Nat) : Int := intptr (intptr vaddr + pageSize * intptr sizePages)

/-- What `valloc_reserve` leaves of the node it found: a free part before the
request, the request, and a free part after it, the free parts if non-empty. -/
def carve (node : Region) (vaddr sizePages : Nat) : List Region :=
  let start := if intptr node.startAddr < intptr vaddr then vaddr else node.startAddr
  (if intptr node.startAddr < intptr vaddr then
    [⟨true, node.startAddr, ((intptr vaddr - intptr node.startAddr) / pageSize).toNat⟩] else []) ++
  ⟨false, start, sizePages⟩ ::
  (if reqEnd vaddr sizePages < node.endInt then
    [⟨true, u64 (start + pageSize * sizePages),
      ((node.endInt - reqEnd vaddr sizePages) / pageSize).toNat⟩] else [])

/-- `node->next` is merged into `node` when it is free. -/
def joinNext (node : Region) : List Region → Region × List Region
  | [] => (node, [])
  | next :: rest =>
      if next.isFree then
        ({ node with sizePages := u64 (node.sizePages + next.sizePages) }, rest)
      else (node, next :: rest)

/-- `node` is merged into `node->prev` when that one is free. -/
def joinPrev (before : List Region) (node : Region) : List Region × Region :=
  match before.getLast? with
  | none => (before, node)
  | some prev =>
      if prev.isFree then
        (before.dropLast, { prev with sizePages := u64 (prev.sizePages + node.sizePages) })
      else (before, node)

/-- The list after `valloc_init`. -/
def initial : List Region := [⟨true, 0, regionSize / pageSize⟩]

/-- `valloc_alloc`. -/
def alloc (regions : List Region) (size : Nat) : Except Fault (Nat × List Region) :=
  let sizePages := divUp size pageSize
  match splitFirst (Region.suits sizePages) regions with
  | none => .error (.entryError 0x123)
  | some (before, node, after) =>
      if sizePages = node.sizePages then
        .ok (node.startAddr, before ++ { node with isFree := false } :: after)
      else
        .ok (node.startAddr, before ++ ⟨false, node.startAddr, sizePages⟩ ::
          ⟨true, u64 (node.startAddr + pageSize * sizePages), node.sizePages - sizePages⟩ :: after)

/-- `valloc_reserve`: the address, or `NULL` for a refused request. -/
def reserve (regions : List Region) (vaddr size : Nat) : Except Fault (Nat × List Region) :=
  let sizePages := divUp size pageSize
  if misaligned vaddr then .ok (0, regions)
  else
    match splitFirst (Region.covers vaddr) regions with
    | none => .error (.entryError 0x123)
    | some (before, node, after) =>
        if !node.isFree then .ok (0, regions)
        else if node.endInt < reqEnd vaddr sizePages then .ok (0, regions)
        else
          .ok (if intptr node.startAddr < intptr vaddr then vaddr else node.startAddr,
            before ++ carve node vaddr sizePages ++ after)

/-- `valloc_release`: whether a node starts at `vaddr`, and the list after it
was freed and merged with its free neighbours. -/
def release (regions : List Region) (vaddr : Nat) : Bool × List Region :=
  match splitFirst (fun region => region.startAddr == vaddr) regions with
  | none => (false, regions)
  | some (before, node, after) =>
      let (node, after) := joinNext node after
      let (before, node) := joinPrev before node
      (true, before ++ { node with isFree := true } :: after)

/-! ## Well-formed lists -/

/-- The regions tile the address space, none is empty, and free neighbours have
been merged. -/
structure WellFormed (regions : List Region) : Prop where
  tiles : Tiles Region.startAddr Region.bytes 0 regions regionSize
  nonempty : ∀ region ∈ regions, 0 < region.sizePages
  coalesced : regions.IsChain fun earlier later => ¬(earlier.isFree = true ∧ later.isFree = true)

/-- The ranges in use: first address and number of pages. -/
def reserved (regions : List Region) : List (Nat × Nat) :=
  (regions.filter fun region => !region.isFree).map fun region =>
    (region.startAddr, region.sizePages)

variable {regions before after old new : List Region} {node : Region} {vaddr size : Nat}

theorem splitFirst_eq_some {test : Region → Bool} :
    splitFirst test regions = some (before, node, after) ↔
      regions = before ++ node :: after ∧ test node = true ∧ ∀ region ∈ before, test region = false := by
  induction regions generalizing before with
  | nil => simp [splitFirst]
  | cons region rest ih =>
      by_cases htest : test region
      · cases before with
        | nil => simp only [splitFirst, htest]; aesop
        | cons first before => simp only [splitFirst, htest]; aesop
      · cases before with
        | nil => simp only [splitFirst, htest]; aesop
        | cons first before =>
            simp only [splitFirst, htest, Bool.false_eq_true, ↓reduceIte, Option.map_eq_some_iff,
              Prod.exists, Prod.mk.injEq, List.cons.injEq, List.cons_append, List.mem_cons,
              forall_eq_or_imp]
            aesop

theorem splitFirst_eq_none {test : Region → Bool} :
    splitFirst test regions = none ↔ ∀ region ∈ regions, test region = false := by
  induction regions with
  | nil => simp [splitFirst]
  | cons region rest ih =>
      by_cases htest : test region <;> simp [splitFirst, htest, ih]

theorem reserved_append (first second : List Region) :
    reserved (first ++ second) = reserved first ++ reserved second := by
  simp [reserved]

namespace WellFormed

theorem bounds (hwell : WellFormed regions) (hnode : node ∈ regions) :
    node.startAddr + pageSize * node.sizePages ≤ regionSize :=
  (hwell.tiles.bounds hnode).2

theorem sizePages_le (hwell : WellFormed regions) (hnode : node ∈ regions) :
    node.sizePages ≤ 2 ^ 36 := by
  have := hwell.bounds hnode
  unfold pageSize regionSize at this
  omega

theorem aligned (hwell : WellFormed regions) (hnode : node ∈ regions) :
    pageSize ∣ node.startAddr := by
  obtain ⟨before, after, rfl⟩ := List.append_of_mem hnode
  obtain ⟨middle, hbefore, hstart, _⟩ := tiles_append.mp hwell.tiles
  rw [hstart]
  -- The pieces before the node are whole pages, so it starts on a page.
  have hpages : ∀ (pieces : List Region) (low high : Nat), pageSize ∣ low →
      Tiles Region.startAddr Region.bytes low pieces high → pageSize ∣ high := by
    intro pieces
    induction pieces with
    | nil =>
        intro low high hlow htiles
        rwa [← tiles_nil.mp htiles]
    | cons piece pieces ih =>
        intro low high hlow htiles
        exact ih _ _ (Nat.dvd_add hlow (Nat.dvd_mul_right _ _)) htiles.2
  exact hpages before 0 middle (Nat.dvd_zero _) hbefore

/-- Replace a stretch by another one over the same addresses, between
neighbours that are in use. -/
theorem replace (hwell : WellFormed (before ++ old ++ after))
    (htiles : ∀ low high, Tiles Region.startAddr Region.bytes low old high →
      Tiles Region.startAddr Region.bytes low new high)
    (hnonempty : ∀ region ∈ new, 0 < region.sizePages)
    (hcoalesced : new.IsChain fun earlier later => ¬(earlier.isFree = true ∧ later.isFree = true))
    (hbefore : ∀ region ∈ before.getLast?, region.isFree = false)
    (hafter : ∀ region ∈ after.head?, region.isFree = false) :
    WellFormed (before ++ new ++ after) := by
  refine ⟨?_, ?_, ?_⟩
  · obtain ⟨high, hleft, hright⟩ := tiles_append.mp hwell.tiles
    obtain ⟨low, hfirst, hold⟩ := tiles_append.mp hleft
    exact tiles_append.mpr ⟨high, tiles_append.mpr ⟨low, hfirst, htiles low high hold⟩, hright⟩
  · intro region hregion
    have hkept := hwell.nonempty region
    simp only [List.mem_append] at hregion hkept
    rcases hregion with (h | h) | h
    · exact hkept (.inl (.inl h))
    · exact hnonempty region h
    · exact hkept (.inr h)
  · have hchain := hwell.coalesced
    rw [List.isChain_append, List.isChain_append] at hchain
    obtain ⟨⟨hfirst, -, -⟩, hlast, -⟩ := hchain
    rw [List.append_assoc, List.isChain_append, List.isChain_append]
    refine ⟨hfirst, ⟨hcoalesced, hlast, ?_⟩, ?_⟩
    · intro earlier _ later hlater
      simp [hafter later hlater]
    · intro earlier hearlier later _
      simp [hbefore earlier hearlier]

/-- The neighbours of a free region are in use. -/
theorem neighbours_of_free (hwell : WellFormed (before ++ node :: after))
    (hfree : node.isFree = true) :
    (∀ region ∈ before.getLast?, region.isFree = false) ∧
      ∀ region ∈ after.head?, region.isFree = false := by
  obtain ⟨-, hnode, hseam⟩ := List.isChain_append.mp hwell.coalesced
  constructor
  · intro region hregion
    simpa [hfree] using hseam region hregion node rfl
  · intro region hregion
    simpa [hfree] using (List.isChain_cons.mp hnode).1 region hregion

end WellFormed

theorem initial_wellFormed : WellFormed initial := by
  refine ⟨?_, ?_, ?_⟩
  · simp only [initial, tiles_cons, tiles_nil]
    decide
  · simp only [initial, List.mem_singleton, forall_eq]
    decide
  · exact List.isChain_singleton _

/-! ## Ranges -/

/-- Two ranges of pages without a common page. -/
def Apart (first second : Nat × Nat) : Prop :=
  first.1 + pageSize * first.2 ≤ second.1 ∨ second.1 + pageSize * second.2 ≤ first.1

instance (first second : Nat × Nat) : Decidable (Apart first second) :=
  inferInstanceAs (Decidable (_ ∨ _))

/-- The range lies inside one free region. -/
def Vacant (regions : List Region) (vaddr sizePages : Nat) : Prop :=
  ∃ region ∈ regions, region.isFree = true ∧ region.startAddr ≤ vaddr ∧
    vaddr + pageSize * sizePages ≤ region.startAddr + pageSize * region.sizePages

theorem mem_reserved {range : Nat × Nat} :
    range ∈ reserved regions ↔ ∃ region ∈ regions, region.isFree = false ∧
      range = (region.startAddr, region.sizePages) := by
  simp only [reserved, List.mem_map, List.mem_filter, Bool.not_eq_true', and_assoc]
  constructor
  · rintro ⟨region, hmem, hused, rfl⟩
    exact ⟨region, hmem, hused, rfl⟩
  · rintro ⟨region, hmem, hused, rfl⟩
    exact ⟨region, hmem, hused, rfl⟩

namespace WellFormed

/-- Two different regions do not overlap. -/
theorem apart (hwell : WellFormed regions) {first second : Region} (hfirst : first ∈ regions)
    (hsecond : second ∈ regions) (hne : first ≠ second) :
    Apart (first.startAddr, first.sizePages) (second.startAddr, second.sizePages) := by
  have hsymm : Std.Symm fun first second : Region =>
      Apart (first.startAddr, first.sizePages) (second.startAddr, second.sizePages) :=
    ⟨fun _ _ => Or.symm⟩
  have hpairwise : regions.Pairwise fun first second =>
      Apart (first.startAddr, first.sizePages) (second.startAddr, second.sizePages) :=
    hwell.tiles.pairwise.imp fun h => Or.inl h
  exact hpairwise.forall hfirst hsecond hne

theorem eq_of_startAddr_eq (hwell : WellFormed regions) {first second : Region}
    (hfirst : first ∈ regions) (hsecond : second ∈ regions)
    (hstart : first.startAddr = second.startAddr) : first = second := by
  by_contra hne
  have hapart := hwell.apart hfirst hsecond hne
  have hpos := hwell.nonempty first hfirst
  have hpos' := hwell.nonempty second hsecond
  unfold Apart pageSize at hapart
  omega

theorem reserved_pairwise (hwell : WellFormed regions) : (reserved regions).Pairwise Apart := by
  rw [reserved, List.pairwise_map]
  exact (hwell.tiles.pairwise.imp fun h => Or.inl h).filter _

/-- Each region is in the list once. -/
theorem nodup (hwell : WellFormed regions) : regions.Nodup := by
  refine (hwell.tiles.pairwise.imp_of_mem ?_)
  intro first second hfirst _ hbefore heq
  have hpos := hwell.nonempty first hfirst
  subst heq
  unfold Region.bytes pageSize at hbefore
  omega

/-- A range in a free region overlaps none in use. -/
theorem apart_of_vacant (hwell : WellFormed regions) {sizePages : Nat}
    (hvacant : Vacant regions vaddr sizePages) {range : Nat × Nat}
    (hrange : range ∈ reserved regions) : Apart (vaddr, sizePages) range := by
  obtain ⟨free, hfree, hisFree, hlow, hhigh⟩ := hvacant
  obtain ⟨used, hused, hisUsed, rfl⟩ := mem_reserved.mp hrange
  have hne : free ≠ used := by
    rintro rfl
    simp [hisFree] at hisUsed
  have hapart := hwell.apart hfree hused hne
  simp only [Apart] at hapart ⊢
  omega

/-- A range fits in a free region exactly when it overlaps none in use. -/
theorem vacant_iff (hwell : WellFormed regions) {sizePages : Nat} (hpos : 0 < sizePages) :
    Vacant regions vaddr sizePages ↔ vaddr + pageSize * sizePages ≤ regionSize ∧
      ∀ range ∈ reserved regions, Apart (vaddr, sizePages) range := by
  constructor
  · intro hvacant
    refine ⟨?_, fun range => hwell.apart_of_vacant hvacant⟩
    obtain ⟨free, hfree, _, _, hhigh⟩ := hvacant
    have hbounds := hwell.bounds hfree
    omega
  · rintro ⟨hinside, hapart⟩
    have hlow : vaddr < regionSize := by
      unfold pageSize at hinside
      omega
    obtain ⟨node, hnode, hstart, hend⟩ := hwell.tiles.exists_mem (Nat.zero_le vaddr) hlow
    have hfree : node.isFree = true := by
      by_contra hused
      have := hapart _ (mem_reserved.mpr ⟨node, hnode, by simpa using hused, rfl⟩)
      unfold Apart Region.bytes pageSize at *
      omega
    refine ⟨node, hnode, hfree, hstart, ?_⟩
    obtain ⟨before, after, rfl⟩ := List.append_of_mem hnode
    obtain ⟨middle, _, hmiddle, hafter⟩ := tiles_append.mp hwell.tiles
    -- The region behind a free one is in use, so the range ends before it.
    cases after with
    | nil =>
        have := tiles_nil.mp hafter
        unfold Region.bytes at *
        omega
    | cons next after =>
        have hnext := (hwell.neighbours_of_free hfree).2 next rfl
        have := hapart _ (mem_reserved.mpr ⟨next, by simp, hnext, rfl⟩)
        have := hafter.1
        simp only [Apart, Region.bytes, pageSize] at *
        omega

end WellFormed

/-! ## Allocation -/

/-- The number of pages of a request the claims of the address space allow. -/
theorem sizePages_bounds (hpos : 0 < size) (hsize : size ≤ regionSize) :
    0 < divUp size pageSize ∧ divUp size pageSize ≤ 2 ^ 36 := by
  have hspec := @divUp_pageSize_spec size (by unfold regionSize at hsize; unfold pageSize; omega)
  unfold pageSize regionSize at *
  omega

/-- `valloc_alloc` stops only when no free region is large enough. -/
theorem alloc_error {fault : Fault} (halloc : alloc regions size = .error fault) :
    fault = .entryError 0x123 ∧
      ∀ region ∈ regions, region.isFree = true → region.sizePages < divUp size pageSize := by
  simp only [alloc] at halloc
  split at halloc
  · next hnone =>
      refine ⟨(Except.error.inj halloc).symm, ?_⟩
      intro region hregion hfree
      have := splitFirst_eq_none.mp hnone region hregion
      simpa [Region.suits, hfree] using this
  · split at halloc <;> cases halloc

theorem alloc_spec (hwell : WellFormed regions) (hpos : 0 < size) (hsize : size ≤ regionSize)
    (halloc : alloc regions size = .ok (vaddr, new)) :
    WellFormed new ∧ pageSize ∣ vaddr ∧
      (reserved new).Perm ((vaddr, divUp size pageSize) :: reserved regions) := by
  obtain ⟨hpages, hbound⟩ := sizePages_bounds hpos hsize
  simp only [alloc] at halloc
  split at halloc
  · cases halloc
  next before node after hsplit =>
    obtain ⟨rfl, hsuits, _⟩ := splitFirst_eq_some.mp hsplit
    simp only [Region.suits, Bool.and_eq_true, decide_eq_true_eq] at hsuits
    obtain ⟨hfree, hfits⟩ := hsuits
    have hmem : node ∈ before ++ node :: after := by simp
    have hend := hwell.bounds hmem
    have haligned := hwell.aligned hmem
    obtain ⟨hbefore, hafter⟩ := hwell.neighbours_of_free hfree
    rw [List.append_cons] at hwell
    split at halloc
    · next hexact =>
        cases halloc
        refine ⟨?_, haligned, ?_⟩
        · rw [List.append_cons]
          refine hwell.replace (fun low high htiles => htiles) ?_ (List.isChain_singleton _)
            hbefore hafter
          simp only [List.mem_singleton, forall_eq]
          omega
        · simp only [reserved, List.filter_append, List.map_append, List.filter_cons, hfree,
            Bool.not_true, Bool.not_false, Bool.false_eq_true, ↓reduceIte, List.map_cons, hexact]
          exact List.perm_middle
    · next hsplitNode =>
        cases halloc
        have hu64 : u64 (node.startAddr + pageSize * divUp size pageSize) =
            node.startAddr + pageSize * divUp size pageSize := by
          apply u64_eq_self
          unfold pageSize regionSize at *
          omega
        refine ⟨?_, haligned, ?_⟩
        · rw [List.append_cons, List.append_cons, List.append_assoc before]
          refine hwell.replace ?_ ?_ ?_ hbefore hafter
          · intro low high htiles
            simp only [List.singleton_append, tiles_cons, tiles_nil, Region.bytes, hu64] at htiles ⊢
            have := Nat.mul_sub pageSize node.sizePages (divUp size pageSize)
            have := Nat.mul_le_mul_left pageSize hfits
            omega
          · simp only [List.singleton_append, List.mem_cons, List.not_mem_nil, or_false,
              forall_eq_or_imp, forall_eq]
            omega
          · simp
        · simp only [reserved, List.filter_append, List.map_append, List.filter_cons, hfree,
            Bool.not_true, Bool.not_false, Bool.false_eq_true, ↓reduceIte, List.map_cons]
          exact List.perm_middle

/-! ## Reservation -/

theorem misaligned_iff (vaddr : Nat) : misaligned vaddr = true ↔ ¬pageSize ∣ vaddr := by
  unfold misaligned intptr pageSize
  rw [decide_eq_true_iff, not_iff_not, ← Int.dvd_iff_tmod_eq_zero]
  omega

/-- Inside the address space the signed comparisons are the unsigned ones. -/
theorem WellFormed.covers_iff (hwell : WellFormed regions) (hnode : node ∈ regions)
    (hvaddr : vaddr < 2 ^ 64) :
    node.covers vaddr = true ↔
      node.startAddr ≤ vaddr ∧ vaddr < node.startAddr + pageSize * node.sizePages := by
  have hend := hwell.bounds hnode
  have hpages := hwell.sizePages_le hnode
  rw [Region.covers, decide_eq_true_eq]
  simp only [Region.endInt, intptr, pageSize, regionSize] at *
  omega

theorem WellFormed.endInt_eq (hwell : WellFormed regions) (hnode : node ∈ regions) :
    node.endInt = (node.startAddr + pageSize * node.sizePages : Nat) := by
  have hend := hwell.bounds hnode
  have hpages := hwell.sizePages_le hnode
  simp only [Region.endInt, intptr, pageSize, regionSize] at *
  omega

theorem reqEnd_eq (hvaddr : vaddr < regionSize) {sizePages : Nat} (hpages : sizePages ≤ 2 ^ 36) :
    reqEnd vaddr sizePages = (vaddr + pageSize * sizePages : Nat) := by
  simp only [reqEnd, intptr, pageSize, regionSize] at *
  omega

theorem intptr_of_lt_regionSize (hvaddr : vaddr < regionSize) : intptr vaddr = vaddr := by
  apply intptr_eq_self <;> unfold regionSize at hvaddr <;> omega

/-- The parts of a free region around a request that fits in it. -/
theorem carve_eq (hwell : WellFormed regions) (hnode : node ∈ regions) {sizePages : Nat}
    (hlow : node.startAddr ≤ vaddr)
    (hhigh : vaddr + pageSize * sizePages ≤ node.startAddr + pageSize * node.sizePages)
    (hpos : 0 < sizePages) :
    carve node vaddr sizePages =
      (if node.startAddr < vaddr then
        [⟨true, node.startAddr, (vaddr - node.startAddr) / pageSize⟩] else []) ++
      ⟨false, vaddr, sizePages⟩ ::
      (if vaddr + pageSize * sizePages < node.startAddr + pageSize * node.sizePages then
        [⟨true, vaddr + pageSize * sizePages,
          (node.startAddr + pageSize * node.sizePages - (vaddr + pageSize * sizePages)) /
            pageSize⟩] else []) := by
  have hend := hwell.bounds hnode
  have hvaddr : vaddr < regionSize := by
    unfold pageSize at *
    omega
  have hpages : sizePages ≤ 2 ^ 36 := by
    unfold pageSize regionSize at *
    omega
  have hstart : (if (node.startAddr : Int) < vaddr then vaddr else node.startAddr) = vaddr := by
    split <;> omega
  have hu64 : u64 (vaddr + pageSize * sizePages) = vaddr + pageSize * sizePages := by
    apply u64_eq_self
    unfold regionSize at hend
    omega
  simp only [carve, intptr_of_lt_regionSize hvaddr,
    intptr_of_lt_regionSize (Nat.lt_of_le_of_lt hlow hvaddr), hwell.endInt_eq hnode,
    reqEnd_eq hvaddr hpages, hstart, hu64]
  congr 1
  · simp only [Int.ofNat_lt]
    split <;> [skip; rfl]
    congr 2
    unfold pageSize
    omega
  · simp only [Int.ofNat_lt]
    congr 1
    split <;> [skip; rfl]
    congr 2
    unfold pageSize
    omega

/-- A request for a page-aligned vacant range is granted. -/
theorem reserve_granted (hwell : WellFormed regions) (hpos : 0 < size) (hsize : size ≤ regionSize)
    (haligned : pageSize ∣ vaddr) (hvacant : Vacant regions vaddr (divUp size pageSize)) :
    ∃ new, reserve regions vaddr size = .ok (vaddr, new) ∧ WellFormed new ∧
      (reserved new).Perm ((vaddr, divUp size pageSize) :: reserved regions) := by
  obtain ⟨hpages, hbound⟩ := sizePages_bounds hpos hsize
  obtain ⟨node, hmem, hfree, hlow, hhigh⟩ := hvacant
  have hend := hwell.bounds hmem
  have hvaddr : vaddr < regionSize := by
    unfold pageSize at *
    omega
  have hcovers : ∀ region ∈ regions, region.covers vaddr = true → region = node := by
    intro region hregion hcovers
    rw [hwell.covers_iff hregion (by unfold regionSize at hvaddr; omega)] at hcovers
    by_contra hne
    have := hwell.apart hregion hmem hne
    simp only [Apart, pageSize] at *
    omega
  obtain ⟨before, found, after, hsplit⟩ :
      ∃ before found after, splitFirst (Region.covers vaddr) regions =
        some (before, found, after) := by
    cases hsplit : splitFirst (Region.covers vaddr) regions with
    | none =>
        have := splitFirst_eq_none.mp hsplit node hmem
        have := (hwell.covers_iff hmem (by unfold regionSize at hvaddr; omega)).mpr
          ⟨hlow, by unfold pageSize at *; omega⟩
        simp_all
    | some found => exact ⟨found.1, found.2.1, found.2.2, rfl⟩
  obtain ⟨rfl, hfound, _⟩ := splitFirst_eq_some.mp hsplit
  obtain rfl := hcovers found (by simp) hfound
  have hstart : (if intptr found.startAddr < intptr vaddr then vaddr else found.startAddr) =
      vaddr := by
    rw [intptr_of_lt_regionSize hvaddr, intptr_of_lt_regionSize (Nat.lt_of_le_of_lt hlow hvaddr)]
    split <;> omega
  obtain ⟨hbefore, hafter⟩ := hwell.neighbours_of_free hfree
  have halignedNode := hwell.aligned hmem
  refine ⟨before ++ carve found vaddr (divUp size pageSize) ++ after, ?_, ?_, ?_⟩
  · simp only [reserve]
    rw [if_neg (by rw [misaligned_iff]; exact not_not_intro haligned), hsplit]
    simp only [hfree, Bool.not_true, Bool.false_eq_true, ↓reduceIte, hstart]
    rw [if_neg]
    rw [hwell.endInt_eq hmem, reqEnd_eq hvaddr hbound]
    omega
  · rw [carve_eq hwell hmem hlow hhigh hpages]
    rw [List.append_cons] at hwell
    refine hwell.replace ?_ ?_ ?_ hbefore hafter
    · intro low high htiles
      simp only [tiles_cons, tiles_nil, Region.bytes] at htiles
      obtain ⟨rfl, rfl⟩ := htiles
      split <;> split <;>
        simp only [List.nil_append, List.cons_append, tiles_cons, tiles_nil, Region.bytes,
          true_and] <;>
        unfold pageSize at * <;> omega
    · intro region hregion
      simp only [List.mem_append, List.mem_cons] at hregion
      rcases hregion with h | rfl | h
      · split at h
        · obtain rfl := List.mem_singleton.mp h
          unfold pageSize at *
          change 0 < (vaddr - found.startAddr) / 4096
          omega
        · cases h
      · exact hpages
      · split at h
        · obtain rfl := List.mem_singleton.mp h
          unfold pageSize at *
          dsimp only
          omega
        · cases h
    · split <;> split <;> simp
  · rw [carve_eq hwell hmem hlow hhigh hpages]
    have hparts : reserved ((if found.startAddr < vaddr then
        [(⟨true, found.startAddr, (vaddr - found.startAddr) / pageSize⟩ : Region)] else []) ++
      ⟨false, vaddr, divUp size pageSize⟩ ::
      (if vaddr + pageSize * divUp size pageSize <
          found.startAddr + pageSize * found.sizePages then
        [⟨true, vaddr + pageSize * divUp size pageSize,
          (found.startAddr + pageSize * found.sizePages -
            (vaddr + pageSize * divUp size pageSize)) / pageSize⟩] else [])) =
        [(vaddr, divUp size pageSize)] := by
      split <;> split <;> rfl
    rw [reserved_append, reserved_append, hparts, reserved_append before]
    simp only [reserved, List.filter_cons, hfree, Bool.not_true, Bool.false_eq_true, ↓reduceIte,
      List.append_assoc, List.singleton_append]
    exact List.perm_middle

/-- A request for an unaligned or occupied range is refused or stops. -/
theorem reserve_refused (hwell : WellFormed regions) (hpos : 0 < size) (hsize : size ≤ regionSize)
    (hvaddr : vaddr < 2 ^ 64)
    (hrefused : ¬(pageSize ∣ vaddr ∧ Vacant regions vaddr (divUp size pageSize)))
    {result : Nat × List Region} (hreserve : reserve regions vaddr size = .ok result) :
    result = (0, regions) := by
  obtain ⟨hpages, hbound⟩ := sizePages_bounds hpos hsize
  simp only [reserve] at hreserve
  split at hreserve
  · exact (Except.ok.inj hreserve).symm
  next haligned =>
    rw [misaligned_iff, not_not] at haligned
    split at hreserve
    · cases hreserve
    next before node after hsplit =>
      obtain ⟨rfl, hcovers, _⟩ := splitFirst_eq_some.mp hsplit
      have hmem : node ∈ before ++ node :: after := by simp
      rw [hwell.covers_iff hmem hvaddr] at hcovers
      have hend := hwell.bounds hmem
      split at hreserve
      · exact (Except.ok.inj hreserve).symm
      next hfree =>
        split at hreserve
        · exact (Except.ok.inj hreserve).symm
        next hfits =>
          rw [hwell.endInt_eq hmem, reqEnd_eq (by omega) hbound] at hfits
          refine absurd ⟨haligned, node, hmem, by simpa using hfree, hcovers.1, ?_⟩ hrefused
          omega

/-! ## Release -/

theorem joinNext_spec (hwell : WellFormed (before ++ node :: after)) :
    ∃ absorbed, after = absorbed ++ (joinNext node after).2 ∧
      (∀ region ∈ absorbed, region.isFree = true) ∧
      node.sizePages ≤ (joinNext node after).1.sizePages ∧
      (joinNext node after).1.sizePages ≤ 2 ^ 37 ∧
      (∀ low high, Tiles Region.startAddr Region.bytes low (node :: absorbed) high →
        Tiles Region.startAddr Region.bytes low [(joinNext node after).1] high) ∧
      ∀ region ∈ (joinNext node after).2.head?, region.isFree = false := by
  have hnode : node.sizePages ≤ 2 ^ 36 := hwell.sizePages_le (by simp)
  have hkeep : node.sizePages ≤ 2 ^ 37 := by omega
  cases after with
  | nil =>
      exact ⟨[], rfl, by simp, Nat.le_refl _, hkeep, fun _ _ htiles => htiles, by simp [joinNext]⟩
  | cons next after =>
      by_cases hfree : next.isFree = true
      · have hnext : next.sizePages ≤ 2 ^ 36 := hwell.sizePages_le (by simp)
        have hsum : u64 (node.sizePages + next.sizePages) = node.sizePages + next.sizePages :=
          u64_eq_self (by omega)
        rw [List.append_cons] at hwell
        simp only [joinNext, hfree, ↓reduceIte, hsum]
        refine ⟨[next], rfl, by simpa using hfree, by omega, by omega, ?_, ?_⟩
        · intro low high htiles
          simp only [tiles_cons, tiles_nil, Region.bytes, Nat.mul_add] at htiles ⊢
          omega
        · exact (hwell.neighbours_of_free hfree).2
      · simp only [joinNext, hfree]
        refine ⟨[], rfl, by simp, Nat.le_refl _, hkeep, fun _ _ htiles => htiles, ?_⟩
        simpa using hfree

theorem joinPrev_spec (hwell : WellFormed (before ++ after)) {node : Region}
    (hnode : node.sizePages ≤ 2 ^ 37) :
    ∃ absorbed, before = (joinPrev before node).1 ++ absorbed ∧
      (∀ region ∈ absorbed, region.isFree = true) ∧
      node.sizePages ≤ (joinPrev before node).2.sizePages ∧
      (∀ low high, Tiles Region.startAddr Region.bytes low (absorbed ++ [node]) high →
        Tiles Region.startAddr Region.bytes low [(joinPrev before node).2] high) ∧
      ∀ region ∈ (joinPrev before node).1.getLast?, region.isFree = false := by
  rcases List.eq_nil_or_concat' before with rfl | ⟨before, prev, rfl⟩
  · exact ⟨[], rfl, by simp, Nat.le_refl _, fun _ _ htiles => htiles, by simp [joinPrev]⟩
  · by_cases hfree : prev.isFree = true
    · have hprev : prev.sizePages ≤ 2 ^ 36 := hwell.sizePages_le (by simp)
      have hsum : u64 (prev.sizePages + node.sizePages) = prev.sizePages + node.sizePages :=
        u64_eq_self (by omega)
      rw [List.append_assoc] at hwell
      simp only [joinPrev, List.getLast?_append, List.getLast?_singleton, Option.some_or, hfree,
        ↓reduceIte, List.dropLast_concat, hsum]
      refine ⟨[prev], rfl, by simpa using hfree, by omega, ?_, ?_⟩
      · intro low high htiles
        simp only [List.singleton_append, tiles_cons, tiles_nil, Region.bytes,
          Nat.mul_add] at htiles ⊢
        omega
      · exact (hwell.neighbours_of_free hfree).1
    · simp only [joinPrev, List.getLast?_append, List.getLast?_singleton, Option.some_or, hfree]
      refine ⟨[], by simp, by simp, Nat.le_refl _, fun _ _ htiles => htiles, ?_⟩
      simpa using hfree

theorem reserved_eq_nil (hfree : ∀ region ∈ regions, region.isFree = true) :
    reserved regions = [] := by
  rw [reserved, List.map_eq_nil_iff, List.filter_eq_nil_iff]
  intro region hregion
  simp [hfree region hregion]

/-- A range in use is released, and nothing else changes hands. -/
theorem release_spec (hwell : WellFormed regions) {range : Nat × Nat}
    (hrange : range ∈ reserved regions) :
    ∃ new, release regions range.1 = (true, new) ∧ WellFormed new ∧
      (reserved regions).Perm (range :: reserved new) := by
  obtain ⟨node, hmem, hused, rfl⟩ := mem_reserved.mp hrange
  obtain ⟨before, found, after, hsplit⟩ : ∃ before found after,
      splitFirst (fun region => region.startAddr == node.startAddr) regions =
        some (before, found, after) := by
    cases hsplit : splitFirst (fun region => region.startAddr == node.startAddr) regions with
    | none => simpa using splitFirst_eq_none.mp hsplit node hmem
    | some found => exact ⟨found.1, found.2.1, found.2.2, rfl⟩
  obtain ⟨rfl, hstart, _⟩ := splitFirst_eq_some.mp hsplit
  obtain rfl : found = node :=
    hwell.eq_of_startAddr_eq (by simp) hmem (by simpa using hstart)
  have hpos := hwell.nonempty found hmem
  obtain ⟨right, hright, hrightFree, hgrow, hbound, hjoinRight, hafter⟩ := joinNext_spec hwell
  obtain ⟨left, hleft, hleftFree, hgrow', hjoinLeft, hbefore⟩ := joinPrev_spec hwell hbound
  simp only [release, hsplit]
  revert hright hgrow hjoinRight hafter hleft hgrow' hjoinLeft hbefore
  generalize joinPrev before (joinNext found after).1 = merged
  generalize (joinNext found after).2 = rest
  generalize (joinNext found after).1 = grown
  obtain ⟨kept, merged⟩ := merged
  rintro rfl hgrow hjoinRight hafter rfl hgrow' hjoinLeft hbefore
  refine ⟨_, rfl, ?_, ?_⟩
  · have hwindow : WellFormed (kept ++ (left ++ found :: right) ++ rest) := by
      simpa [List.append_assoc] using hwell
    rw [List.append_cons]
    refine hwindow.replace ?_ ?_ (List.isChain_singleton _) hbefore hafter
    · intro low high htiles
      obtain ⟨middle, hfirst, hsecond⟩ := tiles_append.mp htiles
      exact hjoinLeft low high (tiles_append.mpr ⟨middle, hfirst, hjoinRight middle high hsecond⟩)
    · simp only [List.mem_singleton, forall_eq]
      exact Nat.lt_of_lt_of_le hpos (Nat.le_trans hgrow hgrow')
  · have hmiddle : reserved (found :: (right ++ rest)) =
        (found.startAddr, found.sizePages) :: reserved (right ++ rest) := by
      simp [reserved, hused]
    have hmerged : reserved ({ merged with isFree := true } :: rest) = reserved rest := by
      simp [reserved]
    rw [reserved_append, hmiddle, reserved_append, reserved_append, reserved_append, hmerged,
      reserved_eq_nil hleftFree, reserved_eq_nil hrightFree, List.append_nil, List.nil_append]
    exact List.perm_middle

end PKernel.Valloc
