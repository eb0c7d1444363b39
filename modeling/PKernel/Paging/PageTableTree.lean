import PKernel.Paging.PageTables

/-! # The tables under a set of roots

The tables that the code builds form a forest of depth three under the
top-level tables, every table in it is registered, and the entries above the
last level grant everything. Under this invariant making a missing table changes
no walk, and writing an entry of a page table changes one.
-/

namespace PKernel.PageTables

open Library.TableTree

/-! ## Entries and indexes -/

theorem Entry.getAddress_setAddress (entry : Entry) {address : Nat} (haligned : pageSize ∣ address)
    (haddress : address < 2 ^ 52) : (entry.setAddress address).getAddress = address := by
  obtain ⟨page, rfl⟩ := haligned
  simp only [Entry.getAddress, Entry.setAddress, BitVec.toNat_ofNat, Nat.shiftRight_eq_div_pow,
    Nat.shiftLeft_eq, pageSize] at *
  omega

/-- The entry as the last step of a walk. -/
def Entry.leaf (entry : Entry) : Option Leaf :=
  if entry.present then
    some ⟨entry.getAddress, ⟨entry.readWrite, entry.executeDisable, entry.userSuper⟩⟩
  else none

/-- The indexes of the upper three levels. -/
def upper (vaddr : Nat) : List Nat := [pml4tIndex vaddr, pdptIndex vaddr, pdtIndex vaddr]

theorem upper_length (vaddr : Nat) : (upper vaddr).length ≤ 3 := Nat.le_refl 3

/-- Both addresses lie in one page, as far as the walk can tell. -/
def SamePage (vaddr other : Nat) : Prop := upper other = upper vaddr ∧ ptIndex other = ptIndex vaddr

instance (vaddr other : Nat) : Decidable (SamePage vaddr other) :=
  inferInstanceAs (Decidable (_ ∧ _))

theorem samePage_iff {page other : Nat} (hpage : page < 2 ^ 36) (hother : other < 2 ^ 36) :
    SamePage (page * pageSize) (other * pageSize) ↔ other = page := by
  have hmask : ∀ value, value &&& 0x1FF = value % 512 := fun value =>
    Nat.and_two_pow_sub_one_eq_mod value 9
  simp only [SamePage, upper, pml4tIndex, pdptIndex, pdtIndex, ptIndex, hmask,
    Nat.shiftRight_eq_div_pow, pageSize, List.cons.injEq, and_true]
  omega

/-! ## The invariant -/

/-- The table that an entry names, if it is present. -/
def child (tables : Tables) (frame index : Nat) : Option Nat :=
  if (tables.frames frame index).present then some (tables.frames frame index).getAddress else none

/-- The frames of the top-level tables. -/
def roots (tables : Tables) (tops : List Nat) : Set Nat :=
  { frame | ∃ top ∈ tops, tables.window top = frame }

structure Invariant (tables : Tables) (tops : List Nat) : Prop where
  forest : Forest (child tables) (roots tables tops) 3
  reached : ∀ top ∈ tops, ∀ path frame, path.length ≤ 3 →
    descend (child tables) (tables.window top) path = some frame →
      ∃ alloc ∈ tables.used, alloc.paddr = frame
  registered : ∀ alloc ∈ tables.used,
    tables.tmap alloc.paddr = some alloc.vaddr ∧ tables.window alloc.vaddr = alloc.paddr
  topLevel : ∀ top ∈ tops, ∃ alloc ∈ tables.used, alloc.vaddr = top
  inner : ∀ top ∈ tops, ∀ path frame, path.length < 3 →
    descend (child tables) (tables.window top) path = some frame →
      ∀ index, (tables.frames frame index).executeDisable = false ∧
        ((tables.frames frame index).present = true →
          (tables.frames frame index).readWrite = true ∧
            (tables.frames frame index).userSuper = true)

/-- What is promised of a table handed out by `paging_talloc_alloc`. -/
structure Fresh (tables : Tables) (alloc : Allocation) : Prop where
  paddr : ∀ other ∈ tables.used, other.paddr ≠ alloc.paddr
  vaddr : ∀ other ∈ tables.used, other.vaddr ≠ alloc.vaddr
  aligned : pageSize ∣ alloc.paddr
  small : alloc.paddr < 2 ^ 52

/-- `table` is the kernel's address of the table at the end of `path`. -/
structure At (tables : Tables) (top : Nat) (path : List Nat) (table : Nat) : Prop where
  found : descend (child tables) (tables.window top) path = some (tables.window table)
  used : ∃ alloc ∈ tables.used, alloc.vaddr = table

variable {tables new : Tables} {tops path : List Nat} {top other table index vaddr : Nat}
  {alloc : Allocation}

theorem mem_roots (htop : top ∈ tops) : tables.window top ∈ roots tables tops := ⟨top, htop, rfl⟩

theorem child_eq_none : child tables table index = none ↔
    (tables.frames table index).present = false := by
  unfold child
  split <;> simp_all

namespace Invariant

theorem window_inj (hinv : Invariant tables tops) (htop : top ∈ tops) (hother : other ∈ tops)
    (hwindow : tables.window other = tables.window top) : other = top := by
  obtain ⟨alloc, halloc, rfl⟩ := hinv.topLevel top htop
  obtain ⟨twin, htwin, rfl⟩ := hinv.topLevel other hother
  obtain ⟨htmap, hframe⟩ := hinv.registered alloc halloc
  obtain ⟨htmap', hframe'⟩ := hinv.registered twin htwin
  rw [← hframe, ← hwindow, hframe', htmap'] at htmap
  exact Option.some.inj htmap

/-- One entry on the way down. -/
theorem walkFrom_cons (hinv : Invariant tables tops) (htop : top ∈ tops) {frame : Nat}
    (hframe : descend (child tables) (tables.window top) path = some frame)
    (hpath : path.length < 3) (first second : Nat) (rest : List Nat) :
    walkFrom tables.frames frame ⟨true, false, true⟩ (first :: second :: rest) =
      (child tables frame first).bind fun next =>
        walkFrom tables.frames next ⟨true, false, true⟩ (second :: rest) := by
  obtain ⟨hexecute, hgrants⟩ := hinv.inner top htop path frame hpath hframe first
  rw [walkFrom, child]
  by_cases hpresent : (tables.frames frame first).present = true
  · obtain ⟨hwrite, huser⟩ := hgrants hpresent
    simp [hpresent, hexecute, hwrite, huser]
  · simp [hpresent]

/-- The walk is a descent followed by one entry of a page table. -/
theorem walk_eq (hinv : Invariant tables tops) (htop : top ∈ tops) (vaddr : Nat) :
    walk tables top vaddr =
      (descend (child tables) (tables.window top) (upper vaddr)).bind fun frame =>
        (tables.frames frame (ptIndex vaddr)).leaf := by
  have hlast : ∀ frame, walkFrom tables.frames frame ⟨true, false, true⟩ [ptIndex vaddr] =
      (tables.frames frame (ptIndex vaddr)).leaf := by
    intro frame
    simp [walkFrom, Entry.leaf]
  have hfirst : descend (child tables) (tables.window top) [] = some (tables.window top) := rfl
  rw [walk, hinv.walkFrom_cons htop hfirst (by decide)]
  simp only [upper, descend]
  cases hpdpt : child tables (tables.window top) (pml4tIndex vaddr) with
  | none => rfl
  | some pdpt =>
      have hsecond : descend (child tables) (tables.window top) [pml4tIndex vaddr] = some pdpt := by
        simp [descend, hpdpt]
      rw [Option.bind_some, Option.bind_some, hinv.walkFrom_cons htop hsecond (by decide : 1 < 3)]
      cases hpdt : child tables pdpt (pdptIndex vaddr) with
      | none => rfl
      | some pdt =>
          have hthird : descend (child tables) (tables.window top)
              [pml4tIndex vaddr, pdptIndex vaddr] = some pdt := by
            simp [descend, hpdpt, hpdt]
          rw [Option.bind_some, Option.bind_some,
            hinv.walkFrom_cons htop hthird (by decide : 2 < 3)]
          cases child tables pdt (pdtIndex vaddr) with
          | none => rfl
          | some pt => exact hlast pt

end Invariant

/-! ## Writing an entry of a page table -/

theorem setEntry_frames (tables : Tables) (table index : Nat) (change : Entry → Entry)
    (frame slot : Nat) :
    (tables.setEntry table index change).frames frame slot =
      if frame = tables.window table ∧ slot = index then change (tables.frames frame slot)
      else tables.frames frame slot := by
  simp only [Tables.setEntry, Function.update_apply]
  split
  · next hframe =>
      subst hframe
      split <;> simp_all
  · next hframe => simp [hframe]

theorem setEntry_row (tables : Tables) (table index : Nat) (change : Entry → Entry) {frame : Nat}
    (hframe : frame ≠ tables.window table) :
    (tables.setEntry table index change).frames frame = tables.frames frame := by
  funext slot
  rw [setEntry_frames, if_neg fun h => hframe h.1]

theorem child_congr {frame : Nat} (hrow : new.frames frame = tables.frames frame) :
    child new frame = child tables frame := by
  funext slot
  rw [child, child, hrow]

namespace Invariant

/-- A page table is not one of the tables above the last level. -/
theorem ne_of_lt (hinv : Invariant tables tops) (htop : top ∈ tops)
    (hat : At tables top (upper vaddr) table) (hother : other ∈ tops) {frame : Nat}
    (hpath : path.length < 3)
    (hframe : descend (child tables) (tables.window other) path = some frame) :
    frame ≠ tables.window table := by
  rintro rfl
  have hsame := hinv.forest _ (mem_roots hother) _ (mem_roots htop) _ _ _ (Nat.le_of_lt hpath)
    (upper_length vaddr) hframe hat.found
  rw [hsame.2] at hpath
  exact absurd hpath (by simp [upper])

theorem descend_setEntry (hinv : Invariant tables tops) (htop : top ∈ tops)
    (hat : At tables top (upper vaddr) table) (change : Entry → Entry) (hother : other ∈ tops)
    (hpath : path.length ≤ 3) :
    descend (child (tables.setEntry table (ptIndex vaddr) change)) (tables.window other) path =
      descend (child tables) (tables.window other) path := by
  refine descend_congr ?_ (mem_roots hother) hpath
  rintro root ⟨origin, horigin, rfl⟩ path' frame hpath' hframe
  exact child_congr (setEntry_row _ _ _ _ (hinv.ne_of_lt htop hat horigin hpath' hframe))

theorem setEntry (hinv : Invariant tables tops) (htop : top ∈ tops)
    (hat : At tables top (upper vaddr) table) (change : Entry → Entry) :
    Invariant (tables.setEntry table (ptIndex vaddr) change) tops := by
  have hdescend : ∀ origin ∈ tops, ∀ path', path'.length ≤ 3 →
      descend (child (tables.setEntry table (ptIndex vaddr) change)) (tables.window origin) path' =
        descend (child tables) (tables.window origin) path' := fun origin horigin path' hpath' =>
    hinv.descend_setEntry htop hat change horigin hpath'
  refine ⟨?_, ?_, hinv.registered, hinv.topLevel, ?_⟩
  · rintro root ⟨origin, horigin, rfl⟩ root' ⟨origin', horigin', rfl⟩ path₁ path₂ frame hlength₁
      hlength₂ hpath₁ hpath₂
    exact hinv.forest _ (mem_roots horigin) _ (mem_roots horigin') path₁ path₂ frame hlength₁
      hlength₂ ((hdescend origin horigin path₁ hlength₁).symm.trans hpath₁)
      ((hdescend origin' horigin' path₂ hlength₂).symm.trans hpath₂)
  · intro origin horigin path' frame hlength hpath'
    exact hinv.reached origin horigin path' frame hlength
      ((hdescend origin horigin path' hlength).symm.trans hpath')
  · intro origin horigin path' frame hlength hpath' index
    have hold := (hdescend origin horigin path' (Nat.le_of_lt hlength)).symm.trans hpath'
    rw [setEntry_row _ _ _ _ (hinv.ne_of_lt htop hat horigin hlength hold)]
    exact hinv.inner origin horigin path' frame hlength hold index

/-- Writing an entry of a page table changes the walk of one page. -/
theorem walk_setEntry (hinv : Invariant tables tops) (htop : top ∈ tops)
    (hat : At tables top (upper vaddr) table) (change : Entry → Entry) (hother : other ∈ tops)
    (vaddr' : Nat) :
    walk (tables.setEntry table (ptIndex vaddr) change) other vaddr' =
      if other = top ∧ SamePage vaddr vaddr' then
        (change (tables.entry table (ptIndex vaddr))).leaf
      else walk tables other vaddr' := by
  rw [(hinv.setEntry htop hat change).walk_eq hother, hinv.walk_eq hother]
  change (descend _ (tables.window other) (upper vaddr')).bind _ = _
  rw [hinv.descend_setEntry htop hat change hother (upper_length vaddr')]
  by_cases hhere : other = top ∧ SamePage vaddr vaddr'
  · obtain ⟨rfl, hupper, hindex⟩ := hhere
    rw [if_pos ⟨rfl, hupper, hindex⟩, hupper, hat.found, hindex, Option.bind_some,
      setEntry_frames, if_pos ⟨rfl, rfl⟩]
    rfl
  · rw [if_neg hhere]
    cases hframe : descend (child tables) (tables.window other) (upper vaddr') with
    | none => rfl
    | some frame =>
        rw [Option.bind_some, Option.bind_some, setEntry_frames, if_neg]
        rintro ⟨rfl, hindex⟩
        obtain ⟨hroot, hupper⟩ := hinv.forest _ (mem_roots hother) _ (mem_roots htop) _ _ _
          (upper_length vaddr') (upper_length vaddr) hframe hat.found
        exact hhere ⟨hinv.window_inj htop hother hroot, hupper, hindex⟩

end Invariant

/-! ## Handing out a table -/

theorem register_frames (tables : Tables) (alloc : Allocation) (frame : Nat) :
    (tables.register alloc).frames frame =
      if frame = alloc.paddr then fun _ => .zero else tables.frames frame := by
  simp only [Tables.register, Function.update_apply]

theorem register_window_self (tables : Tables) (alloc : Allocation) :
    (tables.register alloc).window alloc.vaddr = alloc.paddr := by
  simp only [Tables.register, Function.update_self]

theorem register_window (hfresh : Fresh tables alloc)
    (hused : ∃ taken ∈ tables.used, taken.vaddr = table) :
    (tables.register alloc).window table = tables.window table := by
  obtain ⟨taken, htaken, rfl⟩ := hused
  exact Function.update_of_ne (hfresh.vaddr taken htaken) _ _

theorem registered_register (hinv : Invariant tables tops) (hfresh : Fresh tables alloc) :
    ∀ taken ∈ (tables.register alloc).used,
      (tables.register alloc).tmap taken.paddr = some taken.vaddr ∧
        (tables.register alloc).window taken.vaddr = taken.paddr := by
  intro taken htaken
  rcases List.mem_cons.mp htaken with rfl | htaken
  · exact ⟨Function.update_self .., Function.update_self ..⟩
  · obtain ⟨htmap, hwindow⟩ := hinv.registered taken htaken
    refine ⟨?_, ?_⟩
    · rw [← htmap]
      exact Function.update_of_ne (hfresh.paddr taken htaken) _ _
    · rw [register_window hfresh ⟨taken, htaken, rfl⟩, hwindow]

/-- The new table is not in the forest. -/
theorem Invariant.ne_fresh (hinv : Invariant tables tops) (hfresh : Fresh tables alloc)
    (htop : top ∈ tops) {frame : Nat} (hpath : path.length ≤ 3)
    (hframe : descend (child tables) (tables.window top) path = some frame) :
    frame ≠ alloc.paddr := by
  obtain ⟨taken, htaken, rfl⟩ := hinv.reached top htop path frame hpath hframe
  exact hfresh.paddr taken htaken

section Register

variable (hinv : Invariant tables tops) (hfresh : Fresh tables alloc)

include hinv hfresh

theorem register_descend (hother : other ∈ tops) (hpath : path.length ≤ 3) :
    descend (child (tables.register alloc)) (tables.window other) path =
      descend (child tables) (tables.window other) path := by
  refine descend_congr ?_ (mem_roots hother) hpath
  rintro root ⟨origin, horigin, rfl⟩ path' frame hpath' hframe
  refine child_congr ?_
  rw [register_frames, if_neg (hinv.ne_fresh hfresh horigin (Nat.le_of_lt hpath') hframe)]

omit hinv hfresh in
theorem child_register (index : Nat) : child (tables.register alloc) alloc.paddr index = none := by
  rw [child_eq_none, register_frames, if_pos rfl]
  rfl

omit hinv hfresh in
/-- The new table has nothing below it. -/
theorem descend_register {frame : Nat}
    (hframe : descend (child (tables.register alloc)) alloc.paddr path = some frame) :
    path = [] ∧ frame = alloc.paddr := by
  cases path with
  | nil => exact ⟨rfl, (Option.some.inj hframe).symm⟩
  | cons index path => simp [descend, child_register] at hframe

/-- A table handed out becomes a top-level table. -/
theorem register_invariant : Invariant (tables.register alloc) (alloc.vaddr :: tops) := by
  have hwindow : ∀ origin ∈ tops, (tables.register alloc).window origin = tables.window origin :=
    fun origin horigin => register_window hfresh (hinv.topLevel origin horigin)
  have hself := register_window_self tables alloc
  have hroots : roots (tables.register alloc) (alloc.vaddr :: tops) =
      insert alloc.paddr (roots tables tops) := by
    ext frame
    simp only [roots, List.mem_cons, exists_eq_or_imp, hself, Set.mem_ofPred_eq, Set.mem_insert_iff]
    refine or_congr eq_comm (exists_congr fun origin => and_congr_right fun horigin => ?_)
    rw [hwindow origin horigin]
  refine ⟨?_, ?_, registered_register hinv hfresh, ?_, ?_⟩
  · rw [hroots]
    have hold : Forest (child (tables.register alloc)) (roots tables tops) 3 := by
      rintro root ⟨origin, horigin, rfl⟩ root' ⟨origin', horigin', rfl⟩ path₁ path₂ frame hlength₁
        hlength₂ hpath₁ hpath₂
      rw [register_descend hinv hfresh horigin hlength₁] at hpath₁
      rw [register_descend hinv hfresh horigin' hlength₂] at hpath₂
      exact hinv.forest _ (mem_roots horigin) _ (mem_roots horigin') path₁ path₂ frame hlength₁
        hlength₂ hpath₁ hpath₂
    refine hold.insert_root ?_ child_register
    rintro root ⟨origin, horigin, rfl⟩ path' hpath' hframe
    rw [register_descend hinv hfresh horigin hpath'] at hframe
    exact hinv.ne_fresh hfresh horigin hpath' hframe rfl
  · intro origin horigin path' frame hpath' hframe
    rcases List.mem_cons.mp horigin with rfl | horigin
    · rw [hself] at hframe
      exact ⟨alloc, List.mem_cons_self, (descend_register hframe).2.symm⟩
    · rw [hwindow origin horigin, register_descend hinv hfresh horigin hpath'] at hframe
      obtain ⟨taken, htaken, rfl⟩ := hinv.reached origin horigin path' frame hpath' hframe
      exact ⟨taken, List.mem_cons_of_mem _ htaken, rfl⟩
  · intro origin horigin
    rcases List.mem_cons.mp horigin with rfl | horigin
    · exact ⟨alloc, List.mem_cons_self, rfl⟩
    · obtain ⟨taken, htaken, rfl⟩ := hinv.topLevel origin horigin
      exact ⟨taken, List.mem_cons_of_mem _ htaken, rfl⟩
  · intro origin horigin path' frame hpath' hframe index
    rw [register_frames]
    rcases List.mem_cons.mp horigin with rfl | horigin
    · rw [hself] at hframe
      rw [if_pos (descend_register hframe).2]
      exact ⟨rfl, by simp [Entry.zero]⟩
    · rw [hwindow origin horigin,
        register_descend hinv hfresh horigin (Nat.le_of_lt hpath')] at hframe
      rw [if_neg (hinv.ne_fresh hfresh horigin (Nat.le_of_lt hpath') hframe)]
      exact hinv.inner origin horigin path' frame hpath' hframe index

/-- Handing out a table changes no walk, and the new table translates nothing. -/
theorem register_walk (hother : other ∈ alloc.vaddr :: tops) (vaddr : Nat) :
    walk (tables.register alloc) other vaddr =
      if other = alloc.vaddr then none else walk tables other vaddr := by
  have hself := register_window_self tables alloc
  rw [(register_invariant hinv hfresh).walk_eq hother]
  by_cases hnew : other = alloc.vaddr
  · rw [if_pos hnew, hnew, hself]
    simp [upper, descend, child_register]
  · have hold : other ∈ tops := (List.mem_cons.mp hother).resolve_left hnew
    rw [if_neg hnew, hinv.walk_eq hold, register_window hfresh (hinv.topLevel other hold),
      register_descend hinv hfresh hold (upper_length vaddr)]
    cases hframe : descend (child tables) (tables.window other) (upper vaddr) with
    | none => rfl
    | some frame =>
        rw [Option.bind_some, Option.bind_some, register_frames,
          if_neg (hinv.ne_fresh hfresh hold (upper_length vaddr) hframe)]

end Register

section Attach

variable (hinv : Invariant tables tops) (hfresh : Fresh tables alloc) (htop : top ∈ tops)
  (hat : At tables top path table) (hpath : path.length < 3)
  (hslot : (tables.entry table index).present = false)

/-- The tables after a missing one was made and entered. -/
def attached (tables : Tables) (alloc : Allocation) (table index : Nat) : Tables :=
  (tables.register alloc).setEntry table index fun entry =>
    { entry.setAddress alloc.paddr with present := true, userSuper := true, readWrite := true }

theorem attached_window (hfresh : Fresh tables alloc)
    (hused : ∃ taken ∈ tables.used, taken.vaddr = other) :
    (attached tables alloc table index).window other = tables.window other :=
  register_window hfresh hused

include hinv hfresh htop hat hpath

theorem attached_frames (index frame slot : Nat) :
    (attached tables alloc table index).frames frame slot =
      if frame = tables.window table ∧ slot = index then
        { (tables.frames frame slot).setAddress alloc.paddr with
          present := true, userSuper := true, readWrite := true }
      else if frame = alloc.paddr then .zero else tables.frames frame slot := by
  rw [attached, setEntry_frames, register_window hfresh hat.used, register_frames]
  by_cases hhere : frame = tables.window table ∧ slot = index
  · have hne := hinv.ne_fresh hfresh htop (Nat.le_of_lt hpath) hat.found
    rw [if_pos hhere, if_pos hhere, hhere.1, if_neg hne]
  · rw [if_neg hhere, if_neg hhere]
    split <;> rfl

include hslot

theorem attached_descend (hother : other ∈ tops) {path' : List Nat} (hpath' : path'.length ≤ 3) :
    descend (child (attached tables alloc table index)) (tables.window other) path' =
      if tables.window other = tables.window top ∧ path' = path ++ [index] then some alloc.paddr
      else descend (child tables) (tables.window other) path' := by
  have hframes := attached_frames hinv hfresh htop hat hpath index
  have hne := hinv.ne_fresh hfresh htop (Nat.le_of_lt hpath) hat.found
  refine descend_attach hinv.forest (mem_roots htop) hat.found hpath (child_eq_none.mpr hslot) ?_ ?_
    ?_ ?_ (mem_roots hother) hpath'
  · rintro root ⟨origin, horigin, rfl⟩ path'' hlength hframe
    exact hinv.ne_fresh hfresh horigin hlength hframe rfl
  · have hentry := hframes (tables.window table) index
    rw [if_pos ⟨rfl, rfl⟩] at hentry
    rw [child, hentry, if_pos rfl]
    refine congrArg some ?_
    exact (tables.frames (tables.window table) index).getAddress_setAddress hfresh.aligned
      hfresh.small
  · intro slot
    rw [child_eq_none, hframes, if_neg fun h => hne h.1.symm, if_pos rfl]
    rfl
  · intro frame slot hneFresh hside
    rw [child, child, hframes, if_neg (not_and_or.mpr hside), if_neg hneFresh]

/-- Descents in the new forest end in the new table or are old ones. -/
theorem attached_cases (hother : other ∈ tops) {path' : List Nat} (hpath' : path'.length ≤ 3)
    {frame : Nat}
    (hframe : descend (child (attached tables alloc table index)) (tables.window other) path' =
      some frame) :
    frame = alloc.paddr ∨ descend (child tables) (tables.window other) path' = some frame := by
  rw [attached_descend hinv hfresh htop hat hpath hslot hother hpath'] at hframe
  split at hframe
  · exact .inl (Option.some.inj hframe).symm
  · exact .inr hframe

theorem attached_invariant : Invariant (attached tables alloc table index) tops := by
  have hframes := attached_frames hinv hfresh htop hat hpath index
  have hwindow : ∀ origin ∈ tops,
      (attached tables alloc table index).window origin = tables.window origin :=
    fun origin horigin => attached_window hfresh (hinv.topLevel origin horigin)
  refine ⟨?_, ?_, registered_register hinv hfresh, ?_, ?_⟩
  · have hnot : ∀ root ∈ roots tables tops, ∀ path', path'.length ≤ 3 →
        descend (child tables) root path' ≠ some alloc.paddr := by
      rintro root ⟨origin, horigin, rfl⟩ path' hpath' hframe
      exact hinv.ne_fresh hfresh horigin hpath' hframe rfl
    have hdescend : ∀ root ∈ roots tables tops, ∀ path', path'.length ≤ 3 →
        descend (child (attached tables alloc table index)) root path' =
          if root = tables.window top ∧ path' = path ++ [index] then some alloc.paddr
          else descend (child tables) root path' := by
      rintro root ⟨origin, horigin, rfl⟩ path' hpath'
      exact attached_descend hinv hfresh htop hat hpath hslot horigin hpath'
    have hroots : roots (attached tables alloc table index) tops = roots tables tops := by
      ext frame
      constructor
      · rintro ⟨origin, horigin, rfl⟩
        exact ⟨origin, horigin, (hwindow origin horigin).symm⟩
      · rintro ⟨origin, horigin, rfl⟩
        exact ⟨origin, horigin, hwindow origin horigin⟩
    rw [hroots]
    exact hinv.forest.attach hnot hdescend
  · intro origin horigin path' frame hpath' hframe
    rw [hwindow origin horigin] at hframe
    rcases attached_cases hinv hfresh htop hat hpath hslot horigin hpath' hframe with rfl | hold
    · exact ⟨alloc, List.mem_cons_self, rfl⟩
    · obtain ⟨taken, htaken, rfl⟩ := hinv.reached origin horigin path' frame hpath' hold
      exact ⟨taken, List.mem_cons_of_mem _ htaken, rfl⟩
  · intro origin horigin
    obtain ⟨taken, htaken, rfl⟩ := hinv.topLevel origin horigin
    exact ⟨taken, List.mem_cons_of_mem _ htaken, rfl⟩
  · intro origin horigin path' frame hpath' hframe slot
    rw [hwindow origin horigin] at hframe
    have hne := hinv.ne_fresh hfresh htop (Nat.le_of_lt hpath) hat.found
    rcases attached_cases hinv hfresh htop hat hpath hslot horigin (Nat.le_of_lt hpath') hframe with
      rfl | hold
    · rw [hframes, if_neg fun h => hne h.1.symm, if_pos rfl]
      exact ⟨rfl, by simp [Entry.zero]⟩
    · have hinner := hinv.inner origin horigin path' frame hpath' hold slot
      rw [hframes]
      split
      · exact ⟨hinner.1, fun _ => ⟨rfl, rfl⟩⟩
      · rw [if_neg (hinv.ne_fresh hfresh horigin (Nat.le_of_lt hpath') hold)]
        exact hinner

/-- Making a table changes no walk. -/
theorem attached_walk (hother : other ∈ tops) (vaddr : Nat) :
    walk (attached tables alloc table index) other vaddr = walk tables other vaddr := by
  have hframes := attached_frames hinv hfresh htop hat hpath index
  have hne := hinv.ne_fresh hfresh htop (Nat.le_of_lt hpath) hat.found
  rw [(attached_invariant hinv hfresh htop hat hpath hslot).walk_eq hother, hinv.walk_eq hother,
    attached_window hfresh (hinv.topLevel other hother),
    attached_descend hinv hfresh htop hat hpath hslot hother (upper_length vaddr)]
  split
  · next hhere =>
      -- The new table is empty, and before the entry that names it was.
      rw [Option.bind_some, hframes, if_neg fun h => hne h.1.symm, if_pos rfl, hhere.1, hhere.2,
        descend_concat, hat.found, Option.bind_some, child_eq_none.mpr hslot]
      rfl
  · cases hframe : descend (child tables) (tables.window other) (upper vaddr) with
    | none => rfl
    | some frame =>
        rw [Option.bind_some, Option.bind_some, hframes,
          if_neg fun h => ?_, if_neg (hinv.ne_fresh hfresh hother (upper_length vaddr) hframe)]
        obtain ⟨rfl, -⟩ := h
        have hsame := (hinv.forest _ (mem_roots hother) _ (mem_roots htop) _ _ _
          (upper_length vaddr) (Nat.le_of_lt hpath) hframe hat.found).2
        rw [← hsame] at hpath
        exact absurd hpath (by simp [upper])

theorem attached_at : At (attached tables alloc table index) top (path ++ [index]) alloc.vaddr := by
  refine ⟨?_, alloc, List.mem_cons_self, rfl⟩
  have hlength : (path ++ [index]).length ≤ 3 := by
    rw [List.length_append, List.length_singleton]
    omega
  rw [attached_window hfresh (hinv.topLevel top htop),
    attached_descend hinv hfresh htop hat hpath hslot htop hlength, if_pos ⟨rfl, rfl⟩]
  exact congrArg some (register_window_self tables alloc).symm

end Attach

/-! ## The functions on single pages -/

/-- The new tables serve the same walks. -/
structure Grown (tables new : Tables) (tops : List Nat) : Prop where
  invariant : Invariant new tops
  walk : ∀ other ∈ tops, ∀ vaddr, walk new other vaddr = walk tables other vaddr

variable {talloc : Tables → Option Allocation}
  (hfresh : ∀ tables alloc, talloc tables = some alloc → Fresh tables alloc)

/-- The table that a present entry names is found through the translation map. -/
theorem Invariant.at_present (hinv : Invariant tables tops) (htop : top ∈ tops)
    (hat : At tables top path table) (hpath : path.length < 3)
    (hpresent : (tables.entry table index).present = true) :
    ∃ next, tables.tmap (tables.entry table index).getAddress = some next ∧
      At tables top (path ++ [index]) next := by
  have hdescend : descend (child tables) (tables.window top) (path ++ [index]) =
      some (tables.entry table index).getAddress := by
    rw [descend_concat, hat.found, Option.bind_some, child]
    exact if_pos hpresent
  have hlength : (path ++ [index]).length ≤ 3 := by
    rw [List.length_append, List.length_singleton]
    omega
  obtain ⟨alloc, halloc, hpaddr⟩ := hinv.reached top htop _ _ hlength hdescend
  obtain ⟨htmap, hwindow⟩ := hinv.registered alloc halloc
  refine ⟨alloc.vaddr, by rw [← hpaddr, htmap], ?_, alloc, halloc, rfl⟩
  rw [hdescend, hwindow, hpaddr]

include hfresh

theorem nextTable_spec (hinv : Invariant tables tops) (htop : top ∈ tops)
    (hat : At tables top path table) (hpath : path.length < 3) (missing : Fault) (index : Nat) :
    nextTable talloc missing tables table index = .error .exhausted ∨
      ∃ next allocations new, nextTable talloc missing tables table index =
        .ok (next, allocations, new) ∧ Grown tables new tops ∧ At new top (path ++ [index]) next := by
  by_cases hpresent : (tables.entry table index).present = true
  · obtain ⟨next, htmap, hnext⟩ := hinv.at_present htop hat hpath hpresent
    refine .inr ⟨next, [], tables, ?_, ⟨hinv, fun _ _ _ => rfl⟩, hnext⟩
    simp only [nextTable, if_pos hpresent, htmap]
  · have hslot : (tables.entry table index).present = false := by simpa using hpresent
    cases halloc : talloc tables with
    | none =>
        left
        simp only [nextTable, if_neg hpresent, tallocAlloc, halloc, error_bind]
    | some alloc =>
        have hgood := hfresh tables alloc halloc
        refine .inr ⟨alloc.vaddr, [alloc], attached tables alloc table index, ?_, ⟨?_, ?_⟩, ?_⟩
        · simp only [nextTable, if_neg hpresent, tallocAlloc, halloc, ok_bind, pure_eq_ok]
          rfl
        · exact attached_invariant hinv hgood htop hat hpath hslot
        · intro other hother vaddr
          exact attached_walk hinv hgood htop hat hpath hslot hother vaddr
        · exact attached_at hinv hgood htop hat hpath hslot

/-- Mapping a page that is not mapped adds its translation and no other, unless
the table allocator runs dry. -/
theorem pagingMapSingle_spec (hinv : Invariant tables tops) (htop : top ∈ tops) {paddr : Nat}
    (haligned : pageSize ∣ paddr) (hpaddr : paddr < 2 ^ 52) (hfree : walk tables top vaddr = none)
    (flags : Flags) :
    pagingMapSingle talloc tables top paddr vaddr flags = .error .exhausted ∨
      ∃ allocations new,
        pagingMapSingle talloc tables top paddr vaddr flags = .ok (true, allocations, new) ∧
        Invariant new tops ∧ ∀ other ∈ tops, ∀ vaddr', walk new other vaddr' =
          if other = top ∧ SamePage vaddr vaddr' then some ⟨paddr, flags⟩
          else walk tables other vaddr' := by
  have hat : At tables top [] top := ⟨rfl, hinv.topLevel top htop⟩
  unfold pagingMapSingle
  rcases nextTable_spec hfresh hinv htop hat (by decide) (.entryError 0x601) (pml4tIndex vaddr) with
    hdry | ⟨pdpt, pdptAlloc, tables₁, hcall₁, hgrown₁, hat₁⟩
  · simp [hdry]
  rcases nextTable_spec hfresh hgrown₁.invariant htop hat₁ (by simp) .badPointer
    (pdptIndex vaddr) with hdry | ⟨pdt, pdtAlloc, tables₂, hcall₂, hgrown₂, hat₂⟩
  · simp [hcall₁, hdry]
  rcases nextTable_spec hfresh hgrown₂.invariant htop hat₂ (by simp) .badPointer
    (pdtIndex vaddr) with hdry | ⟨pt, ptAlloc, tables₃, hcall₃, hgrown₃, hat₃⟩
  · simp [hcall₁, hcall₂, hdry]
  have hwalk : ∀ other ∈ tops, ∀ vaddr', walk tables₃ other vaddr' = walk tables other vaddr' := by
    intro other hother vaddr'
    rw [hgrown₃.walk other hother, hgrown₂.walk other hother, hgrown₁.walk other hother]
  have hupper : At tables₃ top (upper vaddr) pt := hat₃
  have habsent : (tables₃.entry pt (ptIndex vaddr)).present = false := by
    have := hwalk top htop vaddr
    rw [hfree, hgrown₃.invariant.walk_eq htop, hupper.found, Option.bind_some, Entry.leaf] at this
    simpa [Tables.entry] using this
  refine .inr ⟨ptAlloc ++ pdtAlloc ++ pdptAlloc, _, ?_, hgrown₃.invariant.setEntry htop hupper
    fun entry => { entry.setAddress paddr with
      present := true, readWrite := flags.readWrite
      executeDisable := flags.executeDisable, userSuper := flags.userSuper }, ?_⟩
  · simp only [hcall₁, hcall₂, hcall₃, ok_bind, habsent, Bool.false_eq_true, ↓reduceIte, pure_eq_ok]
  · intro other hother vaddr'
    rw [hgrown₃.invariant.walk_setEntry htop hupper _ hother, hwalk other hother]
    split
    · simp only [Entry.leaf, ↓reduceIte]
      rw [show ∀ entry : Entry, Entry.getAddress { entry.setAddress paddr with
          present := true, readWrite := flags.readWrite
          executeDisable := flags.executeDisable, userSuper := flags.userSuper } = paddr from
        fun entry => entry.getAddress_setAddress haligned hpaddr]
    · rfl

omit hfresh

/-- A step of `paging_unmap_single` along a path that exists. -/
theorem translate_spec (hinv : Invariant tables tops) (htop : top ∈ tops)
    (hat : At tables top path table) (hpath : path.length < 3)
    (hstep : descend (child tables) (tables.window top) (path ++ [index]) ≠ none) :
    ∃ next, translate tables (tables.entry table index).getAddress = .ok next ∧
      At tables top (path ++ [index]) next := by
  have hpresent : (tables.entry table index).present = true := by
    by_contra habsent
    apply hstep
    rw [descend_concat, hat.found, Option.bind_some]
    exact child_eq_none.mpr (Bool.not_eq_true _ ▸ habsent)
  obtain ⟨next, htmap, hnext⟩ := hinv.at_present htop hat hpath hpresent
  exact ⟨next, by simp only [translate, htmap], hnext⟩

/-- Unmapping a mapped page takes away its translation and no other. -/
theorem pagingUnmapSingle_spec (hinv : Invariant tables tops) (htop : top ∈ tops) {leaf : Leaf}
    (hmapped : walk tables top vaddr = some leaf) :
    ∃ new, pagingUnmapSingle tables top vaddr = .ok (true, new) ∧ Invariant new tops ∧
      ∀ other ∈ tops, ∀ vaddr', walk new other vaddr' =
        if other = top ∧ SamePage vaddr vaddr' then none else walk tables other vaddr' := by
  rw [hinv.walk_eq htop, Option.bind_eq_some_iff] at hmapped
  obtain ⟨frame, hframe, hleaf⟩ := hmapped
  obtain ⟨second, hsecond, hthird⟩ := (@descend_concat_eq_some _ _ _ _ _
    [pml4tIndex vaddr, pdptIndex vaddr] _).mp hframe
  obtain ⟨first, hfirst, -⟩ := (@descend_concat_eq_some _ _ _ _ _ [pml4tIndex vaddr] _).mp hsecond
  have hat : At tables top [] top := ⟨rfl, hinv.topLevel top htop⟩
  obtain ⟨pdpt, hpdpt, hat₁⟩ := translate_spec hinv htop hat (by decide)
    (show descend (child tables) (tables.window top) ([] ++ [pml4tIndex vaddr]) ≠ none by
      rw [List.nil_append, hfirst]; simp)
  obtain ⟨pdt, hpdt, hat₂⟩ := translate_spec hinv htop hat₁ (by simp)
    (show descend (child tables) (tables.window top)
        ([] ++ [pml4tIndex vaddr] ++ [pdptIndex vaddr]) ≠ none by
      rw [List.nil_append, List.singleton_append, hsecond]; simp)
  obtain ⟨pt, hpt, hat₃⟩ := translate_spec hinv htop hat₂ (by simp)
    (show descend (child tables) (tables.window top) (upper vaddr) ≠ none by rw [hframe]; simp)
  have hupper : At tables top (upper vaddr) pt := hat₃
  have hpresent : (tables.entry pt (ptIndex vaddr)).present = true := by
    obtain rfl : frame = tables.window pt := Option.some.inj (hframe.symm.trans hupper.found)
    by_contra habsent
    have hnone : (tables.entry pt (ptIndex vaddr)).leaf = none := if_neg habsent
    exact absurd (hnone.symm.trans hleaf) (by simp)
  refine ⟨_, ?_, hinv.setEntry htop hupper fun entry => { entry with present := false }, ?_⟩
  · simp only [pagingUnmapSingle, hpdpt, hpdt, hpt, ok_bind, hpresent, Bool.not_true,
      Bool.false_eq_true, ↓reduceIte, pure_eq_ok]
  · intro other hother vaddr'
    rw [hinv.walk_setEntry htop hupper _ hother]
    split <;> rfl

end PKernel.PageTables
