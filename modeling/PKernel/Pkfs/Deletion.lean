import PKernel.Pkfs.Creation

/-! # Deleting a file

What a completed call of `delete_file` has done: the pages of the data chain are not in
use, the children behind the file have moved up, and `first_free` is the least of what
it was and the pages of the file. An image in order stays in order without the file.
-/

namespace PKernel.Pkfs

open Operation Library.Ownership Relation
open Device (set_pages_of_ne set_pages_self set_rootDirectory)

variable {device device' : Device}

/-! ## Chains of data pages -/

/-- The data pages from an address on, up to the one that leads to 0. -/
def DataChain (device : Device) : Nat → List Nat → Prop
  | addr, [] => addr = 0
  | addr, page :: rest =>
      addr = page ∧ page ≠ 0 ∧ page < device.size ∧ DataChain device (device.word page nextField) rest

theorem DataChain.congr {addr : Nat} {chain : List Nat} (hchain : DataChain device addr chain)
    (hsize : device'.size = device.size)
    (hnext : ∀ page ∈ chain, device'.word page nextField = device.word page nextField) :
    DataChain device' addr chain := by
  induction chain generalizing addr with
  | nil => exact hchain
  | cons page rest ih =>
      obtain ⟨haddr, hne, hlt, hrest⟩ := hchain
      refine ⟨haddr, hne, hsize ▸ hlt, ?_⟩
      rw [hnext page List.mem_cons_self]
      exact ih hrest fun next hmem => hnext next (List.mem_cons_of_mem _ hmem)

/-- A page of a chain is the first, or an earlier one leads to it. -/
theorem DataChain.pred {addr : Nat} {chain : List Nat} (hchain : DataChain device addr chain)
    {page : Nat} (hpage : page ∈ chain) :
    page ≠ 0 ∧ (page = addr ∨ ∃ before ∈ chain, device.word before nextField = page) := by
  induction chain generalizing addr with
  | nil => cases hpage
  | cons first rest ih =>
      obtain ⟨haddr, hne, -, hrest⟩ := hchain
      rcases List.mem_cons.mp hpage with rfl | hmem
      · exact ⟨hne, .inl haddr.symm⟩
      · obtain ⟨hpageNe, rfl | ⟨before, hbefore, hnext⟩⟩ := ih hrest hmem
        · exact ⟨hpageNe, .inr ⟨first, List.mem_cons_self, rfl⟩⟩
        · exact ⟨hpageNe, .inr ⟨before, List.mem_cons_of_mem _ hbefore, hnext⟩⟩

/-- The device with some pages marked as not in use. -/
def cleared (device : Device) (chain : List Nat) : Device :=
  { device with pages := fun page =>
      if page ∈ chain then (device.pages page).setInUse false else device.pages page }

theorem cleared_word (chain : List Nat) (page : Nat) {offset : Nat} (hoffset : 0 < offset) :
    (cleared device chain).word page offset = device.word page offset := by
  simp only [Device.word, cleared]
  split
  next => rw [Page.word_setInUse _ _ hoffset]
  next => rfl

theorem cleared_pages_of_notMem {chain : List Nat} {page : Nat} (hpage : page ∉ chain) :
    (cleared device chain).pages page = device.pages page := if_neg hpage

/-- An address has one chain. -/
theorem DataChain.unique {addr : Nat} {chain other : List Nat} (hchain : DataChain device addr chain)
    (hother : DataChain device addr other) : chain = other := by
  induction chain generalizing addr other with
  | nil =>
      cases other with
      | nil => rfl
      | cons page rest => exact absurd (hother.1.symm.trans hchain) hother.2.1
  | cons page rest ih =>
      obtain ⟨rfl, hne, -, hrest⟩ := hchain
      cases other with
      | nil => exact absurd hother hne
      | cons page' rest' =>
          obtain ⟨rfl, -, -, hrest'⟩ := hother
          rw [ih hrest hrest']

/-- A page of a chain has a chain that is no longer. -/
theorem DataChain.suffix {addr : Nat} {chain : List Nat} (hchain : DataChain device addr chain)
    {page : Nat} (hpage : page ∈ chain) :
    ∃ rest, rest.length ≤ chain.length ∧ DataChain device page rest := by
  induction chain generalizing addr with
  | nil => cases hpage
  | cons first rest ih =>
      rcases List.mem_cons.mp hpage with rfl | hmem
      · obtain rfl := hchain.1
        exact ⟨_, le_rfl, hchain⟩
      · obtain ⟨suffix, hlength, hsuffix⟩ := ih hchain.2.2.2 hmem
        exact ⟨suffix, by simp only [List.length_cons]; omega, hsuffix⟩

theorem DataChain.nodup {addr : Nat} {chain : List Nat} (hchain : DataChain device addr chain) :
    chain.Nodup := by
  induction chain generalizing addr with
  | nil => exact List.nodup_nil
  | cons page rest ih =>
      refine List.nodup_cons.mpr ⟨fun hmem => ?_, ih hchain.2.2.2⟩
      -- the page would have two chains of different lengths
      obtain ⟨suffix, hlength, hsuffix⟩ := hchain.2.2.2.suffix hmem
      obtain rfl := hchain.1
      have hsame := congrArg List.length (hsuffix.unique hchain)
      simp only [List.length_cons] at hsame
      omega

theorem cleared_cons {page : Nat} {rest : List Nat} (hpage : page ∉ rest) :
    cleared (device.set page ((device.pages page).setInUse false)) rest =
      cleared device (page :: rest) := by
  simp only [cleared, Device.set, List.mem_cons]
  congr 1
  funext other
  by_cases hsame : other = page
  · simp [hsame, hpage]
  · simp [hsame]

/-! ## The loops of `delete_file` -/

/-- The least of a number and those in a list. -/
def leastOf (first : Nat) (pages : List Nat) : Nat :=
  pages.foldl (fun least page => min page least) first

theorem leastOf_mem (first : Nat) (pages : List Nat) :
    leastOf first pages = first ∨ leastOf first pages ∈ pages := by
  induction pages generalizing first with
  | nil => exact .inl rfl
  | cons page rest ih =>
      rcases ih (min page first) with hleast | hmem
      · rw [leastOf, List.foldl_cons, ← leastOf, hleast]
        rcases min_choice page first with hmin | hmin
        · exact .inr (by simp [hmin])
        · exact .inl hmin
      · exact .inr (List.mem_cons_of_mem _ hmem)

theorem freeLoop_eq_ok {fuel addr firstFree result : Nat}
    (hcall : freeLoop fuel addr firstFree device = .ok (some result, device')) :
    ∃ chain, DataChain device addr chain ∧ device' = cleared device chain ∧
      result = leastOf firstFree chain := by
  induction fuel generalizing addr firstFree device with
  | zero => simp [freeLoop] at hcall
  | succ fuel ih =>
      unfold freeLoop at hcall
      split at hcall
      next hzero =>
        simp only [pure_apply, Except.ok.injEq, Prod.mk.injEq, Option.some.injEq] at hcall
        refine ⟨[], hzero, ?_, hcall.1.symm⟩
        rw [← hcall.2]
        simp [cleared]
      next hne =>
        simp only [Operation.bind_eq_ok, discRead_eq_ok, discWrite_eq_ok] at hcall
        obtain ⟨_, _, ⟨hlt, rfl, rfl⟩, _, _, ⟨-, rfl⟩, hcall⟩ := hcall
        obtain ⟨rest, hrest, rfl, rfl⟩ := ih hcall
        have hchain : DataChain device (device.word addr nextField) rest := by
          refine hrest.congr rfl fun page _ => ?_
          by_cases hsame : page = addr
          · rw [hsame, Device.word, Device.word, set_pages_self,
              Page.word_setInUse _ _ (by decide)]
          · rw [Device.word, Device.word, set_pages_of_ne _ _ hsame]
        have hwhole : DataChain device addr (addr :: rest) := ⟨rfl, hne, hlt, hchain⟩
        exact ⟨addr :: rest, hwhole, cleared_cons (List.nodup_cons.mp hwhole.nodup).1, rfl⟩

/-- Of the index pages from an address on, the loop changes the one that holds the file. -/
theorem unlinkLoop_eq_ok {file fuel addr page : Nat} {result : Unit}
    (hcall : unlinkLoop file fuel addr device = .ok (some result, device')) (haddr : addr ≠ 0)
    (hchain : ReflTransGen (fun page next => device.word page nextField = next ∧ next ≠ 0) addr page)
    (hhas : slotOf? (device.pages page) file ≠ none)
    (honly : ∀ other, ReflTransGen (fun page next => device.word page nextField = next ∧ next ≠ 0)
      addr other → slotOf? (device.pages other) file ≠ none → other = page) :
    ∃ index, slotOf? (device.pages page) file = some index ∧
      device' = device.set page (shiftChildren (device.pages page) index) := by
  induction fuel generalizing addr with
  | zero => simp [unlinkLoop] at hcall
  | succ fuel ih =>
      simp only [unlinkLoop, haddr, if_false, Operation.bind_eq_ok, discRead_eq_ok] at hcall
      obtain ⟨_, _, ⟨-, rfl, rfl⟩, hcall⟩ := hcall
      cases hslot : slotOf? (device.pages addr) file with
      | some index =>
          simp only [hslot, discWrite_eq_ok] at hcall
          obtain rfl := honly addr .refl (by simp [hslot])
          exact ⟨index, hslot, hcall.2⟩
      | none =>
          simp only [hslot] at hcall
          rcases hchain.cases_head with rfl | ⟨next, ⟨rfl, hne⟩, hrest⟩
          · exact absurd hslot hhas
          · exact ih hcall hne hrest fun other hother => honly other (.head ⟨rfl, hne⟩ hother)

theorem deleteFile_eq_ok {fuel root file : Nat} {result : Bool}
    (hcall : deleteFile fuel root file device = .ok (some result, device')) :
    ∃ chain middle, DataChain device (device.word file targetField) chain ∧ file < device.size ∧
      unlinkLoop file fuel
        ((cleared device chain).word (device.word file nodeParentField) targetField)
        (cleared device chain) = .ok (some (), middle) ∧
      device' = middle.set root ((device.pages root).setWord firstFreeField
        (min file (leastOf ((device.pages root).word firstFreeField) chain))) := by
  simp only [deleteFile, Operation.bind_eq_ok, discRead_eq_ok, discWrite_eq_ok, pure_apply,
    Except.ok.injEq, Prod.mk.injEq, Option.some.injEq] at hcall
  obtain ⟨_, _, ⟨-, rfl, rfl⟩, _, _, ⟨hfile, rfl, rfl⟩, firstFree, _, hfree, _, _, ⟨-, rfl, rfl⟩,
    _, middle, hunlink, _, _, ⟨-, rfl⟩, -, rfl⟩ := hcall
  obtain ⟨chain, hchain, rfl, rfl⟩ := freeLoop_eq_ok hfree
  exact ⟨chain, middle, hchain, hfile, hunlink, rfl⟩

/-! ## An image in order without the file -/

namespace Owned

variable {pending : List (Nat × Role)} {kind : Nat → Option Role}

/-- The pages of a data chain are data pages. -/
theorem of_dataChain (howned : Owned device pending kind) {addr : Nat} {chain : List Nat}
    (hchain : DataChain device addr chain) (haddr : addr ≠ 0 → kind addr = some .data) :
    ∀ page ∈ chain, kind page = some .data := by
  induction chain generalizing addr with
  | nil => simp
  | cons first rest ih =>
      obtain ⟨rfl, hne, -, hrest⟩ := hchain
      intro page hpage
      rcases List.mem_cons.mp hpage with rfl | hmem
      · exact haddr hne
      · exact ih hrest (fun hnext => howned.leads (haddr hne) (by simp [Role.slots]) hnext) page hmem

/-- The page that a file node leads to is a data page. -/
theorem kind_data (howned : Owned device pending kind) {file : Nat}
    (hfile : kind file = some .file) : kind (device.word file targetField) = some .data :=
  howned.leads hfile (by simp [Role.slots]) (howned.based hfile rfl)

/-- Removing a child from its index page. -/
theorem unlinkedNode (howned : Owned device pending kind) {page index : Nat}
    (hpage : kind page = some .index) :
    UnlinkedNode device (device.set page (shiftChildren (device.pages page) index)) kind page index := by
  have hroot := (howned.placed hpage).1
  exact {
    size := rfl
    root := set_rootDirectory _ _ (by omega)
    first := Device.set_firstFree _ _ (by omega)
    children := fun slot hslot hne => by
      rw [Device.word, set_pages_self] at hne ⊢
      exact shiftChildren_child (device.pages page) index hslot hne
    next := by
      rw [Device.word, set_pages_self, shiftChildren_next]
      rfl
    pageUse := by rw [set_pages_self, shiftChildren_inUse]
    others := fun other hother _ => set_pages_of_ne _ _ hother }

/-- Where a completed `delete_file` of a linked file takes the file out. -/
theorem unlinkLoop_place (howned : Owned device pending kind) {file directory page index fuel : Nat}
    {chain : List Nat} {middle : Device} {result : Unit} (hfile : kind file = some .file)
    (hdirectory : kind directory = some .directory) (hindexChain : IndexChain device directory page)
    (hindex : index < directoryIndexChildrenSize) (hchild : device.word page (childField index) = file)
    (hchain : ∀ page ∈ chain, kind page = some .data)
    (hcall : unlinkLoop file fuel
      ((cleared device chain).word (device.word file nodeParentField) targetField)
      (cleared device chain) = .ok (some result, middle)) :
    ∃ slot < directoryIndexChildrenSize, device.word page (childField slot) = file ∧
      middle = (cleared device chain).set page (shiftChildren (device.pages page) slot) := by
  have hfileNe : file ≠ 0 := by
    have := (howned.placed hfile).1
    omega
  have hparent : device.word file nodeParentField = directory := by
    rw [← hchild]
    exact howned.parent hdirectory hindexChain hindex (hchild ▸ hfileNe)
  have hstep : (fun page next => (cleared device chain).word page nextField = next ∧ next ≠ 0) =
      fun page next => device.word page nextField = next ∧ next ≠ 0 := by
    funext page next
    rw [cleared_word chain page (by decide)]
  have hsame {other : Nat} (hother : kind other = some .index) :
      (cleared device chain).pages other = device.pages other := by
    refine cleared_pages_of_notMem fun hmem => ?_
    rw [hchain other hmem] at hother
    cases hother
  have hpageKind := howned.of_indexChain hdirectory hindexChain
  rw [hparent] at hcall
  have hhas : slotOf? ((cleared device chain).pages page) file ≠ none := by
    rw [hsame hpageKind]
    intro hnone
    exact slotOf?_eq_none.mp hnone index hindex hchild
  have honly (other : Nat) (hother : IndexChain (cleared device chain) directory other)
      (hhas : slotOf? ((cleared device chain).pages other) file ≠ none) : other = page := by
    rw [IndexChain, hstep, cleared_word chain directory (by decide)] at hother
    rw [hsame (howned.of_indexChain hdirectory hother)] at hhas
    obtain ⟨slot, hslot⟩ := Option.ne_none_iff_exists'.mp hhas
    obtain ⟨hlt, hword⟩ := slotOf?_eq_some hslot
    have hlink := howned.link_child hdirectory hother hlt (hword.trans_ne hfileNe)
    have hlink' := howned.link_child hdirectory hindexChain hindex (hchild.trans_ne hfileNe)
    rw [hchild] at hlink'
    rw [show device.word other (childField slot) = file from hword] at hlink
    exact (howned.linked.unique hlink hlink').1
  have hreach : IndexChain (cleared device chain) directory page := by
    rw [IndexChain, hstep, cleared_word chain directory (by decide)]
    exact hindexChain
  have hstart : (cleared device chain).word directory targetField ≠ 0 := by
    rw [cleared_word chain directory (by decide)]
    exact howned.based hdirectory rfl
  obtain ⟨slot, hslot, hmiddle⟩ := unlinkLoop_eq_ok hcall hstart hreach hhas honly
  rw [hsame hpageKind] at hslot hmiddle
  obtain ⟨hlt, hword⟩ := slotOf?_eq_some hslot
  exact ⟨slot, hlt, hword, hmiddle⟩

/-- The least of the old `first_free` and the pages given up has no role. -/
theorem without_least (howned : Owned device pending kind) {file : Nat} {chain : List Nat}
    (hgone : ∀ page ∈ file :: chain, rootAddress < page) :
    without kind (file :: chain) (min file (leastOf device.firstFree chain)) = none ∧
      rootAddress < min file (leastOf device.firstFree chain) := by
  have hmem : min file (leastOf device.firstFree chain) = device.firstFree ∨
      min file (leastOf device.firstFree chain) ∈ file :: chain := by
    rcases min_choice file (leastOf device.firstFree chain) with hmin | hmin <;> rw [hmin]
    · exact .inr List.mem_cons_self
    · exact (leastOf_mem device.firstFree chain).imp_right (List.mem_cons_of_mem _)
  generalize min file (leastOf device.firstFree chain) = least at *
  rcases hmem with rfl | hmem
  · refine ⟨?_, howned.free.2⟩
    unfold without
    rw [howned.free.1, ite_self]
  · exact ⟨if_pos hmem, hgone least hmem⟩

/-- The links to a file that is not linked and to its data pages come from these. -/
theorem links_from_file (howned : Owned device pending kind) {file : Nat} {chain : List Nat}
    (hfile : kind file = some .file) (hbase : file ∈ bases device pending)
    (hchain : DataChain device (device.word file targetField) chain) :
    ∀ page slot child, Link device kind page slot child → child ∈ file :: chain →
      page ∈ file :: chain := by
  intro page slot child hlink hmem
  rcases List.mem_cons.mp hmem with rfl | hmem
  · exact absurd hbase (howned.linked.unlinked hlink)
  · obtain ⟨hne, rfl | ⟨before, hbefore, rfl⟩⟩ := hchain.pred hmem
    · have hlink' : Link device kind file targetField (device.word file targetField) :=
        ⟨_, hfile, by simp [Role.slots], rfl, hne⟩
      rw [(howned.linked.unique hlink hlink').1]
      exact List.mem_cons_self
    · have hbeforeKind := howned.of_dataChain hchain (fun _ => howned.kind_data hfile) before hbefore
      have hlink' : Link device kind before nextField (device.word before nextField) :=
        ⟨_, hbeforeKind, by simp [Role.slots], rfl, hne⟩
      rw [(howned.linked.unique hlink hlink').1]
      exact List.mem_cons_of_mem _ hbefore

theorem deleted (howned : Owned device pending kind) {file directory page index fuel : Nat}
    {result : Bool} (hfile : kind file = some .file) (hdirectory : kind directory = some .directory)
    (hindexChain : IndexChain device directory page) (hindex : index < directoryIndexChildrenSize)
    (hchild : device.word page (childField index) = file) (hwaiting : file ∉ pending.map Prod.fst)
    (hcall : deleteFile fuel rootAddress file device = .ok (some result, device')) :
    ∃ kind', Owned device' pending kind' := by
  obtain ⟨chain, middle, hchain, -, hunlink, rfl⟩ := deleteFile_eq_ok hcall
  have hchainKind := howned.of_dataChain hchain fun _ => howned.kind_data hfile
  obtain ⟨slot, hslot, hslotChild, rfl⟩ := howned.unlinkLoop_place hfile hdirectory hindexChain
    hindex hchild hchainKind hunlink
  have hpageKind := howned.of_indexChain hdirectory hindexChain
  have hpageRoot := (howned.placed hpageKind).1
  have hfileRoot := (howned.placed hfile).1
  have hfileUpper := (howned.placed hfile).2.1
  have hsize := device.size_lt
  have hne {other : Nat} {role : Role} (hother : kind other = some role) (hrole : role ≠ .index) :
      other ≠ page := by
    rintro rfl
    exact hrole (Option.some.inj (hother.symm.trans hpageKind))
  have hword {other : Nat} {role : Role} (hother : kind other = some role) (hrole : role ≠ .index)
      (offset : Nat) : (device.set page (shiftChildren (device.pages page) slot)).word other offset =
        device.word other offset := by
    rw [Device.word, set_pages_of_ne _ _ (hne hother hrole), ← Device.word]
  have hrootNe : file ≠ device.rootDirectory := by
    rintro rfl
    exact absurd (hfile.symm.trans howned.root) (by decide)
  -- the file is unlinked and then given up with its chain
  have hunlinked := howned.detach (howned.unlinkedNode hpageKind) hpageKind hslot hslotChild
    (by omega) hrootNe
  have hchain' : DataChain (device.set page (shiftChildren (device.pages page) slot))
      ((device.set page (shiftChildren (device.pages page) slot)).word file targetField) chain := by
    rw [hword hfile (by decide)]
    exact hchain.congr rfl fun next hnext => hword (hchainKind next hnext) (by decide) _
  have hgone := hunlinked.links_from_file hfile (.inr (by simp)) hchain'
  have hrootGone : (device.set page (shiftChildren (device.pages page) slot)).rootDirectory ∉
      file :: chain := by
    rw [set_rootDirectory _ _ (by omega)]
    intro hmem
    rcases List.mem_cons.mp hmem with hsame | hmem
    · exact hrootNe hsame.symm
    · exact absurd ((hchainKind _ hmem).symm.trans howned.root) (by decide)
  have hdropped := hunlinked.drop hgone hrootGone
  have hpending : (((file, nodeRole (device.pages file)) :: pending).filter
      fun entry => entry.1 ∉ file :: chain) = pending := by
    rw [List.filter_cons_of_neg (by simp), List.filter_eq_self]
    rintro ⟨node, role⟩ hnode
    obtain ⟨hnodeKind, hisNode, -⟩ := howned.waiting hnode
    refine decide_eq_true fun hmem => ?_
    rcases List.mem_cons.mp hmem with rfl | hmem
    · exact hwaiting (List.mem_map.mpr ⟨_, hnode, rfl⟩)
    · rw [hchainKind node hmem, Option.some.injEq] at hnodeKind
      exact absurd hisNode (by simp [← hnodeKind, Role.isNode])
  rw [hpending] at hdropped
  have hbehind : ∀ other ∈ file :: chain, rootAddress < other := by
    intro other hmem
    rcases List.mem_cons.mp hmem with rfl | hmem
    · exact hfileRoot
    · exact (howned.placed (hchainKind other hmem)).1
  obtain ⟨hleastKind, hleastRoot⟩ := howned.without_least hbehind
  have hpageNe : page ≠ rootAddress := by omega
  refine ⟨_, hdropped.congr rfl ?_ ?_ ?_⟩
  · rw [set_rootDirectory _ _ hpageNe, Device.rootDirectory, Device.word,
      set_pages_self, Page.word_setWord_of_disjoint _ (.inl (by decide))]
    rfl
  · intro other role hother
    obtain ⟨hkind, hnot⟩ := without_eq_some.mp hother
    have hlower := (howned.placed hkind).1
    have hotherNe : other ≠ rootAddress := by omega
    rw [set_pages_of_ne _ _ hotherNe]
    by_cases hpage : other = page
    · rw [hpage, set_pages_self, set_pages_self]
      exact .refl role _
    · rw [set_pages_of_ne _ _ hpage, set_pages_of_ne _ _ hpage,
        cleared_pages_of_notMem fun hmem => hnot (List.mem_cons_of_mem _ hmem)]
      exact .refl role _
  · rw [Device.firstFree, Device.word, set_pages_self, Page.word_setWord_same _ (by omega)]
    exact ⟨hleastKind, hleastRoot⟩

/-- The node page of a deleted file is on disc as it was. -/
theorem deleted_node (howned : Owned device pending kind) {file directory page index fuel : Nat}
    {result : Bool} (hfile : kind file = some .file) (hdirectory : kind directory = some .directory)
    (hindexChain : IndexChain device directory page) (hindex : index < directoryIndexChildrenSize)
    (hchild : device.word page (childField index) = file)
    (hcall : deleteFile fuel rootAddress file device = .ok (some result, device')) :
    device'.pages file = device.pages file := by
  obtain ⟨chain, middle, hchain, -, hunlink, rfl⟩ := deleteFile_eq_ok hcall
  have hchainKind := howned.of_dataChain hchain fun _ => howned.kind_data hfile
  obtain ⟨slot, -, -, rfl⟩ := howned.unlinkLoop_place hfile hdirectory hindexChain hindex hchild
    hchainKind hunlink
  have hroot := (howned.placed hfile).1
  have hpage : file ≠ page := by
    rintro rfl
    exact absurd (hfile.symm.trans (howned.of_indexChain hdirectory hindexChain)) (by decide)
  have hnotMem : file ∉ chain := fun hmem =>
    absurd (hfile.symm.trans (hchainKind file hmem)) (by decide)
  rw [set_pages_of_ne _ _ (by omega), set_pages_of_ne _ _ hpage,
    cleared_pages_of_notMem hnotMem]

end Owned

end PKernel.Pkfs
