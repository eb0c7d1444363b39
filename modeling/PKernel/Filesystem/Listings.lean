import PKernel.Filesystem.PathReferences
import PKernel.Filesystem.Removal

/-! # Changing a listing

Making and removing files change what a directory lists, and the list of its entry
with it. The cache stays consistent, with the changed disc.
-/

namespace PKernel.Vfs

open Function (update update_of_ne update_self)
open State (free_of_ne set_eq_some set_of_ne)

/-! ## Pages -/

/-- Every page is listed once at most, as there are no hard links. -/
def Treelike (disc : Disc) : Prop :=
  ∀ page page' listed listed', listed ∈ disc page → listed' ∈ disc page' →
    listed.page = listed'.page → page = page' ∧ listed.name = listed'.name

/-- The roots have pages of their own, which no directory lists. -/
def RootsApart (disc : Disc) (state : State) : Prop :=
  ∀ id entry page, state.entries id = some entry → entry.parent = none → entry.node = some page →
    (∀ dir, ∀ listed ∈ disc dir, listed.page ≠ page) ∧
    ∀ other otherEntry, state.entries other = some otherEntry → otherEntry.parent = none →
      otherEntry.node = some page → other = id

section Pages

variable {disc : Disc} {base : Nat → Nat} {state after : State} {held : List Nat} {id other : Nat}
  {entry otherEntry : Entry}

/-- Two entries are not at the same page. -/
theorem Cached.page_unique (hcached : Cached disc base state held) (htree : Treelike disc)
    (hroots : RootsApart disc state) (hentry : state.entries id = some entry)
    (hother : state.entries other = some otherEntry) (hsame : entry.node = otherEntry.node) :
    id = other := by
  -- along the chains of parents
  induction id using Nat.strongRecOn generalizing entry other otherEntry with
  | ind id ih =>
      obtain ⟨page, hpage, -⟩ := hcached.listed id entry hentry
      have hotherPage : otherEntry.node = some page := hsame.symm.trans hpage
      cases hparent : entry.parent with
      | none =>
          obtain ⟨hunlisted, hlone⟩ := hroots id entry page hentry hparent hpage
          cases habove : otherEntry.parent with
          | none => exact (hlone other otherEntry hother habove hotherPage).symm
          | some above =>
              obtain ⟨-, _, dir, child, -, -, -, hchild, hlisted⟩ :=
                hcached.above other otherEntry above hother habove
              obtain rfl : page = child := Option.some.inj (hotherPage.symm.trans hchild)
              exact absurd rfl (hunlisted dir _ (List.mem_of_find?_eq_some hlisted))
      | some parent =>
          obtain ⟨hlt, parentEntry, dir, child, hparentEntry, hnode, hdir, hchild, hlisted⟩ :=
            hcached.above id entry parent hentry hparent
          obtain rfl : page = child := Option.some.inj (hpage.symm.trans hchild)
          cases habove : otherEntry.parent with
          | none =>
              obtain ⟨hunlisted, -⟩ := hroots other otherEntry page hother habove hotherPage
              exact absurd rfl (hunlisted dir _ (List.mem_of_find?_eq_some hlisted))
          | some above =>
              obtain ⟨-, aboveEntry, dir', child', haboveEntry, hnode', hdir', hchild', hlisted'⟩ :=
                hcached.above other otherEntry above hother habove
              obtain rfl : page = child' := Option.some.inj (hotherPage.symm.trans hchild')
              obtain ⟨rfl, hname⟩ := htree dir dir' _ _ (List.mem_of_find?_eq_some hlisted)
                (List.mem_of_find?_eq_some hlisted') rfl
              obtain rfl := ih parent hlt hparentEntry haboveEntry (hdir.trans hdir'.symm)
              cases hparentEntry.symm.trans haboveEntry
              have hnames := hcached.names parent parentEntry hparentEntry
              have heq := Entry.eq_of_name_eq hnames hnode hnode' hname
              exact Option.some.inj (EntryNode.mk.inj heq).2

/-- Roots that were there before are apart from each other. -/
theorem RootsApart.of_roots (hroots : RootsApart disc state)
    (hold : ∀ id entry, after.entries id = some entry → entry.parent = none →
      ∃ old, state.entries id = some old ∧ old.parent = none ∧ old.node = entry.node) :
    RootsApart disc after := by
  intro id entry page hentry hparent hpage
  obtain ⟨old, hbefore, hroot, hnode⟩ := hold id entry hentry hparent
  obtain ⟨hunlisted, hlone⟩ := hroots id old page hbefore hroot (hnode.trans hpage)
  refine ⟨hunlisted, ?_⟩
  intro other otherEntry hother hparent' hpage'
  obtain ⟨old', hbefore', hroot', hnode'⟩ := hold other otherEntry hother hparent'
  exact hlone other old' hbefore' hroot' (hnode'.trans hpage')

/-- There are no new roots. -/
theorem RootsApart.evolve (hroots : RootsApart disc state) (hcached : Cached disc base state held)
    {held' : List Nat} (hafter : Cached disc base after held') (hevolves : Evolves state after) :
    RootsApart disc after := by
  refine hroots.of_roots fun id entry hentry hparent => ?_
  have hbase := (hafter.rooted id entry hentry).mp hparent
  have hlt : id < state.next := by
    by_contra hle
    rw [hcached.freshBase id (by omega)] at hbase
    omega
  cases hbefore : state.entries id with
  | none => simp [hevolves.gone id hlt hbefore] at hentry
  | some old =>
      obtain ⟨hsame, -, -, hnode⟩ := hevolves.same id old entry hbefore hentry
      exact ⟨old, rfl, hsame.symm.trans hparent, hnode.symm⟩

end Pages

/-! ## The list of an entry -/

section Relist

variable {disc disc' : Disc} {base : Nat → Nat} {state : State} {held : List Nat} {id page : Nat}
  {entry : Entry} {nodes : List EntryNode}

/-- A directory that nothing else lists gets another listing, and its entry another list
with the same pointers. -/
theorem Cached.relist (hcached : Cached disc base state held)
    (hentry : state.entries id = some entry) (hpage : entry.node = some page)
    (hlone : ∀ other otherEntry, state.entries other = some otherEntry →
      otherEntry.node = some page → other = id)
    (hdisc : ∀ other, other ≠ page → disc' other = disc other)
    (hnodup : (nodes.map EntryNode.name).Nodup)
    (hnames : ∀ name, name ∈ nodes.map EntryNode.name ↔ name ∈ (disc' page).map Listed.name)
    (hpointers : ∀ name child,
      (⟨name, some child⟩ : EntryNode) ∈ nodes ↔ ⟨name, some child⟩ ∈ entry.nodes)
    (hkept : ∀ name child, (⟨name, some child⟩ : EntryNode) ∈ entry.nodes →
      (disc' page).find? (fun listed => listed.name == name) =
        (disc page).find? fun listed => listed.name == name)
    (hcount : (nodes.countP fun node => node.dirent.isSome) = entry.cached) :
    Cached disc' base (state.set id { entry with nodes }) held := by
  refine hcached.change hentry ⟨rfl, rfl, rfl, rfl⟩ hpage ?_ hnodup hnames hpointers hkept ?_
    (hcached.positive id entry hentry) (fun _ _ => rfl)
  · intro other found otherPage hne hfound hotherPage
    apply hdisc
    rintro rfl
    exact hne (hlone other found hfound hotherPage)
  · show entry.references = held.count id + (nodes.countP fun node => node.dirent.isSome) + base id
    rw [hcount]
    exact hcached.counted id entry hentry

end Relist

/-! ## Roots come and go -/

section Roots

variable {disc : Disc} {base : Nat → Nat} {state : State} {held : List Nat} {id page : Nat}
  {entry : Entry}

/-- A new root without children, which has its references of its own. -/
theorem Cached.putRoot (hcached : Cached disc base state held) (hnone : state.entries id = none)
    (hlt : id < state.next) (hparent : entry.parent = none) (hpage : entry.node = some page)
    (hempty : disc page = []) (hnodes : entry.nodes = []) (hpositive : 0 < entry.references) :
    Cached disc (update base id entry.references) (state.set id entry) held := by
  have hlive : ∀ other found, state.entries other = some found →
      (state.set id entry).entries other = some found := by
    intro other found hfound
    have hne : other ≠ id := by
      rintro rfl
      simp [hnone] at hfound
    exact (set_of_ne hne).trans hfound
  constructor
  case fresh =>
    intro other hle
    have hle : state.next ≤ other := hle
    rw [set_of_ne (by omega)]
    exact hcached.fresh other hle
  case names =>
    intro other found hfound
    rcases set_eq_some.mp hfound with ⟨rfl, rfl⟩ | ⟨-, hfound⟩
    · simp [Entry.names, hnodes]
    · exact hcached.names other found hfound
  case listed =>
    intro other found hfound
    rcases set_eq_some.mp hfound with ⟨rfl, rfl⟩ | ⟨-, hfound⟩
    · exact ⟨page, hpage, by simp [Entry.names, hnodes, hempty]⟩
    · exact hcached.listed other found hfound
  case above =>
    intro other found parent hfound habove
    rcases set_eq_some.mp hfound with ⟨rfl, rfl⟩ | ⟨-, hfound⟩
    · simp [hparent] at habove
    · refine (hcached.placed hfound habove).carry (.refl found) ?_
      intro parentEntry hparentEntry hnode
      exact ⟨parentEntry, hlive parent parentEntry hparentEntry, rfl, hnode⟩
  case below =>
    intro other found name child hfound hnode
    rcases set_eq_some.mp hfound with ⟨rfl, rfl⟩ | ⟨-, hfound⟩
    · simp [hnodes] at hnode
    · refine (hcached.knows hfound hnode).carry ?_
      intro childEntry hchild _ _
      exact ⟨childEntry, hlive child childEntry hchild, .refl childEntry⟩
  case counted =>
    intro other found hfound
    rcases set_eq_some.mp hfound with ⟨rfl, rfl⟩ | ⟨hne, hfound⟩
    · have hnot : other ∉ held := by
        intro hmem
        simpa [hnone] using hcached.held other hmem
      rw [List.count_eq_zero_of_not_mem hnot, update_self]
      simp [Entry.cached, hnodes]
    · rw [update_of_ne hne]
      exact hcached.counted other found hfound
  case positive =>
    intro other found hfound
    rcases set_eq_some.mp hfound with ⟨rfl, rfl⟩ | ⟨-, hfound⟩
    · exact hpositive
    · exact hcached.positive other found hfound
  case held =>
    intro other hmem
    obtain ⟨found, hfound⟩ := Option.isSome_iff_exists.mp (hcached.held other hmem)
    rw [hlive other found hfound]
    rfl
  case rooted =>
    intro other found hfound
    rcases set_eq_some.mp hfound with ⟨rfl, rfl⟩ | ⟨hne, hfound⟩
    · simp [hparent, hpositive]
    · rw [update_of_ne hne]
      exact hcached.rooted other found hfound
  case freshBase =>
    intro other hle
    have hle : state.next ≤ other := hle
    rw [update_of_ne (by omega)]
    exact hcached.freshBase other hle

/-- A root without children and without handles goes. -/
theorem Cached.dropRoot (hcached : Cached disc base state held)
    (hentry : state.entries id = some entry) (hparent : entry.parent = none)
    (hnodes : entry.nodes = []) (hnot : id ∉ held) :
    Cached disc (update base id 0) (state.free id) held := by
  have hlook : ∀ other found, (state.free id).entries other = some found →
      other ≠ id ∧ state.entries other = some found :=
    fun _ _ hfound => State.free_eq_some.mp hfound
  constructor
  case fresh =>
    intro other hle
    have hle : state.next ≤ other := hle
    have hlt := hcached.id_lt hentry
    rw [free_of_ne (by omega)]
    exact hcached.fresh other hle
  case names => exact fun other found hfound => hcached.names other found (hlook _ _ hfound).2
  case listed => exact fun other found hfound => hcached.listed other found (hlook _ _ hfound).2
  case above =>
    intro other found parent hfound habove
    refine (hcached.placed (hlook _ _ hfound).2 habove).carry (.refl found) ?_
    intro parentEntry hparentEntry hnode
    have hne : parent ≠ id := by
      rintro rfl
      cases hentry.symm.trans hparentEntry
      simp [hnodes] at hnode
    exact ⟨parentEntry, (free_of_ne hne).trans hparentEntry, rfl, hnode⟩
  case below =>
    intro other found name child hfound hnode
    refine (hcached.knows (hlook _ _ hfound).2 hnode).carry ?_
    intro childEntry hchild habove _
    have hne : child ≠ id := by
      rintro rfl
      cases hentry.symm.trans hchild
      simp [hparent] at habove
    exact ⟨childEntry, (free_of_ne hne).trans hchild, .refl childEntry⟩
  case counted =>
    intro other found hfound
    obtain ⟨hne, hfound⟩ := hlook other found hfound
    rw [update_of_ne hne]
    exact hcached.counted other found hfound
  case positive =>
    exact fun other found hfound => hcached.positive other found (hlook _ _ hfound).2
  case held =>
    intro other hmem
    have hne : other ≠ id := by
      rintro rfl
      exact hnot hmem
    rw [free_of_ne hne]
    exact hcached.held other hmem
  case rooted =>
    intro other found hfound
    obtain ⟨hne, hfound⟩ := hlook other found hfound
    rw [update_of_ne hne]
    exact hcached.rooted other found hfound
  case freshBase =>
    intro other hle
    have hle : state.next ≤ other := hle
    have hlt := hcached.id_lt hentry
    rw [update_of_ne (by omega)]
    exact hcached.freshBase other hle

end Roots

/-! ## Leaving a directory -/

/-- The disc without one name of a directory. -/
def without (disc : Disc) (page : Nat) (name : Name) : Disc :=
  update disc page ((disc page).filter fun listed => listed.name ≠ name)

section Leave

variable {disc : Disc} {base : Nat → Nat} {state : State} {held : List Nat}
  {id parent page dir : Nat} {entry parentEntry : Entry} {name other : Name}

theorem mem_without {listed : Listed} :
    listed ∈ without disc page name dir ↔
      listed ∈ disc dir ∧ (dir = page → listed.name ≠ name) := by
  by_cases heq : dir = page
  · subst heq
    simp [without]
  · simp [without, heq]

/-- The other names lead where they led. -/
theorem find?_without (hne : dir = page → other ≠ name) :
    (without disc page name dir).find? (fun listed => listed.name == other) =
      (disc dir).find? fun listed => listed.name == other := by
  by_cases heq : dir = page
  · subst heq
    rw [without, update_self, List.find?_filter]
    congr 1
    funext listed
    by_cases hname : listed.name = other
    · simp [hname, hne rfl]
    · simp [hname]
  · rw [without, update_of_ne heq]

theorem Treelike.without (htree : Treelike disc) : Treelike (without disc page name) := by
  intro first second listed listed' hlisted hlisted' hsame
  exact htree first second listed listed' (mem_without.mp hlisted).1 (mem_without.mp hlisted').1
    hsame

/-- An entry that leaves its directory is a root apart from the others. -/
theorem RootsApart.orphan {gone : State} {type : FileType} {child : Nat}
    (hroots : RootsApart disc state) (htree : Treelike disc)
    (hlisted : ⟨name, type, child⟩ ∈ disc page) (hself : gone.entries id = some entry)
    (hchild : entry.node = some child)
    (hold : ∀ other found, other ≠ id → gone.entries other = some found → found.parent = none →
      ∃ old, state.entries other = some old ∧ old.parent = none ∧ old.node = found.node) :
    RootsApart (Vfs.without disc page name) gone := by
  intro root found dir hfound hroot hdir
  by_cases heq : root = id
  · subst heq
    cases hself.symm.trans hfound
    obtain rfl : child = dir := Option.some.inj (hchild.symm.trans hdir)
    constructor
    · rintro other listed hmem rfl
      obtain ⟨rfl, hname⟩ := htree other page listed _ (mem_without.mp hmem).1 hlisted rfl
      exact (mem_without.mp hmem).2 rfl hname
    · intro other otherEntry hother hotherRoot hotherDir
      by_contra hne
      obtain ⟨old, hbefore, hrootBefore, hnode⟩ := hold other otherEntry hne hother hotherRoot
      obtain ⟨hunlisted, -⟩ := hroots other old child hbefore hrootBefore (hnode.trans hotherDir)
      exact hunlisted page _ hlisted rfl
  · obtain ⟨old, hbefore, hrootBefore, hnode⟩ := hold root found heq hfound hroot
    obtain ⟨hunlisted, hlone⟩ := hroots root old dir hbefore hrootBefore (hnode.trans hdir)
    refine ⟨fun other listed hmem => hunlisted other listed (mem_without.mp hmem).1, ?_⟩
    intro other otherEntry hother hotherRoot hotherDir
    by_cases hid : other = id
    · subst hid
      cases hself.symm.trans hother
      obtain rfl : child = dir := Option.some.inj (hchild.symm.trans hotherDir)
      exact absurd rfl (hunlisted page _ hlisted)
    · obtain ⟨old', hbefore', hrootBefore', hnode'⟩ := hold other otherEntry hid hother hotherRoot
      exact hlone other old' hbefore' hrootBefore' (hnode'.trans hotherDir)

/-- The pointer of a node that is taken out does not matter. -/
theorem Entry.unlink_setDirent (dirent : Option Nat) :
    (entry.setDirent name dirent).unlink name = entry.unlink name := by
  obtain ⟨above, parentNode, references, type, node, nodes⟩ := entry
  simp only [Entry.setDirent, Entry.unlink, Entry.mk.injEq, true_and]
  induction nodes with
  | nil => rfl
  | cons first rest ih =>
      by_cases hname : first.name = name
      · simp only [List.map_cons, hname, if_true, List.filter_cons, ne_eq, not_true_eq_false,
          decide_false, Bool.false_eq_true, if_false, ih]
      · simp only [List.map_cons, hname, if_false, List.filter_cons, ne_eq, not_false_eq_true,
          decide_true, if_true, ih]

theorem Cached.unlink_names (hcached : Cached disc base state held)
    (hparentEntry : state.entries parent = some parentEntry) (hpage : parentEntry.node = some page)
    (name other : Name) :
    other ∈ (parentEntry.unlink name).names ↔
      other ∈ (Vfs.without disc page name page).map Listed.name := by
  obtain ⟨page', hpage', hnames⟩ := hcached.listed parent parentEntry hparentEntry
  obtain rfl : page = page' := Option.some.inj (hpage.symm.trans hpage')
  have hleft : other ∈ (parentEntry.unlink name).names ↔
      other ∈ parentEntry.names ∧ other ≠ name := by
    simp only [Entry.names, Entry.unlink, List.mem_map, List.mem_filter, decide_eq_true_eq]
    constructor
    · rintro ⟨node, ⟨hnode, hne⟩, rfl⟩
      exact ⟨⟨node, hnode, rfl⟩, hne⟩
    · rintro ⟨⟨node, hnode, rfl⟩, hne⟩
      exact ⟨node, ⟨hnode, hne⟩, rfl⟩
  have hright : other ∈ (Vfs.without disc page name page).map Listed.name ↔
      other ∈ (disc page).map Listed.name ∧ other ≠ name := by
    simp only [List.mem_map, mem_without]
    constructor
    · rintro ⟨listed, ⟨hlisted, hne⟩, rfl⟩
      exact ⟨⟨listed, hlisted, rfl⟩, hne trivial⟩
    · rintro ⟨⟨listed, hlisted, rfl⟩, hne⟩
      exact ⟨listed, ⟨hlisted, fun _ => hne⟩, rfl⟩
  rw [hleft, hright, hnames]

/-- A name without a pointer leaves a listing. -/
theorem Cached.unlist (hcached : Cached disc base state held)
    (hparentEntry : state.entries parent = some parentEntry) (hpage : parentEntry.node = some page)
    (hlone : ∀ other otherEntry, state.entries other = some otherEntry →
      otherEntry.node = some page → other = parent)
    (hnamed : ∀ node ∈ parentEntry.nodes, node.dirent.isSome → node.name ≠ name) :
    Cached (Vfs.without disc page name) base (state.set parent (parentEntry.unlink name)) held := by
  refine hcached.relist hparentEntry hpage hlone ?_ ?_
    (hcached.unlink_names hparentEntry hpage name) ?_ ?_ ?_
  · intro other hother
    exact update_of_ne hother _ _
  · exact (hcached.names parent parentEntry hparentEntry).sublist (List.filter_sublist.map _)
  · intro other child
    rw [List.mem_filter, decide_eq_true_eq]
    exact ⟨fun hboth => hboth.1, fun hnode => ⟨hnode, hnamed _ hnode rfl⟩⟩
  · intro other child hnode
    exact find?_without fun _ => hnamed _ hnode rfl
  · rw [Entry.cached, List.countP_filter]
    apply List.countP_congr
    intro node hnode
    simpa using hnamed node hnode

/-- All handles on a child without children but one go. -/
theorem Cached.lone_handle (hcached : Cached disc base state held)
    (hentry : state.entries id = some entry) (hparent : entry.parent = some parent)
    (hnodes : entry.nodes = []) :
    Cached disc base (state.set id { entry with references := 1 })
      (id :: held.filter fun other => other ≠ id) := by
  refine hcached.recount hentry ?_ Nat.one_pos ?_
  · have hbase : base id = 0 := by
      by_contra hbase
      have hroot := (hcached.rooted id entry hentry).mpr (by omega)
      simp [hparent] at hroot
    have hnone : (held.filter fun other => other ≠ id).count id = 0 :=
      List.count_eq_zero_of_not_mem (by simp)
    rw [List.count_cons_self, hnone, hbase]
    simp [Entry.cached, hnodes]
  · intro other hother
    rw [List.count_cons_of_ne (Ne.symm hother), List.count_filter (by simpa using hother)]

/-- What is left of the way of an entry out of its directory. -/
theorem Cached.detached_put (hne : parent ≠ id) (lone orphan : Entry) :
    ((Cached.detached (state.set id lone) id parent parentEntry name).set parent
      ((parentEntry.setDirent name none).unlink name)).set id orphan =
      (state.set parent (parentEntry.unlink name)).set id orphan := by
  rw [Entry.unlink_setDirent]
  simp only [Cached.detached, State.set, State.free, State.mk.injEq, and_true]
  funext other
  by_cases hid : other = id
  · simp [hid]
  · by_cases heq : other = parent
    · simp [heq, hne]
    · simp [hid, heq]

/-- An entry without children leaves its directory. It becomes a root whose references
are its own, and the one that it was for its parent is a handle that nobody has. -/
theorem Cached.leave (hcached : Cached disc base state held) (htree : Treelike disc)
    (hroots : RootsApart disc state) (hentry : state.entries id = some entry)
    (hparent : entry.parent = some parent) (hparentEntry : state.entries parent = some parentEntry)
    (hpage : parentEntry.node = some page) (hnodes : entry.nodes = []) {child : Nat}
    (hchild : entry.node = some child) (hempty : disc child = []) :
    Cached (Vfs.without disc page entry.parentNode) (update base id entry.references)
      ((state.set parent (parentEntry.unlink entry.parentNode)).set id
        { entry with parent := none, parentNode := [] })
      (parent :: held.filter fun other => other ≠ id) := by
  obtain ⟨hlt, -⟩ := hcached.placed hentry hparent
  have hne : parent ≠ id := Nat.ne_of_lt hlt
  have hpositive := hcached.positive id entry hentry
  have hbound := hcached.id_lt hentry
  -- all handles on the entry but one go, then the last one, and with it the entry
  have hlast := (hcached.lone_handle hentry hparent hnodes).detach State.set_self hparent
    ((set_of_ne hne).trans hparentEntry) rfl List.mem_cons_self
  rw [List.erase_cons_head] at hlast
  -- then its name, which has no pointer any more
  have hnamed : ∀ node ∈ (parentEntry.setDirent entry.parentNode none).nodes,
      node.dirent.isSome → node.name ≠ entry.parentNode := by
    intro node hnode hpointed
    rcases Entry.mem_setDirent.mp hnode with ⟨hname, -⟩ | ⟨rfl, -⟩
    · exact hname
    · simp at hpointed
  have hunlisted := hlast.unlist (Cached.detached_parent hne) hpage ?_ hnamed
  · -- and it comes back as a root
    have hstill : Vfs.without disc page entry.parentNode child = [] := by
      rw [List.eq_nil_iff_forall_not_mem]
      intro listed hlisted
      simpa [hempty] using (mem_without.mp hlisted).1
    obtain ⟨orphan, horphan⟩ : ∃ orphan : Entry, orphan =
        { entry with parent := none, parentNode := [] } := ⟨_, rfl⟩
    have hput := hunlisted.putRoot ((set_of_ne (Ne.symm hne)).trans Cached.detached_self)
      hbound (by rw [horphan] : orphan.parent = none)
      (by rw [horphan]; exact hchild : orphan.node = some child) hstill
      (by rw [horphan]; exact hnodes : orphan.nodes = [])
      (by rw [horphan]; exact hpositive : 0 < orphan.references)
    rw [Cached.detached_put hne, horphan] at hput
    exact hput
  · intro other otherEntry hother hsame
    rcases Cached.detached_eq_some.mp hother with ⟨hid, ⟨rfl, -⟩ | ⟨-, hother⟩⟩
    · rfl
    · rw [set_of_ne hid] at hother
      exact hcached.page_unique htree hroots hother hparentEntry (hsame.trans hpage.symm)

end Leave

/-! ## Making a file -/

/-- The disc with one more entry in a directory. -/
def linked (disc : Disc) (page : Nat) (listed : Listed) : Disc :=
  update disc page (disc page ++ [listed])

section Make

variable {disc : Disc} {base : Nat → Nat} {state : State} {held : List Nat} {parent page new : Nat}
  {parentEntry : Entry} {name : Name} {type : FileType}

/-- A new name without a pointer comes into a listing. -/
theorem Cached.enlist (hcached : Cached disc base state held)
    (hparentEntry : state.entries parent = some parentEntry) (hpage : parentEntry.node = some page)
    (hlone : ∀ other otherEntry, state.entries other = some otherEntry →
      otherEntry.node = some page → other = parent)
    (hname : name ∉ parentEntry.names) :
    Cached (linked disc page ⟨name, type, new⟩) base
      (state.set parent { parentEntry with nodes := ⟨name, none⟩ :: parentEntry.nodes }) held := by
  obtain ⟨page', hpage', hnames⟩ := hcached.listed parent parentEntry hparentEntry
  obtain rfl : page = page' := Option.some.inj (hpage.symm.trans hpage')
  have hlinked : linked disc page ⟨name, type, new⟩ page = disc page ++ [⟨name, type, new⟩] :=
    update_self ..
  refine hcached.relist hparentEntry hpage hlone ?_ ?_ ?_ ?_ ?_ ?_
  · intro other hother
    exact update_of_ne hother _ _
  · exact List.nodup_cons.mpr ⟨hname, hcached.names parent parentEntry hparentEntry⟩
  · intro other
    rw [hlinked, List.map_append, List.mem_append, List.map_cons, List.mem_cons, ← hnames other]
    simp [Entry.names, or_comm]
  · intro other child
    simp
  · intro other child hnode
    have hother : other ∈ (disc page).map Listed.name :=
      (hnames other).mp (List.mem_map_of_mem hnode)
    obtain ⟨listed, hlisted, hsame⟩ := List.mem_map.mp hother
    rw [hlinked, List.find?_append, Option.or_of_isSome]
    exact List.find?_isSome.mpr ⟨listed, hlisted, by simp [hsame]⟩
  · simp [Entry.cached]

/-- `fs_make` of a free name, on a page that lists nothing. The new entry has two
references, that of its maker and one that nobody releases. -/
theorem Cached.fsMake (hcached : Cached disc base state held)
    (hparentEntry : state.entries parent = some parentEntry) (hpage : parentEntry.node = some page)
    (hlone : ∀ other otherEntry, state.entries other = some otherEntry →
      otherEntry.node = some page → other = parent)
    (htype : type = .regular ∨ type = .directory) (hname : name ∉ parentEntry.names)
    (hne : new ≠ page) (hempty : disc new = []) :
    ∃ made, Vfs.fsMake new state parent name type = .ok (some state.next, made) ∧
      Cached (linked disc page ⟨name, type, new⟩) base made (state.next :: state.next :: held) ∧
      ∀ id found, made.entries id = some found →
        (id = state.next ∧ found.parent = some parent) ∨ ∃ old, state.entries id = some old ∧
          old.parent = found.parent ∧ old.type = found.type ∧ old.node = found.node := by
  obtain ⟨page', hpage', hnames⟩ := hcached.listed parent parentEntry hparentEntry
  obtain rfl : page = page' := Option.some.inj (hpage.symm.trans hpage')
  have hlt := hcached.id_lt hparentEntry
  have hfree : ∀ listed ∈ disc page, listed.name ≠ name := by
    rintro listed hlisted rfl
    exact hname ((hnames _).mpr (List.mem_map_of_mem hlisted))
  have hlinked : linked disc page ⟨name, type, new⟩ page = disc page ++ [⟨name, type, new⟩] :=
    update_self ..
  -- the name
  obtain ⟨grown, hgrown⟩ : ∃ grown, grown =
      { parentEntry with nodes := ⟨name, none⟩ :: parentEntry.nodes } := ⟨_, rfl⟩
  have hrelisted : Cached (linked disc page ⟨name, type, new⟩) base (state.set parent grown)
      held := by
    rw [hgrown]
    exact hcached.enlist hparentEntry hpage hlone hname
  -- the entry
  obtain ⟨child, hchild⟩ : ∃ child : Entry, child =
      ⟨some parent, name, 1, type, some new, []⟩ := ⟨_, rfl⟩
  have hlook : (state.set parent grown).entries parent = some grown := by
    simp [State.set]
  have hattached : Cached (linked disc page ⟨name, type, new⟩) base
      (attached (state.set parent grown) parent grown child) (state.next :: held) := by
    have hchildPage : child.node = some new := by rw [hchild]
    have hgrownPage : grown.node = some page := by
      rw [hgrown]
      exact hpage
    refine hrelisted.attach hlook ?_ hgrownPage ?_ hchildPage ?_ ?_ ?_ ?_ ?_
    all_goals rw [hchild]
    · simp [hgrown, Entry.find?]
    · rw [hlinked, List.find?_append]
      have hnone : (disc page).find? (fun listed => listed.name == name) = none := by
        rw [List.find?_eq_none]
        simpa using hfree
      simp [hnone]
    · simp [Entry.names]
    · simp [Entry.names, linked, hne, hempty]
    · simp
  have hself : (attached (state.set parent grown) parent grown child).entries state.next =
      some child := by
    simp [attached, State.set]
  have hcounted := (hattached.addReference hself).2
  refine ⟨_, fsMake_eq new hparentEntry htype hname, ?_, ?_⟩
  · convert hcounted using 1
    simp only [attached, State.set, State.mk.injEq, and_true, hchild, hgrown]
    funext other
    by_cases hother : other = parent
    · simp [hother, Nat.ne_of_lt hlt]
    · by_cases hnew : other = state.next
      · simp [hnew, Ne.symm (Nat.ne_of_lt hlt)]
      · simp [hother, hnew]
  · intro id found hfound
    simp only at hfound
    by_cases hid : id = parent
    · subst hid
      rw [update_self] at hfound
      cases hfound
      exact .inr ⟨parentEntry, hparentEntry, rfl, rfl, rfl⟩
    · rw [update_of_ne hid] at hfound
      by_cases hnew : id = state.next
      · subst hnew
        rw [update_self] at hfound
        cases hfound
        exact .inl ⟨rfl, rfl⟩
      · rw [update_of_ne hnew] at hfound
        exact .inr ⟨found, hfound, rfl, rfl, rfl⟩

end Make

end PKernel.Vfs
