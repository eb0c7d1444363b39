import PKernel.Filesystem.DirectoryEntry
import PKernel.Library.Lookup
import Mathlib.Data.List.Nodup

/-! # Reference counts of directory entries

An entry is referred to by the handles on it and by its cached children. The
handles are a list, so that the one a walk along a path holds on its way counts
like any other. Entries without a parent are the roots of mounted filesystems,
which have some references of their own.
-/

namespace PKernel.Vfs

open Library.Lookup

/-! ## The nodes of an entry -/

namespace Entry

/-- The number of cached children. -/
def cached (entry : Entry) : Nat := entry.nodes.countP fun node => node.dirent.isSome

/-- The names in the list of an entry. -/
def names (entry : Entry) : List Name := entry.nodes.map EntryNode.name

variable {entry : Entry} {name : Name} {node : EntryNode}

theorem find?_eq_none : entry.find? name = none ↔ name ∉ entry.names := by
  simp [find?, names]

theorem mem_of_find? (hfind : entry.find? name = some node) :
    node ∈ entry.nodes ∧ node.name = name :=
  ⟨List.mem_of_find?_eq_some hfind, by simpa using List.find?_some hfind⟩

/-- A name leads to one node. -/
theorem eq_of_name_eq (hnodup : entry.names.Nodup) {first second : EntryNode}
    (hfirst : first ∈ entry.nodes) (hsecond : second ∈ entry.nodes)
    (hname : first.name = second.name) : first = second :=
  List.inj_on_of_nodup_map hnodup hfirst hsecond hname

theorem find?_of_mem (hnodup : entry.names.Nodup) (hmem : node ∈ entry.nodes) :
    entry.find? node.name = some node := by
  cases hfind : entry.find? node.name with
  | none => exact absurd (List.mem_map_of_mem hmem) (find?_eq_none.mp hfind)
  | some found =>
      obtain ⟨hfound, hname⟩ := mem_of_find? hfind
      rw [eq_of_name_eq hnodup hfound hmem hname]

@[simp]
theorem setDirent_names (dirent : Option Nat) : (entry.setDirent name dirent).names = entry.names := by
  simp only [names, setDirent, List.map_map]
  apply List.map_congr_left
  intro node _
  simp only [Function.comp_apply]
  split <;> rfl

theorem mem_setDirent {dirent : Option Nat} :
    node ∈ (entry.setDirent name dirent).nodes ↔
      (node.name ≠ name ∧ node ∈ entry.nodes) ∨
        (node = ⟨name, dirent⟩ ∧ name ∈ entry.names) := by
  simp only [setDirent, List.mem_map, names]
  constructor
  · rintro ⟨before, hbefore, rfl⟩
    by_cases hname : before.name = name
    · rw [if_pos hname]
      exact .inr ⟨by rw [hname], before, hbefore, hname⟩
    · rw [if_neg hname]
      exact .inl ⟨hname, hbefore⟩
  · rintro (⟨hname, hmem⟩ | ⟨rfl, before, hbefore, hname⟩)
    · exact ⟨node, hmem, if_neg hname⟩
    · exact ⟨before, hbefore, by rw [if_pos hname, hname]⟩

/-- Setting one pointer changes the number of cached children by that one. -/
theorem setDirent_cached (hnodup : entry.names.Nodup) (hmem : node ∈ entry.nodes)
    (dirent : Option Nat) :
    (entry.setDirent node.name dirent).cached + (if node.dirent.isSome then 1 else 0) =
      entry.cached + if dirent.isSome then 1 else 0 := by
  obtain ⟨parent, parentNode, references, type, page, nodes⟩ := entry
  simp only [cached, setDirent, names] at *
  induction nodes with
  | nil => simp at hmem
  | cons first rest ih =>
      obtain ⟨hfirst, hrest⟩ := List.nodup_cons.mp hnodup
      rw [List.map_cons, List.countP_cons, List.countP_cons]
      rcases List.mem_cons.mp hmem with rfl | hmem
      · -- the other nodes have other names
        have hsame : (rest.map fun other => if other.name = node.name then
            { other with dirent } else other) = rest := by
          rw [List.map_congr_left (g := id), List.map_id]
          intro other hother
          have hne : other.name ≠ node.name := by
            intro heq
            exact hfirst (heq ▸ List.mem_map_of_mem hother)
          rw [if_neg hne, id]
        simp only [hsame, if_true]
        omega
      · have hne : first.name ≠ node.name := by
          intro heq
          exact hfirst (heq ▸ List.mem_map_of_mem hmem)
        have hrest := ih hrest hmem
        rw [if_neg hne]
        omega

end Entry

/-! ## One entry changes or goes -/

namespace State

variable {state : State} {id other : Nat} {entry found : Entry}

theorem set_self : (state.set id entry).entries id = some entry := by
  simp [set]

theorem set_of_ne (hne : other ≠ id) : (state.set id entry).entries other = state.entries other := by
  simp [set, hne]

theorem free_self : (state.free id).entries id = none := by
  simp [free]

theorem free_of_ne (hne : other ≠ id) : (state.free id).entries other = state.entries other := by
  simp [free, hne]

theorem set_eq_some : (state.set id entry).entries other = some found ↔
    (other = id ∧ found = entry) ∨ (other ≠ id ∧ state.entries other = some found) :=
  update_some_eq_some

theorem free_eq_some : (state.free id).entries other = some found ↔
    other ≠ id ∧ state.entries other = some found :=
  update_none_eq_some

end State

/-! ## The place of an entry -/

/-- An entry that is in the same place as before, for the same node. -/
structure Entry.Alike (before after : Entry) : Prop where
  parent : after.parent = before.parent
  parentNode : after.parentNode = before.parentNode
  type : after.type = before.type
  node : after.node = before.node

theorem Entry.Alike.refl (entry : Entry) : entry.Alike entry := ⟨rfl, rfl, rfl, rfl⟩

theorem Entry.alike_setDirent (entry : Entry) (name : Name) (dirent : Option Nat) :
    entry.Alike (entry.setDirent name dirent) := ⟨rfl, rfl, rfl, rfl⟩

/-- The other entries stay as they are, and the one that changes stays alike. -/
theorem State.set_alike {state : State} {id other : Nat} {before after found : Entry}
    (hbefore : state.entries id = some before) (halike : before.Alike after)
    (hfound : state.entries other = some found) :
    ∃ kept, (state.set id after).entries other = some kept ∧ found.Alike kept :=
  exists_of_update Entry.Alike.refl hbefore halike hfound

/-- An entry is where its parent has it, and what the disc says there. -/
def Placed (disc : Disc) (state : State) (id : Nat) (entry : Entry) (parent : Nat) : Prop :=
  parent < id ∧ ∃ parentEntry page child, state.entries parent = some parentEntry ∧
    ⟨entry.parentNode, some id⟩ ∈ parentEntry.nodes ∧ parentEntry.node = some page ∧
    entry.node = some child ∧
    (disc page).find? (fun listed => listed.name == entry.parentNode) =
      some ⟨entry.parentNode, entry.type, child⟩

/-- A cached child is live, and knows its parent. -/
def Knows (state : State) (id : Nat) (name : Name) (child : Nat) : Prop :=
  ∃ childEntry, state.entries child = some childEntry ∧ childEntry.parent = some id ∧
    childEntry.parentNode = name

section Places

variable {disc disc' : Disc} {state next : State} {id parent child : Nat} {before after : Entry}
  {name : Name}

/-- An entry stays in its place as long as its parent keeps its page and its pointer, and the
disc says the same there. -/
theorem Placed.relist (hplaced : Placed disc state id before parent) (halike : before.Alike after)
    (hkept : ∀ parentEntry page, state.entries parent = some parentEntry →
      ⟨before.parentNode, some id⟩ ∈ parentEntry.nodes → parentEntry.node = some page →
      ∃ kept, next.entries parent = some kept ∧ kept.node = some page ∧
        ⟨before.parentNode, some id⟩ ∈ kept.nodes ∧
        (disc' page).find? (fun listed => listed.name == before.parentNode) =
          (disc page).find? fun listed => listed.name == before.parentNode) :
    Placed disc' next id after parent := by
  obtain ⟨hlt, parentEntry, page, child, hparentEntry, hpointer, hpage, hchild, hdisc⟩ := hplaced
  obtain ⟨kept, hlive, hkeptPage, hkeptPointer, hsame⟩ :=
    hkept parentEntry page hparentEntry hpointer hpage
  refine ⟨hlt, kept, page, child, hlive, ?_, hkeptPage, halike.node.trans hchild, ?_⟩
  · rwa [halike.parentNode]
  · rw [halike.parentNode, halike.type]
    exact hsame.trans hdisc

theorem Placed.carry (hplaced : Placed disc state id before parent) (halike : before.Alike after)
    (hkept : ∀ parentEntry, state.entries parent = some parentEntry →
      ⟨before.parentNode, some id⟩ ∈ parentEntry.nodes →
      ∃ kept, next.entries parent = some kept ∧ kept.node = parentEntry.node ∧
        ⟨before.parentNode, some id⟩ ∈ kept.nodes) :
    Placed disc next id after parent := by
  refine hplaced.relist halike ?_
  intro parentEntry page hparentEntry hpointer hpage
  obtain ⟨kept, hlive, hnode, hkeptPointer⟩ := hkept parentEntry hparentEntry hpointer
  exact ⟨kept, hlive, hnode.trans hpage, hkeptPointer, rfl⟩

/-- A child goes on knowing its parent as long as it stays where it is. -/
theorem Knows.carry (hknows : Knows state id name child)
    (hkept : ∀ childEntry, state.entries child = some childEntry →
      childEntry.parent = some id → childEntry.parentNode = name →
      ∃ kept, next.entries child = some kept ∧ childEntry.Alike kept) :
    Knows next id name child := by
  obtain ⟨childEntry, hchild, hparent, hname⟩ := hknows
  obtain ⟨kept, hlive, halike⟩ := hkept childEntry hchild hparent hname
  exact ⟨kept, hlive, halike.parent.trans hparent, halike.parentNode.trans hname⟩

end Places

/-! ## The invariant -/

/-- The cache agrees with the disc, its pointers with each other, and its counts
with the handles in `held`. -/
structure Cached (disc : Disc) (base : Nat → Nat) (state : State) (held : List Nat) : Prop where
  fresh : ∀ id, state.next ≤ id → state.entries id = none
  names : ∀ id entry, state.entries id = some entry → entry.names.Nodup
  /-- The names of an entry are those that the disc lists for it. -/
  listed : ∀ id entry, state.entries id = some entry → ∃ page, entry.node = some page ∧
    ∀ name, name ∈ entry.names ↔ name ∈ (disc page).map Listed.name
  /-- An entry with a parent is where its parent has it, and what the disc says there. -/
  above : ∀ id entry parent, state.entries id = some entry → entry.parent = some parent →
    parent < id ∧ ∃ parentEntry page child, state.entries parent = some parentEntry ∧
      ⟨entry.parentNode, some id⟩ ∈ parentEntry.nodes ∧ parentEntry.node = some page ∧
      entry.node = some child ∧
      (disc page).find? (fun listed => listed.name == entry.parentNode) =
        some ⟨entry.parentNode, entry.type, child⟩
  /-- A cached child is live, and knows its parent. -/
  below : ∀ id entry name child, state.entries id = some entry →
    ⟨name, some child⟩ ∈ entry.nodes →
    ∃ childEntry, state.entries child = some childEntry ∧ childEntry.parent = some id ∧
      childEntry.parentNode = name
  counted : ∀ id entry, state.entries id = some entry →
    entry.references = held.count id + entry.cached + base id
  positive : ∀ id entry, state.entries id = some entry → 0 < entry.references
  held : ∀ id ∈ held, (state.entries id).isSome
  /-- The roots have references of their own, and no others do. -/
  rooted : ∀ id entry, state.entries id = some entry → (entry.parent = none ↔ 0 < base id)
  freshBase : ∀ id, state.next ≤ id → base id = 0

namespace Cached

variable {disc : Disc} {base : Nat → Nat} {state : State} {held : List Nat} {id : Nat}
  {entry : Entry}

theorem id_lt (hcached : Cached disc base state held) (hentry : state.entries id = some entry) :
    id < state.next := by
  by_contra hle
  rw [hcached.fresh id (by omega)] at hentry
  simp at hentry

theorem placed (hcached : Cached disc base state held) (hentry : state.entries id = some entry)
    {parent : Nat} (hparent : entry.parent = some parent) : Placed disc state id entry parent :=
  hcached.above id entry parent hentry hparent

theorem knows (hcached : Cached disc base state held) (hentry : state.entries id = some entry)
    {name : Name} {child : Nat} (hnode : ⟨name, some child⟩ ∈ entry.nodes) :
    Knows state id name child :=
  hcached.below id entry name child hentry hnode

/-- One entry gets another list with the same pointers, its node another listing, and the handles
on it another number. -/
theorem change {disc' : Disc} {held' : List Nat} {page : Nat} {after : Entry}
    (hcached : Cached disc base state held) (hentry : state.entries id = some entry)
    (halike : entry.Alike after) (hpage : entry.node = some page)
    (hdisc : ∀ other found otherPage, other ≠ id → state.entries other = some found →
      found.node = some otherPage → disc' otherPage = disc otherPage)
    (hnodup : after.names.Nodup)
    (hnames : ∀ name, name ∈ after.names ↔ name ∈ (disc' page).map Listed.name)
    (hpointers : ∀ name child,
      (⟨name, some child⟩ : EntryNode) ∈ after.nodes ↔ ⟨name, some child⟩ ∈ entry.nodes)
    (hkept : ∀ name child, (⟨name, some child⟩ : EntryNode) ∈ entry.nodes →
      (disc' page).find? (fun listed => listed.name == name) =
        (disc page).find? fun listed => listed.name == name)
    (hreferences : after.references = held'.count id + after.cached + base id)
    (hpositive : 0 < after.references)
    (hother : ∀ other, other ≠ id → held'.count other = held.count other) :
    Cached disc' base (state.set id after) held' := by
  -- the other entries are the same, and their nodes list the same
  have hplace : ∀ other found kept parent, state.entries other = some found →
      found.Alike kept → found.parent = some parent →
      Placed disc' (state.set id after) other kept parent := by
    intro other found kept parent hfound hfoundAlike hparent
    refine (hcached.placed hfound hparent).relist hfoundAlike ?_
    intro parentEntry dir hparentEntry hpointer hdir
    by_cases heq : parent = id
    · subst heq
      cases hentry.symm.trans hparentEntry
      obtain rfl : page = dir := Option.some.inj (hpage.symm.trans hdir)
      exact ⟨after, State.set_self, halike.node.trans hpage, (hpointers _ _).mpr hpointer,
        hkept _ _ hpointer⟩
    · exact ⟨parentEntry, (State.set_of_ne heq).trans hparentEntry, hdir, hpointer,
        by rw [hdisc parent parentEntry dir heq hparentEntry hdir]⟩
  have hchild : ∀ other found name child, state.entries other = some found →
      ⟨name, some child⟩ ∈ found.nodes → Knows (state.set id after) other name child := by
    intro other found name child hfound hnode
    refine (hcached.knows hfound hnode).carry ?_
    intro childEntry hchild _ _
    exact State.set_alike hentry halike hchild
  constructor
  case fresh =>
    intro other hle
    have hlt := hcached.id_lt hentry
    have hle : state.next ≤ other := hle
    rw [State.set_of_ne (by omega)]
    exact hcached.fresh other hle
  case names =>
    intro other found hfound
    rcases State.set_eq_some.mp hfound with ⟨rfl, rfl⟩ | ⟨_, hfound⟩
    · exact hnodup
    · exact hcached.names other found hfound
  case listed =>
    intro other found hfound
    rcases State.set_eq_some.mp hfound with ⟨rfl, rfl⟩ | ⟨hne, hfound⟩
    · exact ⟨page, halike.node.trans hpage, hnames⟩
    · obtain ⟨otherPage, hotherPage, hlisted⟩ := hcached.listed other found hfound
      refine ⟨otherPage, hotherPage, ?_⟩
      rwa [hdisc other found otherPage hne hfound hotherPage]
  case above =>
    intro other found parent hfound hparent
    rcases State.set_eq_some.mp hfound with ⟨rfl, rfl⟩ | ⟨_, hfound⟩
    · exact hplace other entry found parent hentry halike (halike.parent.symm.trans hparent)
    · exact hplace other found found parent hfound (.refl found) hparent
  case below =>
    intro other found name child hfound hnode
    rcases State.set_eq_some.mp hfound with ⟨rfl, rfl⟩ | ⟨_, hfound⟩
    · exact hchild other entry name child hentry ((hpointers name child).mp hnode)
    · exact hchild other found name child hfound hnode
  case counted =>
    intro other found hfound
    rcases State.set_eq_some.mp hfound with ⟨rfl, rfl⟩ | ⟨hne, hfound⟩
    · exact hreferences
    · rw [hother other hne]
      exact hcached.counted other found hfound
  case positive =>
    intro other found hfound
    rcases State.set_eq_some.mp hfound with ⟨rfl, rfl⟩ | ⟨_, hfound⟩
    · exact hpositive
    · exact hcached.positive other found hfound
  case held =>
    intro other hmem
    by_cases heq : other = id
    · rw [heq, State.set_self]
      rfl
    · have hmem : other ∈ held :=
        List.count_pos_iff.mp (hother other heq ▸ List.count_pos_iff.mpr hmem)
      rw [State.set_of_ne heq]
      exact hcached.held other hmem
  case rooted =>
    intro other found hfound
    rcases State.set_eq_some.mp hfound with ⟨rfl, rfl⟩ | ⟨_, hfound⟩
    · rw [halike.parent]
      exact hcached.rooted other entry hentry
    · exact hcached.rooted other found hfound
  case freshBase => exact hcached.freshBase

/-- Another count in one entry. -/
theorem recount (hcached : Cached disc base state held) (hentry : state.entries id = some entry)
    {references : Nat} {held' : List Nat}
    (hreferences : references = held'.count id + entry.cached + base id)
    (hpositive : 0 < references)
    (hother : ∀ other, other ≠ id → held'.count other = held.count other) :
    Cached disc base (state.set id { entry with references }) held' := by
  obtain ⟨page, hpage, hnames⟩ := hcached.listed id entry hentry
  exact hcached.change hentry ⟨rfl, rfl, rfl, rfl⟩ hpage (fun _ _ _ _ _ _ => rfl)
    (hcached.names id entry hentry) hnames (fun _ _ => .rfl) (fun _ _ _ => rfl) hreferences
    hpositive hother

/-- The order of the handles does not matter. -/
theorem perm (hcached : Cached disc base state held) {held' : List Nat}
    (hperm : held.Perm held') : Cached disc base state held' where
  fresh := hcached.fresh
  names := hcached.names
  listed := hcached.listed
  above := hcached.above
  below := hcached.below
  counted id entry hentry := by
    rw [← hperm.count_eq]
    exact hcached.counted id entry hentry
  positive := hcached.positive
  held id hmem := hcached.held id (hperm.mem_iff.mpr hmem)
  rooted := hcached.rooted
  freshBase := hcached.freshBase

/-- `fs_directory_entry_add_reference`: one more handle. -/
theorem addReference (hcached : Cached disc base state held)
    (hentry : state.entries id = some entry) :
    addReference state id =
      .ok (state.set id { entry with references := entry.references + 1 }) ∧
    Cached disc base (state.set id { entry with references := entry.references + 1 })
      (id :: held) := by
  constructor
  · simp [Vfs.addReference, State.entry, hentry]
  · apply hcached.recount hentry
    · rw [hcached.counted id entry hentry, List.count_cons_self]
      omega
    · omega
    · intro other hne
      exact List.count_cons_of_ne (Ne.symm hne)

/-! ### A child comes and goes -/

/-- The state without a child and without its parent's pointer to it. -/
def detached (state : State) (id parent : Nat) (parentEntry : Entry) (name : Name) : State :=
  (state.set parent (parentEntry.setDirent name none)).free id

section Detached

variable {parent other : Nat} {parentEntry found kept : Entry} {name : Name}

theorem detached_self : (detached state id parent parentEntry name).entries id = none :=
  State.free_self

theorem detached_parent (hne : parent ≠ id) :
    (detached state id parent parentEntry name).entries parent =
      some (parentEntry.setDirent name none) :=
  (State.free_of_ne hne).trans State.set_self

theorem detached_of_ne (hid : other ≠ id) (hparent : other ≠ parent) :
    (detached state id parent parentEntry name).entries other = state.entries other :=
  (State.free_of_ne hid).trans (State.set_of_ne hparent)

theorem detached_eq_some :
    (detached state id parent parentEntry name).entries other = some found ↔
      other ≠ id ∧ ((other = parent ∧ found = parentEntry.setDirent name none) ∨
        (other ≠ parent ∧ state.entries other = some found)) := by
  rw [detached, State.free_eq_some, State.set_eq_some]

/-- An entry that stays keeps its place, as its parent stays and keeps its pointer to it. -/
theorem placed_detached (hcached : Cached disc base state held)
    (hentry : state.entries id = some entry) (hparent : entry.parent = some parent)
    (hparentEntry : state.entries parent = some parentEntry)
    (hnone : ∀ name child, (⟨name, some child⟩ : EntryNode) ∉ entry.nodes)
    (hfound : state.entries other = some found) (halike : found.Alike kept) (hother : other ≠ id)
    {grand : Nat} (hgrand : found.parent = some grand) :
    Placed disc (detached state id parent parentEntry entry.parentNode) other kept grand := by
  obtain ⟨-, _, -, -, hparentEntry', hpointer, -⟩ := hcached.placed hentry hparent
  obtain rfl : parentEntry = _ := Option.some.inj (hparentEntry.symm.trans hparentEntry')
  refine (hcached.placed hfound hgrand).carry halike ?_
  intro grandEntry hgrandEntry hnode
  have hgrandId : grand ≠ id := by
    rintro rfl
    obtain rfl : entry = grandEntry := Option.some.inj (hentry.symm.trans hgrandEntry)
    exact hnone _ _ hnode
  by_cases heq : grand = parent
  · subst heq
    obtain rfl : parentEntry = grandEntry := Option.some.inj (hparentEntry.symm.trans hgrandEntry)
    refine ⟨_, detached_parent hgrandId, rfl, Entry.mem_setDirent.mpr (.inl ⟨?_, hnode⟩)⟩
    intro hname
    have hsame := Entry.eq_of_name_eq (hcached.names grand parentEntry hparentEntry) hnode
      hpointer hname
    exact hother (Option.some.inj (EntryNode.mk.inj hsame).2)
  · exact ⟨grandEntry, (detached_of_ne hgrandId heq).trans hgrandEntry, rfl, hnode⟩

/-- The children that are still pointed to are not the one that went. -/
theorem knows_detached (hcached : Cached disc base state held)
    (hentry : state.entries id = some entry) (hparent : entry.parent = some parent)
    (hparentEntry : state.entries parent = some parentEntry)
    (hfound : state.entries other = some found) {child : Nat}
    (hnode : ⟨name, some child⟩ ∈ found.nodes) (hname : other = parent → name ≠ entry.parentNode) :
    Knows (detached state id parent parentEntry entry.parentNode) other name child := by
  refine (hcached.knows hfound hnode).carry ?_
  intro childEntry hchild hchildParent hchildName
  have hchildId : child ≠ id := by
    rintro rfl
    obtain rfl : entry = childEntry := Option.some.inj (hentry.symm.trans hchild)
    obtain rfl : parent = other := Option.some.inj (hparent.symm.trans hchildParent)
    exact hname rfl hchildName.symm
  rw [detached, State.free_of_ne hchildId]
  exact State.set_alike hparentEntry (parentEntry.alike_setDirent _ _) hchild

end Detached

/-- A child that nothing refers to but one handle goes. The reference that it was
for its parent is left over. -/
theorem detach (hcached : Cached disc base state held) (hentry : state.entries id = some entry)
    {parent : Nat} {parentEntry : Entry} (hparent : entry.parent = some parent)
    (hparentEntry : state.entries parent = some parentEntry) (hlast : entry.references = 1)
    (hmem : id ∈ held) :
    Cached disc base (detached state id parent parentEntry entry.parentNode)
      (parent :: held.erase id) := by
  obtain ⟨hlt, _, page, child, hparentEntry', hpointer, _⟩ := hcached.placed hentry hparent
  obtain rfl : parentEntry = _ := Option.some.inj (hparentEntry.symm.trans hparentEntry')
  have hcount := hcached.counted id entry hentry
  have hone := List.count_pos_iff.mpr hmem
  have hnone : ∀ name child, (⟨name, some child⟩ : EntryNode) ∉ entry.nodes := by
    intro name child hnode
    have : 0 < entry.cached := List.countP_pos_iff.mpr ⟨_, hnode, rfl⟩
    omega
  constructor
  case fresh =>
    intro other hle
    have hle : state.next ≤ other := hle
    have := hcached.id_lt hentry
    rw [detached_of_ne (by omega) (by omega)]
    exact hcached.fresh other hle
  case names =>
    intro other found hfound
    rcases detached_eq_some.mp hfound with ⟨_, ⟨rfl, rfl⟩ | ⟨_, hfound⟩⟩
    · rw [Entry.setDirent_names]
      exact hcached.names other parentEntry hparentEntry
    · exact hcached.names other found hfound
  case listed =>
    intro other found hfound
    rcases detached_eq_some.mp hfound with ⟨_, ⟨rfl, rfl⟩ | ⟨_, hfound⟩⟩
    · rw [Entry.setDirent_names]
      exact hcached.listed other parentEntry hparentEntry
    · exact hcached.listed other found hfound
  case above =>
    intro other found grand hfound hgrand
    rcases detached_eq_some.mp hfound with ⟨hid, ⟨rfl, rfl⟩ | ⟨_, hfound⟩⟩
    · exact hcached.placed_detached hentry hparent hparentEntry hnone hparentEntry
        (parentEntry.alike_setDirent _ _) hid hgrand
    · exact hcached.placed_detached hentry hparent hparentEntry hnone hfound (.refl found) hid hgrand
  case below =>
    intro other found name child hfound hnode
    rcases detached_eq_some.mp hfound with ⟨_, ⟨rfl, rfl⟩ | ⟨hne, hfound⟩⟩
    · rcases Entry.mem_setDirent.mp hnode with ⟨hname, hnode⟩ | ⟨heq, _⟩
      · exact hcached.knows_detached hentry hparent hparentEntry hparentEntry hnode fun _ => hname
      · simp at heq
    · exact hcached.knows_detached hentry hparent hparentEntry hfound hnode
        fun heq => absurd heq hne
  case counted =>
    intro other found hfound
    rcases detached_eq_some.mp hfound with ⟨hid, ⟨rfl, rfl⟩ | ⟨hne, hfound⟩⟩
    · have hbefore := hcached.counted other parentEntry hparentEntry
      have hfewer := Entry.setDirent_cached (hcached.names other parentEntry hparentEntry)
        hpointer none
      simp only [Option.isSome_some, if_true, Option.isSome_none, Bool.false_eq_true, if_false,
        Nat.add_zero] at hfewer
      rw [List.count_cons_self, List.count_erase_of_ne hid]
      show parentEntry.references = _
      omega
    · rw [List.count_cons_of_ne (Ne.symm hne), List.count_erase_of_ne hid]
      exact hcached.counted other found hfound
  case positive =>
    intro other found hfound
    rcases detached_eq_some.mp hfound with ⟨_, ⟨rfl, rfl⟩ | ⟨_, hfound⟩⟩
    · exact hcached.positive other parentEntry hparentEntry
    · exact hcached.positive other found hfound
  case held =>
    intro other hother
    by_cases heq : other = parent
    · rw [heq, detached_parent (Nat.ne_of_lt hlt)]
      rfl
    · have hother : other ∈ held.erase id := by
        rcases List.mem_cons.mp hother with h | h
        · exact absurd h heq
        · exact h
      have hid : other ≠ id := by
        rintro rfl
        have hleft := List.count_pos_iff.mpr hother
        rw [List.count_erase_self] at hleft
        omega
      rw [detached_of_ne hid heq]
      exact hcached.held other (List.mem_of_mem_erase hother)
  case rooted =>
    intro other found hfound
    rcases detached_eq_some.mp hfound with ⟨_, ⟨rfl, rfl⟩ | ⟨_, hfound⟩⟩
    · exact hcached.rooted other parentEntry hparentEntry
    · exact hcached.rooted other found hfound
  case freshBase => exact hcached.freshBase

/-- The state with a new child. -/
def attached (state : State) (parent : Nat) (parentEntry child : Entry) : State where
  entries := Function.update (Function.update state.entries parent
    (some { parentEntry.setDirent child.parentNode (some state.next) with
      references := parentEntry.references + 1 })) state.next (some child)
  next := state.next + 1

section Attached

variable {parent other : Nat} {parentEntry child found kept : Entry}

/-- The parent of a new child. -/
def adopting (parentEntry : Entry) (name : Name) (child : Nat) : Entry :=
  { parentEntry.setDirent name (some child) with references := parentEntry.references + 1 }

theorem alike_adopting (parentEntry : Entry) (name : Name) (child : Nat) :
    parentEntry.Alike (adopting parentEntry name child) := ⟨rfl, rfl, rfl, rfl⟩

theorem adopting_names (parentEntry : Entry) (name : Name) (child : Nat) :
    (adopting parentEntry name child).names = parentEntry.names :=
  Entry.setDirent_names (some child)

theorem attached_self : (attached state parent parentEntry child).entries state.next = some child := by
  simp [attached]

theorem attached_parent (hlt : parent < state.next) :
    (attached state parent parentEntry child).entries parent =
      some (adopting parentEntry child.parentNode state.next) := by
  simp [attached, adopting, Nat.ne_of_lt hlt]

theorem attached_of_ne (hnew : other ≠ state.next) (hparent : other ≠ parent) :
    (attached state parent parentEntry child).entries other = state.entries other := by
  simp [attached, hnew, hparent]

theorem attached_eq_some (hlt : parent < state.next) :
    (attached state parent parentEntry child).entries other = some found ↔
      (other = state.next ∧ found = child) ∨ (other ≠ state.next ∧
        ((other = parent ∧ found = adopting parentEntry child.parentNode state.next) ∨
          (other ≠ parent ∧ state.entries other = some found))) := by
  by_cases hnew : other = state.next
  · subst hnew
    rw [attached_self, Option.some.injEq]
    simp [eq_comm]
  · by_cases heq : other = parent
    · subst heq
      rw [attached_parent hlt, Option.some.injEq]
      simp [hnew, eq_comm]
    · rw [attached_of_ne hnew heq]
      simp [hnew, heq]

/-- The entries that were there stay alike. -/
theorem attached_alike (hfresh : ∀ id, state.next ≤ id → state.entries id = none)
    (hparentEntry : state.entries parent = some parentEntry) (child : Entry)
    (hfound : state.entries other = some found) :
    ∃ kept, (attached state parent parentEntry child).entries other = some kept ∧
      found.Alike kept := by
  have hlt : other < state.next := by
    by_contra hle
    simp [hfresh other (by omega)] at hfound
  by_cases heq : other = parent
  · subst heq
    obtain rfl : parentEntry = found := Option.some.inj (hparentEntry.symm.trans hfound)
    exact ⟨_, attached_parent hlt, alike_adopting parentEntry _ _⟩
  · exact ⟨found, (attached_of_ne (Nat.ne_of_lt hlt) heq).trans hfound, .refl found⟩

/-- An entry that was there keeps its place. -/
theorem placed_attached (hcached : Cached disc base state held)
    (hparentEntry : state.entries parent = some parentEntry)
    (hfind : parentEntry.find? child.parentNode = some ⟨child.parentNode, none⟩)
    (hfound : state.entries other = some found) (halike : found.Alike kept)
    {grand : Nat} (hgrand : found.parent = some grand) :
    Placed disc (attached state parent parentEntry child) other kept grand := by
  refine (hcached.placed hfound hgrand).carry halike ?_
  intro grandEntry hgrandEntry hnode
  have hlt := hcached.id_lt hgrandEntry
  by_cases heq : grand = parent
  · subst heq
    obtain rfl : parentEntry = grandEntry := Option.some.inj (hparentEntry.symm.trans hgrandEntry)
    refine ⟨_, attached_parent hlt, rfl, Entry.mem_setDirent.mpr (.inl ⟨?_, hnode⟩)⟩
    intro hname
    -- the name of the new child has no pointer yet
    have hsame := Entry.eq_of_name_eq (hcached.names grand parentEntry hparentEntry) hnode
      (Entry.mem_of_find? hfind).1 hname
    simp at hsame
  · exact ⟨grandEntry, (attached_of_ne (Nat.ne_of_lt hlt) heq).trans hgrandEntry, rfl, hnode⟩

theorem knows_attached (hcached : Cached disc base state held)
    (hparentEntry : state.entries parent = some parentEntry)
    (hfound : state.entries other = some found) {name : Name} {grandchild : Nat}
    (hnode : ⟨name, some grandchild⟩ ∈ found.nodes) :
    Knows (attached state parent parentEntry child) other name grandchild := by
  refine (hcached.knows hfound hnode).carry ?_
  intro childEntry hchild _ _
  exact attached_alike hcached.fresh hparentEntry child hchild

/-- A new child has one handle, and is one more reference to its parent. -/
theorem attach (hcached : Cached disc base state held) {page childPage : Nat}
    (hparentEntry : state.entries parent = some parentEntry)
    (hfind : parentEntry.find? child.parentNode = some ⟨child.parentNode, none⟩)
    (hpage : parentEntry.node = some page)
    (hdisc : (disc page).find? (fun listed => listed.name == child.parentNode) =
      some ⟨child.parentNode, child.type, childPage⟩)
    (hchildPage : child.node = some childPage) (hparent : child.parent = some parent)
    (hreferences : child.references = 1) (hnodup : child.names.Nodup)
    (hnames : ∀ name, name ∈ child.names ↔ name ∈ (disc childPage).map Listed.name)
    (huncached : ∀ node ∈ child.nodes, node.dirent = none) :
    Cached disc base (attached state parent parentEntry child) (state.next :: held) := by
  have hlt := hcached.id_lt hparentEntry
  have hbase := hcached.freshBase state.next (Nat.le_refl _)
  obtain ⟨hpointer, _⟩ := Entry.mem_of_find? hfind
  constructor
  case fresh =>
    intro other hle
    have hle : state.next + 1 ≤ other := hle
    rw [attached_of_ne (by omega) (by omega)]
    exact hcached.fresh other (by omega)
  case names =>
    intro other found hfound
    rcases (attached_eq_some hlt).mp hfound with ⟨rfl, rfl⟩ | ⟨_, ⟨rfl, rfl⟩ | ⟨_, hfound⟩⟩
    · exact hnodup
    · rw [adopting_names]
      exact hcached.names other parentEntry hparentEntry
    · exact hcached.names other found hfound
  case listed =>
    intro other found hfound
    rcases (attached_eq_some hlt).mp hfound with ⟨rfl, rfl⟩ | ⟨_, ⟨rfl, rfl⟩ | ⟨_, hfound⟩⟩
    · exact ⟨childPage, hchildPage, hnames⟩
    · rw [adopting_names]
      exact hcached.listed other parentEntry hparentEntry
    · exact hcached.listed other found hfound
  case above =>
    intro other found grand hfound hgrand
    rcases (attached_eq_some hlt).mp hfound with ⟨rfl, rfl⟩ | ⟨_, ⟨rfl, rfl⟩ | ⟨_, hfound⟩⟩
    · obtain rfl : parent = grand := Option.some.inj (hparent.symm.trans hgrand)
      refine ⟨hlt, _, page, childPage, attached_parent hlt, ?_, hpage, hchildPage, hdisc⟩
      exact Entry.mem_setDirent.mpr (.inr ⟨rfl, List.mem_map_of_mem hpointer⟩)
    · exact hcached.placed_attached hparentEntry hfind hparentEntry
        (alike_adopting parentEntry _ _) hgrand
    · exact hcached.placed_attached hparentEntry hfind hfound (.refl found) hgrand
  case below =>
    intro other found name grandchild hfound hnode
    rcases (attached_eq_some hlt).mp hfound with ⟨rfl, rfl⟩ | ⟨_, ⟨rfl, rfl⟩ | ⟨_, hfound⟩⟩
    · simpa using huncached _ hnode
    · rcases Entry.mem_setDirent.mp hnode with ⟨_, hnode⟩ | ⟨heq, _⟩
      · exact hcached.knows_attached hparentEntry hparentEntry hnode
      · obtain ⟨rfl, hgrandchild⟩ : name = child.parentNode ∧ some grandchild = some state.next :=
          EntryNode.mk.inj heq
        cases hgrandchild
        exact ⟨child, attached_self, hparent, rfl⟩
    · exact hcached.knows_attached hparentEntry hfound hnode
  case counted =>
    intro other found hfound
    rcases (attached_eq_some hlt).mp hfound with ⟨rfl, rfl⟩ | ⟨hid, ⟨rfl, rfl⟩ | ⟨_, hfound⟩⟩
    · have hnot : state.next ∉ held := by
        intro hmem
        have := hcached.held _ hmem
        rw [hcached.fresh _ (Nat.le_refl _)] at this
        simp at this
      have hcachedNone : found.cached = 0 := by
        rw [Entry.cached, List.countP_eq_zero]
        intro node hnode
        simp [huncached node hnode]
      rw [hreferences, hcachedNone, hbase, List.count_cons_self,
        List.count_eq_zero_of_not_mem hnot]
    · have hbefore := hcached.counted other parentEntry hparentEntry
      have hmore := Entry.setDirent_cached (hcached.names other parentEntry hparentEntry)
        hpointer (some state.next)
      simp only [Option.isSome_some, if_true, Option.isSome_none, Bool.false_eq_true, if_false,
        Nat.add_zero] at hmore
      rw [List.count_cons_of_ne (Ne.symm hid)]
      show parentEntry.references + 1 = held.count other +
        (parentEntry.setDirent child.parentNode (some state.next)).cached + base other
      omega
    · rw [List.count_cons_of_ne (Ne.symm hid)]
      exact hcached.counted other found hfound
  case positive =>
    intro other found hfound
    rcases (attached_eq_some hlt).mp hfound with ⟨rfl, rfl⟩ | ⟨_, ⟨rfl, rfl⟩ | ⟨_, hfound⟩⟩
    · omega
    · exact Nat.succ_pos _
    · exact hcached.positive other found hfound
  case held =>
    intro other hother
    rcases List.mem_cons.mp hother with rfl | hother
    · rw [attached_self]
      rfl
    · obtain ⟨before, hbefore⟩ := Option.isSome_iff_exists.mp (hcached.held other hother)
      obtain ⟨kept, hkept, _⟩ := attached_alike hcached.fresh hparentEntry child hbefore
      rw [hkept]
      rfl
  case rooted =>
    intro other found hfound
    rcases (attached_eq_some hlt).mp hfound with ⟨rfl, rfl⟩ | ⟨_, ⟨rfl, rfl⟩ | ⟨_, hfound⟩⟩
    · simp [hparent, hbase]
    · exact hcached.rooted other parentEntry hparentEntry
    · exact hcached.rooted other found hfound
  case freshBase =>
    intro other hle
    exact hcached.freshBase other (Nat.le_of_succ_le hle)

end Attached

end Cached

/-! ## What does not change -/

/-- Entries that live on stay where they are, entries that went do not come back, and
roots do not go. -/
structure Evolves (state next : State) : Prop where
  grows : state.next ≤ next.next
  same : ∀ id before after, state.entries id = some before → next.entries id = some after →
    after.parent = before.parent ∧ after.parentNode = before.parentNode ∧
      after.type = before.type ∧ after.node = before.node
  gone : ∀ id, id < state.next → state.entries id = none → next.entries id = none
  roots : ∀ id entry, state.entries id = some entry → entry.parent = none →
    (next.entries id).isSome

namespace Evolves

variable {state middle next : State}

theorem refl (state : State) : Evolves state state := by
  refine ⟨Nat.le_refl _, ?_, fun _ _ hnone => hnone, fun _ _ hentry _ => by rw [hentry]; rfl⟩
  intro id before after hbefore hafter
  obtain rfl : before = after := Option.some.inj (hbefore.symm.trans hafter)
  exact ⟨rfl, rfl, rfl, rfl⟩

theorem trans (hfresh : ∀ id, state.next ≤ id → state.entries id = none)
    (hfirst : Evolves state middle) (hsecond : Evolves middle next) : Evolves state next := by
  refine ⟨Nat.le_trans hfirst.grows hsecond.grows, ?_, ?_, ?_⟩
  · intro id before after hbefore hafter
    have hlt : id < state.next := by
      by_contra hle
      simp [hfresh id (by omega)] at hbefore
    cases hmiddle : middle.entries id with
    | none =>
        have := hsecond.gone id (Nat.lt_of_lt_of_le hlt hfirst.grows) hmiddle
        simp [this] at hafter
    | some between =>
        obtain ⟨hparent, hname, htype, hnode⟩ := hfirst.same id before between hbefore hmiddle
        obtain ⟨hparent', hname', htype', hnode'⟩ :=
          hsecond.same id between after hmiddle hafter
        exact ⟨hparent'.trans hparent, hname'.trans hname, htype'.trans htype,
          hnode'.trans hnode⟩
  · intro id hlt hnone
    exact hsecond.gone id (Nat.lt_of_lt_of_le hlt hfirst.grows) (hfirst.gone id hlt hnone)
  · intro id before hbefore hparent
    obtain ⟨between, hmiddle⟩ :=
      Option.isSome_iff_exists.mp (hfirst.roots id before hbefore hparent)
    obtain ⟨hsame, _⟩ := hfirst.same id before between hbefore hmiddle
    exact hsecond.roots id between hmiddle (hsame.trans hparent)

/-- A change of one live entry that leaves it where it is. -/
theorem set {id : Nat} {before after : Entry} (hbefore : state.entries id = some before)
    (hparent : after.parent = before.parent) (hname : after.parentNode = before.parentNode)
    (htype : after.type = before.type) (hnode : after.node = before.node) :
    Evolves state (state.set id after) := by
  have halike : before.Alike after := ⟨hparent, hname, htype, hnode⟩
  refine ⟨Nat.le_refl _, ?_, ?_, ?_⟩
  · intro other old new hold hnew
    obtain ⟨kept, hkept, hsame⟩ := State.set_alike hbefore halike hold
    obtain rfl : kept = new := Option.some.inj (hkept.symm.trans hnew)
    exact ⟨hsame.parent, hsame.parentNode, hsame.type, hsame.node⟩
  · intro other _ hnone
    have hne : other ≠ id := by
      rintro rfl
      simp [hbefore] at hnone
    rw [State.set_of_ne hne, hnone]
  · intro other old hold _
    obtain ⟨kept, hkept, _⟩ := State.set_alike hbefore halike hold
    rw [hkept]
    rfl

/-- One reference more. -/
theorem raise {id : Nat} {entry : Entry} (hentry : state.entries id = some entry) :
    Evolves state (state.set id { entry with references := entry.references + 1 }) :=
  set hentry rfl rfl rfl rfl

/-- An entry with a parent goes. -/
theorem free {id : Nat} {before : Entry} (hbefore : state.entries id = some before)
    (hparent : before.parent ≠ none) : Evolves state (state.free id) := by
  refine ⟨Nat.le_refl _, ?_, ?_, ?_⟩
  · intro other old new hold hnew
    obtain ⟨_, hsame⟩ := State.free_eq_some.mp hnew
    obtain rfl : old = new := Option.some.inj (hold.symm.trans hsame)
    exact ⟨rfl, rfl, rfl, rfl⟩
  · intro other _ hnone
    by_cases heq : other = id
    · rw [heq, State.free_self]
    · rw [State.free_of_ne heq, hnone]
  · intro other old hold hroot
    have hne : other ≠ id := by
      rintro rfl
      obtain rfl : before = old := Option.some.inj (hbefore.symm.trans hold)
      exact hparent hroot
    rw [State.free_of_ne hne, hold]
    rfl

/-- A new child. -/
theorem attach (hfresh : ∀ id, state.next ≤ id → state.entries id = none) {parent : Nat}
    {parentEntry child : Entry} (hparentEntry : state.entries parent = some parentEntry) :
    Evolves state (Cached.attached state parent parentEntry child) := by
  refine ⟨Nat.le_succ _, ?_, ?_, ?_⟩
  · intro id before after hbefore hafter
    obtain ⟨kept, hkept, hsame⟩ := Cached.attached_alike hfresh hparentEntry child hbefore
    obtain rfl : kept = after := Option.some.inj (hkept.symm.trans hafter)
    exact ⟨hsame.parent, hsame.parentNode, hsame.type, hsame.node⟩
  · intro id hbound hnone
    have hne : id ≠ parent := by
      rintro rfl
      simp [hparentEntry] at hnone
    rw [Cached.attached_of_ne (Nat.ne_of_lt hbound) hne, hnone]
  · intro id before hbefore _
    obtain ⟨kept, hkept, _⟩ := Cached.attached_alike hfresh hparentEntry child hbefore
    rw [hkept]
    rfl

end Evolves

end PKernel.Vfs
