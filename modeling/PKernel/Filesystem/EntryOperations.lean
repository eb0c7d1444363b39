import PKernel.Filesystem.EntryCounts

/-! # Entering and releasing directory entries

One lemma for every call of `directory_entry.c`: what it returns in a consistent
cache, and the handles that it leaves.
-/

namespace PKernel.Vfs

variable {disc : Disc} {base : Nat → Nat} {state : State} {held : List Nat} {id parent : Nat}
  {entry parentEntry : Entry}

/-! ## Releasing -/

namespace State

theorem entry_eq_ok : state.entry id = .ok entry ↔ state.entries id = some entry := by
  unfold State.entry
  cases state.entries id with
  | none => simp
  | some found => simp

theorem entry_free_of_ne {other : Nat} (hne : other ≠ id) :
    (state.free id).entry other = state.entry other := by
  simp [State.entry, State.free, hne]

theorem set_free_of_ne {other : Nat} (hne : other ≠ id) :
    (state.free id).set other entry = (state.set other entry).free id := by
  simp only [State.set, State.free]
  rw [Function.update_comm hne]

theorem free_comm {other : Nat} (hne : other ≠ id) :
    (state.free id).free other = (state.free other).free id := by
  simp only [State.free]
  rw [Function.update_comm hne]

theorem free_set : (state.set id entry).free id = state.free id := by
  simp [State.set, State.free]

theorem set_free : (state.free id).set id entry = state.set id entry := by
  simp [State.set, State.free]

end State

/-- Parents are older than their children. -/
def Ordered (state : State) : Prop :=
  ∀ id entry parent, state.entries id = some entry → entry.parent = some parent → parent < id

theorem Cached.ordered (hcached : Cached disc base state held) : Ordered state :=
  fun id entry parent hentry hparent => (hcached.above id entry parent hentry hparent).1

theorem Ordered.set (hordered : Ordered state) (hentry : state.entries id = some entry)
    {after : Entry} (hparent : after.parent = entry.parent) : Ordered (state.set id after) := by
  intro other found above hfound habove
  by_cases heq : other = id
  · subst heq
    obtain rfl : after = found := by simpa [State.set] using hfound
    exact hordered other entry above hentry (hparent ▸ habove)
  · exact hordered other found above (by simpa [State.set, heq] using hfound) habove

/-- Releasing an entry does not look at entries that are younger. -/
theorem releaseWith_free {fuel : Nat} (hordered : Ordered state) {other : Nat}
    (hlt : other < id) :
    releaseWith fuel (state.free id) other =
      (releaseWith fuel state other).map fun after => after.free id := by
  induction fuel generalizing state other with
  | zero => rfl
  | succ fuel ih =>
      have hne : other ≠ id := Nat.ne_of_lt hlt
      simp only [releaseWith, State.entry_free_of_ne hne]
      cases hentry : state.entry other with
      | error stop => simp [Except.map]
      | ok entry =>
          simp only [ok_bind, State.set_free_of_ne hne]
          have hentries := State.entry_eq_ok.mp hentry
          have hordered' : Ordered
              (state.set other { entry with references := entry.references - 1 }) :=
            hordered.set hentries rfl
          generalize state.set other { entry with references := entry.references - 1 } = lowered
            at hordered' ⊢
          by_cases hzero : entry.references = 0
          · simp [hzero, Except.map]
          rw [if_neg hzero, if_neg hzero]
          by_cases hlast : entry.references - 1 = 0
          · rw [if_pos hlast, if_pos hlast]
            cases hparent : entry.parent with
            | none =>
                by_cases hnode : entry.node = none
                · simp [hnode, Except.map]
                · simp [hnode, Except.map, State.free_comm hne]
            | some above =>
                have habove : above < other := hordered other entry above hentries hparent
                have hneAbove : above ≠ id := Nat.ne_of_lt (Nat.lt_trans habove hlt)
                simp only [State.entry_free_of_ne hneAbove]
                cases haboveEntry : lowered.entry above with
                | error stop => simp [Except.map]
                | ok aboveEntry =>
                    simp only [ok_bind, State.set_free_of_ne hneAbove]
                    have hcleared : Ordered
                        (lowered.set above (aboveEntry.setDirent entry.parentNode none)) :=
                      hordered'.set (State.entry_eq_ok.mp haboveEntry) rfl
                    rw [ih hcleared (Nat.lt_trans habove hlt)]
                    cases releaseWith fuel _ above with
                    | error stop => simp [Except.map]
                    | ok after =>
                        by_cases hnode : entry.node = none
                        · simp [hnode, Except.map]
                        · simp [hnode, Except.map, State.free_comm hne]
          · rw [if_neg hlast, if_neg hlast]
            simp [Except.map]

/-- One of several references goes. -/
theorem releaseWith_of_more {fuel : Nat} (hentry : state.entries id = some entry)
    (hmore : 1 < entry.references) :
    releaseWith (fuel + 1) state id =
      .ok (state.set id { entry with references := entry.references - 1 }) := by
  have hzero : entry.references ≠ 0 := by omega
  have hlast : entry.references - 1 ≠ 0 := by omega
  simp only [releaseWith, State.entry_eq_ok.mpr hentry, ok_bind]
  rw [if_neg hzero, if_neg hlast]
  rfl

/-- The last reference goes, and the entry with it, after the reference that it was
for its parent. -/
theorem releaseWith_of_last {fuel : Nat} (hordered : Ordered state)
    (hentry : state.entries id = some entry) (hlast : entry.references = 1)
    (hnode : entry.node ≠ none) (hparent : entry.parent = some parent)
    (hparentEntry : state.entries parent = some parentEntry) :
    releaseWith (fuel + 1) state id =
      releaseWith fuel (Cached.detached state id parent parentEntry entry.parentNode) parent := by
  have hlt : parent < id := hordered id entry parent hentry hparent
  have hne : parent ≠ id := Nat.ne_of_lt hlt
  have hlook : (state.set id { entry with references := entry.references - 1 }).entry parent =
      .ok parentEntry := by
    rw [State.entry_eq_ok]
    simpa [State.set, hne] using hparentEntry
  have hcleared : Ordered ((state.set id { entry with references := entry.references - 1 }).set
      parent (parentEntry.setDirent entry.parentNode none)) := by
    have hlowered : Ordered (state.set id { entry with references := entry.references - 1 }) :=
      hordered.set hentry rfl
    exact hlowered.set (State.entry_eq_ok.mp hlook) rfl
  have hdetached : ((state.set id { entry with references := entry.references - 1 }).set parent
      (parentEntry.setDirent entry.parentNode none)).free id =
        Cached.detached state id parent parentEntry entry.parentNode := by
    rw [← State.set_free_of_ne hne, State.free_set, State.set_free_of_ne hne, Cached.detached]
  rw [← hdetached, releaseWith_free hcleared hlt]
  have hzero : entry.references ≠ 0 := by omega
  have hgone : entry.references - 1 = 0 := by omega
  simp only [releaseWith, State.entry_eq_ok.mpr hentry, ok_bind]
  rw [if_neg hzero, if_pos hgone]
  simp only [hparent] at hlook ⊢
  simp only [hlook, ok_bind]
  cases releaseWith fuel _ parent with
  | error stop => simp [Except.map]
  | ok after => simp [Except.map, hnode]

/-- Releasing a handle: it is gone, with the entries that nothing else refers to. -/
theorem Cached.releaseWith {fuel : Nat} (hcached : Cached disc base state held) (hmem : id ∈ held)
    (hfuel : id < fuel) :
    ∃ after, releaseWith fuel state id = .ok after ∧ Cached disc base after (held.erase id) ∧
      Evolves state after := by
  -- along the chain of parents, which get older
  induction fuel generalizing state held id with
  | zero => omega
  | succ fuel ih =>
      obtain ⟨entry, hentry⟩ := Option.isSome_iff_exists.mp (hcached.held id hmem)
      have hcount := hcached.counted id entry hentry
      have hone := List.count_pos_iff.mpr hmem
      by_cases hmore : 1 < entry.references
      · refine ⟨_, releaseWith_of_more hentry hmore, ?_, Evolves.set hentry rfl rfl rfl rfl⟩
        apply hcached.recount hentry
        · rw [List.count_erase_self]
          omega
        · omega
        · intro other hne
          exact List.count_erase_of_ne hne
      · have hlast : entry.references = 1 := by omega
        have hbase : ¬ 0 < base id := by omega
        obtain ⟨parent, hparent⟩ : ∃ parent, entry.parent = some parent :=
          Option.ne_none_iff_exists'.mp fun hnone =>
            hbase ((hcached.rooted id entry hentry).mp hnone)
        obtain ⟨hlt, parentEntry, page, child, hparentEntry, hpointer, hpage, hchild, _⟩ :=
          hcached.above id entry parent hentry hparent
        rw [releaseWith_of_last hcached.ordered hentry hlast (by simp [hchild]) hparent
          hparentEntry]
        have hdetached := hcached.detach hentry hparent hparentEntry hlast hmem
        obtain ⟨after, hafter, hcachedAfter, hevolves⟩ :=
          ih hdetached List.mem_cons_self (by omega)
        rw [List.erase_cons_head] at hcachedAfter
        refine ⟨after, hafter, hcachedAfter, Evolves.trans hcached.fresh ?_ hevolves⟩
        have hcleared : Evolves state
            (state.set parent (parentEntry.setDirent entry.parentNode none)) :=
          Evolves.set hparentEntry rfl rfl rfl rfl
        have hleft : (state.set parent (parentEntry.setDirent entry.parentNode none)).entries id =
            some entry := by
          simpa [State.set, Nat.ne_of_gt hlt] using hentry
        exact Evolves.trans hcached.fresh hcleared (Evolves.free hleft (by simp [hparent]))

/-- `fs_directory_entry_release` of a handle. -/
theorem Cached.release (hcached : Cached disc base state held) (hmem : id ∈ held) :
    ∃ after, directoryEntryRelease state id = .ok after ∧
      Cached disc base after (held.erase id) ∧ Evolves state after := by
  obtain ⟨entry, hentry⟩ := Option.isSome_iff_exists.mp (hcached.held id hmem)
  exact hcached.releaseWith hmem (Nat.lt_succ_of_lt (hcached.id_lt hentry))

/-! ## Entering -/

/-- The list that `list` makes out of the names on disc. -/
def listNodes (listing : List Listed) (nodes : List EntryNode) : List EntryNode :=
  listing.foldl (fun nodes listed => (addNode nodes listed.name).getD nodes) nodes

theorem listNodes_spec (listing : List Listed) {nodes : List EntryNode}
    (hnodup : (nodes.map EntryNode.name).Nodup) (huncached : ∀ node ∈ nodes, node.dirent = none) :
    ((listNodes listing nodes).map EntryNode.name).Nodup ∧
    (∀ node ∈ listNodes listing nodes, node.dirent = none) ∧
    ∀ name, name ∈ (listNodes listing nodes).map EntryNode.name ↔
      name ∈ nodes.map EntryNode.name ∨ name ∈ listing.map Listed.name := by
  induction listing generalizing nodes with
  | nil => exact ⟨hnodup, huncached, by simp [listNodes]⟩
  | cons listed rest ih =>
      have hcons : listNodes (listed :: rest) nodes =
          listNodes rest ((addNode nodes listed.name).getD nodes) := rfl
      rw [hcons]
      by_cases htaken : nodes.any fun node => node.name == listed.name
      · -- a name that is there already is not added again
        rw [show (addNode nodes listed.name).getD nodes = nodes by simp [addNode, htaken]]
        obtain ⟨hnodup', huncached', hnames⟩ := ih hnodup huncached
        refine ⟨hnodup', huncached', ?_⟩
        intro name
        have hthere : listed.name ∈ nodes.map EntryNode.name := by
          simpa [List.any_eq_true] using htaken
        rw [hnames, List.map_cons, List.mem_cons]
        grind
      · rw [show (addNode nodes listed.name).getD nodes = ⟨listed.name, none⟩ :: nodes by
          simp only [addNode, htaken]
          rfl]
        have hnew : listed.name ∉ nodes.map EntryNode.name := by
          simpa [List.any_eq_true] using htaken
        obtain ⟨hnodup', huncached', hnames⟩ := @ih (⟨listed.name, none⟩ :: nodes)
          (List.nodup_cons.mpr ⟨hnew, hnodup⟩) (by simpa using huncached)
        refine ⟨hnodup', huncached', ?_⟩
        intro name
        rw [hnames, List.map_cons, List.map_cons, List.mem_cons, List.mem_cons]
        tauto

variable {name : Name} {page childPage : Nat} {type : FileType}

/-- The entry that `lookup` and `list` make for a child. -/
def newChild (disc : Disc) (parent : Nat) (name : Name) (type : FileType) (page : Nat) : Entry :=
  ⟨some parent, name, 1, type, some page, listNodes (disc page) []⟩

theorem Entry.find?_setDirent (hnodup : entry.names.Nodup) (hmem : name ∈ entry.names)
    (dirent : Option Nat) : (entry.setDirent name dirent).find? name = some ⟨name, dirent⟩ := by
  have hnode : ⟨name, dirent⟩ ∈ (entry.setDirent name dirent).nodes :=
    Entry.mem_setDirent.mpr (.inr ⟨rfl, hmem⟩)
  exact Entry.find?_of_mem (by simpa using hnodup) hnode

/-- Entering a node that is not cached. -/
theorem directoryNodeEnter_new (hentry : state.entries id = some entry) (hlt : id < state.next)
    (hnodup : entry.names.Nodup) (hfind : entry.find? name = some ⟨name, none⟩)
    (hpage : entry.node = some page)
    (hdisc : (disc page).find? (fun listed => listed.name == name) =
      some ⟨name, type, childPage⟩) :
    directoryNodeEnter disc state id name = .ok (state.next,
      Cached.attached state id entry (newChild disc id name type childPage)) := by
  have hne : id ≠ state.next := Nat.ne_of_lt hlt
  have hmem : name ∈ entry.names := List.mem_map_of_mem (Entry.mem_of_find? hfind).1
  -- the states between the calls
  obtain ⟨counted, hcounted⟩ : ∃ counted, counted = { entry with
      references := entry.references + 1 } := ⟨_, rfl⟩
  have hpointer : (counted.setDirent name (some state.next)).find? name =
      some ⟨name, some state.next⟩ :=
    Entry.find?_setDirent (by rwa [hcounted]) (by rwa [hcounted]) _
  have hpageCounted : counted.node = some page := by rwa [hcounted]
  have hreference : addReference state id = .ok (state.set id counted) := by
    simp [addReference, State.entry, hentry, hcounted]
  obtain ⟨made, hmade⟩ : ∃ made : State, made = ⟨Function.update (Function.update
      (Function.update state.entries id (some counted)) state.next
        (some ⟨some id, name, 1, type, some childPage, []⟩)) id
          (some (counted.setDirent name (some state.next))), state.next + 1⟩ := ⟨_, rfl⟩
  have hlookup : lookup disc (state.set id counted) id name = .ok made := by
    simp [lookup, State.entry, State.set, hpageCounted, hdisc, directoryEntryCreate, hmade]
  have hparentEntry : made.entry id = .ok (counted.setDirent name (some state.next)) := by
    simp [State.entry, hmade]
  have hlist : list disc made state.next = .ok
      (Cached.attached state id entry (newChild disc id name type childPage)) := by
    have hlook : made.entry state.next = .ok ⟨some id, name, 1, type, some childPage, []⟩ := by
      simp [State.entry, hmade, Ne.symm hne]
    simp only [list, hlook, ok_bind, pure_eq_ok]
    congr 1
    rw [hmade, hcounted, State.set, Cached.attached]
    congr 1
    funext other
    by_cases hnew : other = state.next
    · simp [hnew, newChild, listNodes]
    · by_cases hid : other = id
      · subst hid
        simp only [Function.update_of_ne hnew, Function.update_self]
        rfl
      · simp [hnew, hid]
  simp only [directoryNodeEnter, State.entry_eq_ok.mpr hentry, ok_bind, hfind, hreference, hlookup,
    hparentEntry, hpointer, Option.bind_some, hlist, pure_eq_ok]

/-- Entering a node that is cached. -/
theorem directoryNodeEnter_cached {child : Nat} (hentry : state.entries id = some entry)
    (hfind : entry.find? name = some ⟨name, some child⟩) :
    directoryNodeEnter disc state id name =
      (addReference state child).map fun after => (child, after) := by
  simp only [directoryNodeEnter, State.entry_eq_ok.mpr hentry, ok_bind, hfind]
  cases addReference state child with
  | error stop => simp [Except.map]
  | ok after => simp [Except.map]

/-- Entering a node: a handle on the child, which is what the disc has under the name. -/
theorem Cached.enter (hcached : Cached disc base state held)
    (hentry : state.entries id = some entry) (hmem : name ∈ entry.names) :
    ∃ child childEntry after listed, directoryNodeEnter disc state id name = .ok (child, after) ∧
      Cached disc base after (child :: held) ∧ Evolves state after ∧
      (disc (entry.node.getD 0)).find? (fun listed => listed.name == name) = some listed ∧
      after.entries child = some childEntry ∧ childEntry.parent = some id ∧
      childEntry.parentNode = name ∧ childEntry.type = listed.type ∧
      childEntry.node = some listed.page := by
  have hnodup := hcached.names id entry hentry
  obtain ⟨page, hpage, hnames⟩ := hcached.listed id entry hentry
  obtain ⟨⟨found, dirent⟩, hnode, hfound⟩ := List.mem_map.mp hmem
  obtain rfl : found = name := hfound
  have hfind : entry.find? found = some ⟨found, dirent⟩ := Entry.find?_of_mem hnodup hnode
  rw [hpage, Option.getD_some]
  cases dirent with
  | none =>
      obtain ⟨⟨name, type, childPage⟩, hlisted⟩ : ∃ listed, (disc page).find?
          (fun listed => listed.name == found) = some listed := by
        obtain ⟨listed, hlisted, hname⟩ := List.mem_map.mp ((hnames _).mp hmem)
        exact Option.isSome_iff_exists.mp
          (List.find?_isSome.mpr ⟨listed, hlisted, by simp [hname]⟩)
      obtain rfl : name = found := by simpa using List.find?_some hlisted
      obtain ⟨hchildNodup, huncached, hchildNames⟩ :=
        @listNodes_spec (disc childPage) [] List.nodup_nil (by simp)
      have hnodupChild : (newChild disc id name type childPage).names.Nodup := hchildNodup
      have hattached : Cached disc base (attached state id entry
          (newChild disc id name type childPage)) (state.next :: held) := by
        apply hcached.attach hentry hfind hpage hlisted rfl rfl rfl hnodupChild _ huncached
        intro other
        exact (hchildNames other).trans (by simp)
      refine ⟨state.next, newChild disc id name type childPage, _, _,
        directoryNodeEnter_new hentry (hcached.id_lt hentry) hnodup hfind hpage hlisted, hattached,
        ?_, hlisted, by simp [attached], rfl, rfl, rfl, rfl⟩
      exact Evolves.attach hcached.fresh hentry
  | some child =>
      obtain ⟨childEntry, hchild, hparent, hname⟩ := hcached.below id entry found child hentry hnode
      obtain ⟨_, parentEntry, page', childPage, hparentEntry, _, hpage', hchildPage, hlisted⟩ :=
        hcached.above child childEntry id hchild hparent
      obtain rfl : entry = parentEntry := Option.some.inj (hentry.symm.trans hparentEntry)
      obtain rfl : page = page' := Option.some.inj (hpage.symm.trans hpage')
      obtain ⟨hreference, hafter⟩ := hcached.addReference hchild
      refine ⟨child, { childEntry with references := childEntry.references + 1 }, _, _, ?_, hafter,
        Evolves.set hchild rfl rfl rfl rfl, hname ▸ hlisted, by simp [State.set], hparent, hname,
        rfl, hchildPage⟩
      rw [directoryNodeEnter_cached hentry hfind, hreference]
      rfl

/-! ## Mounting -/

/-- The reference that the root has from `fs_init`. -/
def mountReferences (id : Nat) : Nat := if id = fsRoot then 1 else 0

/-- The cache after mounting. -/
def mounted (disc : Disc) (page : Nat) : State :=
  ⟨Function.update (fun _ => none) fsRoot
    (some ⟨none, [], 2, .directory, some page, listNodes (disc page) []⟩), 1⟩

theorem fsMountRoot_eq (disc : Disc) (page : Nat) :
    fsMountRoot disc page = .ok (mounted disc page) := by
  simp [fsMountRoot, list, State.entry, State.set, mounted, listNodes]

/-- A mounted filesystem has a consistent cache. The reference of `fs_mount_root` is a
handle on the root. -/
theorem mounted_cached (disc : Disc) (page : Nat) :
    Cached disc mountReferences (mounted disc page) [fsRoot] := by
  obtain ⟨hnodup, huncached, hnames⟩ := @listNodes_spec (disc page) [] List.nodup_nil (by simp)
  have hlook : ∀ id entry, (mounted disc page).entries id = some entry → id = fsRoot ∧
      entry = ⟨none, [], 2, .directory, some page, listNodes (disc page) []⟩ := by
    intro id entry hentry
    by_cases hroot : id = fsRoot
    · subst hroot
      exact ⟨rfl, by simpa [mounted] using hentry.symm⟩
    · simp [mounted, hroot] at hentry
  constructor
  case fresh =>
    intro id hle
    have hle : 1 ≤ id := hle
    simp [mounted, fsRoot, show id ≠ 0 by omega]
  case names =>
    intro id entry hentry
    obtain ⟨rfl, rfl⟩ := hlook id entry hentry
    exact hnodup
  case listed =>
    intro id entry hentry
    obtain ⟨rfl, rfl⟩ := hlook id entry hentry
    exact ⟨page, rfl, fun name => (hnames name).trans (by simp)⟩
  case above =>
    intro id entry parent hentry hparent
    obtain ⟨rfl, rfl⟩ := hlook id entry hentry
    simp at hparent
  case below =>
    intro id entry name child hentry hnode
    obtain ⟨rfl, rfl⟩ := hlook id entry hentry
    simpa using huncached _ hnode
  case counted =>
    intro id entry hentry
    obtain ⟨rfl, rfl⟩ := hlook id entry hentry
    have hzero : Entry.cached ⟨none, [], 2, .directory, some page, listNodes (disc page) []⟩ = 0 := by
      rw [Entry.cached, List.countP_eq_zero]
      intro node hnode
      simp [huncached node hnode]
    rw [hzero]
    rfl
  case positive =>
    intro id entry hentry
    obtain ⟨rfl, rfl⟩ := hlook id entry hentry
    exact Nat.succ_pos 1
  case held =>
    intro id hmem
    rw [List.mem_singleton.mp hmem]
    rfl
  case rooted =>
    intro id entry hentry
    obtain ⟨rfl, rfl⟩ := hlook id entry hentry
    simp [mountReferences]
  case freshBase =>
    intro id hle
    have hle : 1 ≤ id := hle
    simp [mountReferences, fsRoot, show id ≠ 0 by omega]

end PKernel.Vfs
