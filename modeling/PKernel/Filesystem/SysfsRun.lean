import PKernel.Filesystem.Sysfs
import Mathlib.Data.List.Pairwise

/-! # Orders of registration

Files are registered and trees mounted in any order. Each tree has the files that are registered,
whether it was mounted before them or after.
-/

namespace PKernel.Sysfs

open Library.TableTree
open Vfs (FileType Name Path Stop)
open Function (update update_of_ne update_self)

/-! ## Runs -/

section Runs

variable {Op : Type}

/-- After `init`. -/
def booted : State Op where
  files := ⟨fun _ => none, 0⟩
  nodes _ := ⟨0, none, none⟩
  entries := []
  mounts := []

inductive Call (Op : Type) where
  | addEntry (entry : Registered Op)
  /-- A mount on the directory with a name in an entry, or on the root. -/
  | mount (parent : Option Nat) (parentNode : Name)

def Call.perform (state : State Op) : Call Op → Except Stop (State Op)
  | addEntry entry => do
      let (_, state) ← sysfsAddEntry state entry
      return state
  | mount parent parentNode => mountSysfs state parent parentNode

/-- A run of calls. -/
def run : List (Call Op) → State Op → Except Stop (State Op)
  | [], state => .ok state
  | call :: rest, state => do run rest (← call.perform state)

/-- Each mount of a run is on a directory outside of the trees, or on the root. -/
def MountsOutside : List (Call Op) → State Op → Prop
  | [], _ => True
  | call :: rest, state =>
      (∀ id parentNode, call = .mount (some id) parentNode → state.files.entries id = none) ∧
        ∀ next, call.perform state = .ok next → MountsOutside rest next

/-- What a run registers. -/
def registered (calls : List (Call Op)) : List (Registered Op) :=
  calls.filterMap fun
    | .addEntry entry => some entry
    | .mount _ _ => none

/-- How many trees a run mounts. -/
def mountCount (calls : List (Call Op)) : Nat :=
  calls.countP fun
    | .addEntry _ => false
    | .mount _ _ => true

end Runs

/-- Neither of two paths is a prefix of the other, component by component. -/
def Apart {Op : Type} (first second : Registered Op) : Prop :=
  ¬Vfs.components first.path <+: Vfs.components second.path ∧
    ¬Vfs.components second.path <+: Vfs.components first.path

instance {Op : Type} : DecidableRel (@Apart Op) := fun _ _ =>
  inferInstanceAs (Decidable (¬_ ∧ ¬_))

instance {Op : Type} : Std.Symm (@Apart Op) := ⟨fun _ _ happart => ⟨happart.2, happart.1⟩⟩

/-- A tree has exactly the registered paths for files, each with its id and operations, and below
the mount point the directories that they imply. No directory lists any other name. -/
structure Shows {Op : Type} (state : State Op) (mountPoint : Nat)
    (entries : List (Registered Op)) : Prop where
  file : ∀ registered ∈ entries, ∃ id entry place,
    descend (childOf state.files) mountPoint (Vfs.components registered.path) = some id ∧
      state.files.entries id = some entry ∧ entry.type = .regular ∧ entry.node = some place ∧
      state.nodes place = registered.node
  directory : ∀ registered ∈ entries, ∀ names, names <+: Vfs.components registered.path →
    names ≠ Vfs.components registered.path → ∃ id entry,
      descend (childOf state.files) mountPoint names = some id ∧
        state.files.entries id = some entry ∧ entry.type = .directory
  only : ∀ names id entry, descend (childOf state.files) mountPoint names = some id →
    state.files.entries id = some entry →
      entry.type = .regular ∧ (∃ registered ∈ entries, Vfs.components registered.path = names) ∨
      entry.type = .directory ∧ (names = [] ∨ ∃ registered ∈ entries,
        names <+: Vfs.components registered.path ∧ names ≠ Vfs.components registered.path)
  listed : ∀ names id entry, descend (childOf state.files) mountPoint names = some id →
    state.files.entries id = some entry → ∀ node ∈ entry.nodes,
      (descend (childOf state.files) mountPoint (names ++ [node.name])).isSome

/-! ## One tree -/

/-- The files of a tree, and what its entries are there for. -/
structure Bears {Op : Type} (state : State Op) (mountPoint : Nat)
    (entries : List (Registered Op)) : Prop where
  file : ∀ registered ∈ entries, ∃ id entry,
    descend (childOf state.files) mountPoint (Vfs.components registered.path) = some id ∧
      state.files.entries id = some entry ∧ entry.type = .regular ∧
      state.nodes id = registered.node
  only : ∀ names id entry, descend (childOf state.files) mountPoint names = some id →
    state.files.entries id = some entry →
      entry.type = .regular ∧ (∃ registered ∈ entries, Vfs.components registered.path = names) ∨
      entry.type = .directory ∧ (names = [] ∨ ∃ registered ∈ entries,
        names <+: Vfs.components registered.path ∧ names ≠ Vfs.components registered.path)

section Tree

variable {Op : Type} {state after : State Op} {mountPoint other : Nat}
  {entries more : List (Registered Op)} {entry : Registered Op}

theorem Bears.congr (hbears : Bears state mountPoint entries)
    (hsame : ∀ registered, registered ∈ more ↔ registered ∈ entries) :
    Bears state mountPoint more := by
  refine ⟨fun registered hmem => hbears.file registered ((hsame registered).mp hmem),
    fun names id found hid hfound => ?_⟩
  simpa only [hsame] using hbears.only names id found hid hfound

/-- A tree depends on its names, the types of its entries and what the nodes are set to. -/
theorem Bears.frame (hbears : Bears state mountPoint entries)
    (hchild : childOf after.files = childOf state.files) (hnodes : after.nodes = state.nodes)
    (htypes : ∀ names id, descend (childOf state.files) mountPoint names = some id →
      (after.files.entries id).map Vfs.Entry.type = (state.files.entries id).map Vfs.Entry.type) :
    Bears after mountPoint entries := by
  refine ⟨fun registered hregistered => ?_, fun names id found hid hfound => ?_⟩
  · obtain ⟨id, found, hid, hfound, htype, hnode⟩ := hbears.file registered hregistered
    have hsame := htypes _ id hid
    rw [hfound, Option.map_some] at hsame
    obtain ⟨later, hlater, hlaterType⟩ := Option.map_eq_some_iff.mp hsame
    exact ⟨id, later, by rw [hchild, hid], hlater, hlaterType.trans htype, by rw [hnodes, hnode]⟩
  · rw [hchild] at hid
    have hsame := htypes _ id hid
    rw [hfound, Option.map_some] at hsame
    obtain ⟨before, hbefore, hbeforeType⟩ := Option.map_eq_some_iff.mp hsame.symm
    rw [← hbeforeType]
    exact hbears.only names id before hid hbefore

/-- A path that is apart from those of the files is free. -/
theorem Bears.free (hbears : Bears state mountPoint entries)
    (hgrown : Grown state.files state.mounts) (hmem : mountPoint ∈ state.mounts)
    (hapart : ∀ registered ∈ entries, Apart entry registered) :
    descend (childOf state.files) mountPoint (Vfs.components entry.path) = none := by
  cases hid : descend (childOf state.files) mountPoint (Vfs.components entry.path) with
  | none => rfl
  | some id =>
      obtain ⟨found, hfound⟩ := Option.isSome_iff_exists.mp (hgrown.live hmem hid)
      rcases hbears.only _ id found hid hfound with
        ⟨-, registered, hregistered, hsame⟩ | ⟨-, hempty | ⟨registered, hregistered, hinside, -⟩⟩
      · exact absurd (hsame ▸ List.prefix_refl _) (hapart registered hregistered).1
      · exact absurd hempty (List.splitOn_ne_nil Vfs.slash entry.path.chars)
      · exact absurd hinside (hapart registered hregistered).1

/-- What a consistent tree with its files shows. -/
theorem Bears.shows (hbears : Bears state mountPoint entries)
    (hgrown : Grown state.files state.mounts) (hmem : mountPoint ∈ state.mounts)
    (hapart : entries.Pairwise Apart) :
    Shows state mountPoint entries := by
  refine ⟨fun registered hregistered => ?_, fun registered hregistered names hinside hne => ?_,
    hbears.only, fun names id found hid hfound node hnode => ?_⟩
  · obtain ⟨id, found, hid, hfound, htype, hnode⟩ := hbears.file registered hregistered
    exact ⟨id, found, id, hid, hfound, htype, hgrown.node id found hfound, hnode⟩
  · obtain ⟨id, -, hid, -⟩ := hbears.file registered hregistered
    obtain ⟨rest, hrest⟩ := hinside
    rw [← hrest, descend_append] at hid
    obtain ⟨reached, hreached, -⟩ := Option.bind_eq_some_iff.mp hid
    obtain ⟨found, hfound⟩ := Option.isSome_iff_exists.mp (hgrown.live hmem hreached)
    rcases hbears.only names reached found hreached hfound with
      ⟨-, other, hother, hsame⟩ | ⟨htype, -⟩
    · have hdistinct : other ≠ registered := by
        rintro rfl
        exact hne hsame.symm
      refine absurd ⟨rest, ?_⟩ (hapart.forall hother hregistered hdistinct).1
      rw [hsame, hrest]
    · exact ⟨reached, found, hreached, hfound, htype⟩
  · obtain ⟨child, hchild, -⟩ := hgrown.linked id found hfound node hnode
    have hfind : (found.find? node.name).isSome :=
      List.find?_isSome.mpr ⟨node, hnode, by simp⟩
    obtain ⟨first, hfirst⟩ := Option.isSome_iff_exists.mp hfind
    obtain ⟨child, hchild, -⟩ :=
      hgrown.linked id found hfound first (List.mem_of_find?_eq_some hfirst)
    rw [descend_concat, hid, Option.bind_some, childOf, hfound, Option.bind_some, hfirst,
      Option.bind_some, hchild]
    rfl

/-- A new file in one tree: with its directories it comes to the others there, and the other trees
stay as they are. -/
theorem plant (hgrown : Grown state.files state.mounts) (hmem : mountPoint ∈ state.mounts)
    (hrelative : Relative entry.path)
    (hfree : descend (childOf state.files) mountPoint (Vfs.components entry.path) = none) :
    ∃ dirent files after,
      fsMakePathDirs state.files mountPoint entry.path .regular = .ok (some dirent, files) ∧
      setNode { state with files } dirent entry.node = .ok after ∧
      Grown after.files after.mounts ∧ after.entries = state.entries ∧
      after.mounts = state.mounts ∧ state.files.next ≤ after.files.next ∧
      (∀ entries, Bears state mountPoint entries → Bears after mountPoint (entry :: entries)) ∧
      ∀ other ∈ state.mounts, other ≠ mountPoint → ∀ entries,
        Bears state other entries → Bears after other entries := by
  obtain ⟨dirent, files, hmake, hfiles, hpath, hle, hextends⟩ :=
    fsMakePathDirs_returns hgrown hmem hrelative hfree
  obtain ⟨new, hnew⟩ := Option.isSome_iff_exists.mp (hfiles.live hmem hpath)
  have hset : setNode { state with files } dirent entry.node =
      .ok ⟨files, update state.nodes dirent entry.node, state.entries, state.mounts⟩ := by
    simp only [setNode, Vfs.State.entry_eq_ok.mpr hnew, ok_bind, hfiles.node dirent new hnew,
      pure_eq_ok]
  -- a file that was there has its type and its node
  have hkept : ∀ other ∈ state.mounts, ∀ entries, Bears state other entries →
      ∀ registered ∈ entries, ∃ id found,
        descend (childOf files) other (Vfs.components registered.path) = some id ∧
          files.entries id = some found ∧ found.type = .regular ∧
          update state.nodes dirent entry.node id = registered.node := by
    intro other hother entries hbears registered hregistered
    obtain ⟨id, found, hid, hfound, htype, hnode⟩ := hbears.file registered hregistered
    obtain ⟨later, hlater, hsame⟩ := hextends.kept id found hfound
    have hne : id ≠ dirent := by
      rintro rfl
      rw [hgrown.fresh id hle] at hfound
      cases hfound
    exact ⟨id, later, hextends.old other hother _ id hid, hlater, hsame.trans htype, by
      rw [update_of_ne hne, hnode]⟩
  -- and so has an entry on an old path
  have hold : ∀ other ∈ state.mounts, ∀ names id found,
      descend (childOf state.files) other names = some id → files.entries id = some found →
      ∃ before, state.files.entries id = some before ∧ found.type = before.type := by
    intro other hother names id found hid hfound
    obtain ⟨before, hbefore⟩ := Option.isSome_iff_exists.mp (hgrown.live hother hid)
    obtain ⟨later, hlater, hsame⟩ := hextends.kept id before hbefore
    cases hlater.symm.trans hfound
    exact ⟨before, hbefore, hsame⟩
  refine ⟨dirent, files, _, hmake, hset, hfiles, rfl, rfl, hextends.grows, fun entries hbears => ?_,
    fun other hother hne entries hbears => ?_⟩
  · refine ⟨fun registered hregistered => ?_, fun names id found hid hfound => ?_⟩
    · rcases List.mem_cons.mp hregistered with rfl | hregistered
      · have htype : new.type = .regular := by
          rcases hextends.new mountPoint hmem _ dirent hpath with
            hbefore | ⟨-, -, found, hfound, ⟨-, hregular⟩ | ⟨-, hne, -⟩⟩
          · rw [hfree] at hbefore
            cases hbefore
          · rwa [Option.some.inj (hnew.symm.trans hfound)]
          · exact absurd rfl hne
        exact ⟨dirent, new, hpath, hnew, htype, update_self ..⟩
      · exact hkept mountPoint hmem entries hbears registered hregistered
    · rcases hextends.new mountPoint hmem names id hid with hbefore | ⟨-, -, found', hfound', hpart⟩
      · obtain ⟨before, hlooked, hsame⟩ := hold mountPoint hmem names id found hbefore hfound
        rw [hsame]
        rcases hbears.only names id before hbefore hlooked with
          ⟨htype, registered, hregistered, hpath⟩ | ⟨htype, hempty | ⟨registered, hregistered, hpath⟩⟩
        · exact .inl ⟨htype, registered, List.mem_cons_of_mem entry hregistered, hpath⟩
        · exact .inr ⟨htype, .inl hempty⟩
        · exact .inr ⟨htype, .inr ⟨registered, List.mem_cons_of_mem entry hregistered, hpath⟩⟩
      · cases hfound.symm.trans hfound'
        rcases hpart with ⟨rfl, htype⟩ | ⟨hinside, hne, htype⟩
        · exact .inl ⟨htype, entry, List.mem_cons_self, rfl⟩
        · exact .inr ⟨htype, .inr ⟨entry, List.mem_cons_self, hinside, hne⟩⟩
  · refine ⟨hkept other hother entries hbears, fun names id found hid hfound => ?_⟩
    rcases hextends.new other hother names id hid with hbefore | ⟨hsame, -⟩
    · obtain ⟨before, hlooked, hsame⟩ := hold other hother names id found hbefore hfound
      rw [hsame]
      exact hbears.only names id before hbefore hlooked
    · exact absurd hsame hne

end Tree

/-! ## The loops -/

section Loops

variable {Op : Type} {state : State Op} {mountPoint : Nat} {entries : List (Registered Op)}
  {entry : Registered Op}

/-- Along the mounts each tree gets the file. -/
theorem addToMounts_returns {todo : List Nat} (hgrown : Grown state.files state.mounts)
    (hrelative : Relative entry.path) (hapart : ∀ registered ∈ entries, Apart entry registered)
    (hnodup : todo.Nodup) (htodo : ∀ other ∈ todo, other ∈ state.mounts)
    (hbears : ∀ other ∈ todo, Bears state other entries)
    (hdone : ∀ other ∈ state.mounts, other ∉ todo → Bears state other (entry :: entries)) :
    ∃ after, addToMounts entry todo state = .ok (true, after) ∧ Grown after.files after.mounts ∧
      after.entries = state.entries ∧ after.mounts = state.mounts ∧
      state.files.next ≤ after.files.next ∧
      ∀ other ∈ state.mounts, Bears after other (entry :: entries) := by
  induction todo generalizing state with
  | nil =>
      exact ⟨state, rfl, hgrown, rfl, rfl, Nat.le_refl _,
        fun other hother => hdone other hother List.not_mem_nil⟩
  | cons mountPoint rest ih =>
      have hmem := htodo mountPoint List.mem_cons_self
      have hhere := hbears mountPoint List.mem_cons_self
      obtain ⟨hnotMem, hrestNodup⟩ := List.nodup_cons.mp hnodup
      obtain ⟨dirent, files, planted, hmake, hset, hplanted, hentries, hmounts, hle, hnew, hothers⟩ :=
        plant hgrown hmem hrelative (hhere.free hgrown hmem hapart)
      have hrest : ∀ other ∈ rest, other ∈ planted.mounts := by
        intro other hother
        rw [hmounts]
        exact htodo other (List.mem_cons_of_mem _ hother)
      have hbears' : ∀ other ∈ rest, Bears planted other entries := by
        intro other hother
        have hne : other ≠ mountPoint := by
          rintro rfl
          exact hnotMem hother
        exact hothers other (htodo other (List.mem_cons_of_mem _ hother)) hne entries
          (hbears other (List.mem_cons_of_mem _ hother))
      have hdone' : ∀ other ∈ planted.mounts, other ∉ rest →
          Bears planted other (entry :: entries) := by
        intro other hother hnot
        rw [hmounts] at hother
        by_cases hsame : other = mountPoint
        · exact hsame ▸ hnew entries hhere
        · exact hothers other hother hsame _ (hdone other hother (by simp [hsame, hnot]))
      obtain ⟨after, hloop, hafter, hentries', hmounts', hle', hall⟩ :=
        ih hplanted hrestNodup hrest hbears' hdone'
      refine ⟨after, ?_, hafter, hentries'.trans hentries, hmounts'.trans hmounts, hle.trans hle', ?_⟩
      · rw [addToMounts, hmake]
        simp only [ok_bind, hset]
        exact hloop
      · rwa [hmounts] at hall

/-- Along the list a new tree gets the files. -/
theorem replayEntries_returns {todo : List (Registered Op)}
    (hgrown : Grown state.files state.mounts) (hmem : mountPoint ∈ state.mounts)
    (hrelative : ∀ registered ∈ todo, Relative registered.path)
    (hapart : (todo ++ entries).Pairwise Apart) (hbears : Bears state mountPoint entries)
    {all : List (Registered Op)}
    (hothers : ∀ other ∈ state.mounts, other ≠ mountPoint → Bears state other all) :
    ∃ after, replayEntries mountPoint todo state = .ok after ∧ Grown after.files after.mounts ∧
      after.entries = state.entries ∧ after.mounts = state.mounts ∧
      state.files.next ≤ after.files.next ∧ Bears after mountPoint (todo ++ entries) ∧
      ∀ other ∈ state.mounts, other ≠ mountPoint → Bears after other all := by
  induction todo generalizing state entries with
  | nil => exact ⟨state, rfl, hgrown, rfl, rfl, Nat.le_refl _, hbears, hothers⟩
  | cons entry rest ih =>
      rw [List.cons_append, List.pairwise_cons] at hapart
      obtain ⟨dirent, files, planted, hmake, hset, hplanted, hentries, hmounts, hle, hnew, hkept⟩ :=
        plant hgrown hmem (hrelative entry List.mem_cons_self)
          (hbears.free hgrown hmem fun registered hregistered =>
            hapart.1 registered (List.mem_append_right rest hregistered))
      have hperm : (rest ++ entry :: entries).Perm (entry :: (rest ++ entries)) :=
        List.perm_middle
      have hapart' : (rest ++ entry :: entries).Pairwise Apart :=
        (hperm.pairwise_iff fun happart => ⟨happart.2, happart.1⟩).mpr (List.pairwise_cons.mpr hapart)
      obtain ⟨after, hloop, hafter, hentries', hmounts', hle', hall, hothers'⟩ :=
        ih hplanted (hmounts ▸ hmem)
          (fun registered hregistered => hrelative registered (List.mem_cons_of_mem _ hregistered))
          hapart' (hnew entries hbears) (by
            rw [hmounts]
            exact fun other hother hne => hkept other hother hne all (hothers other hother hne))
      refine ⟨after, ?_, hafter, hentries'.trans hentries, hmounts'.trans hmounts, hle.trans hle',
        hall.congr fun registered => (hperm.mem_iff).symm, hmounts ▸ hothers'⟩
      rw [replayEntries, hmake]
      simp only [ok_bind, hset]
      exact hloop

end Loops

/-! ## Calls -/

/-- What holds between the calls: the trees are consistent and each has the registered files. -/
structure Kept {Op : Type} (state : State Op) : Prop where
  grown : Grown state.files state.mounts
  nodup : state.mounts.Nodup
  bears : ∀ mountPoint ∈ state.mounts, Bears state mountPoint state.entries

section Calls

variable {Op : Type} {state : State Op} {entry : Registered Op}

theorem Kept.addEntry (hkept : Kept state) (hrelative : Relative entry.path)
    (hapart : ∀ registered ∈ state.entries, Apart entry registered) :
    ∃ after, sysfsAddEntry state entry = .ok (true, after) ∧ Kept after ∧
      after.entries = entry :: state.entries ∧ after.mounts = state.mounts := by
  -- the list has no part in what the trees have
  have hgrown : Grown { state with entries := entry :: state.entries }.files
      { state with entries := entry :: state.entries }.mounts := hkept.grown
  have hbears : ∀ other ∈ state.mounts,
      Bears { state with entries := entry :: state.entries } other state.entries :=
    fun other hother => (hkept.bears other hother).frame rfl rfl fun _ _ _ => rfl
  obtain ⟨after, hloop, hafter, hentries, hmounts, -, hall⟩ :=
    addToMounts_returns hgrown hrelative hapart hkept.nodup (fun _ hother => hother) hbears
      fun other hother hnot => absurd hother hnot
  refine ⟨after, hloop, ⟨hafter, hmounts ▸ hkept.nodup, fun other hother => ?_⟩, hentries, hmounts⟩
  rw [hentries]
  exact hall other (hmounts ▸ hother)

/-- The entries with a new mount point, and its number. -/
theorem directoryEntryCreate_eq (files : Vfs.State) (parent : Option Nat) (parentNode : Name) :
    Vfs.directoryEntryCreate files .directory parent parentNode (some files.next) =
      (files.next, ⟨update files.entries files.next
        (some ⟨parent, parentNode, 1, .directory, some files.next, []⟩), files.next + 1⟩) := rfl

section Create

variable {files created : Vfs.State} {roots : List Nat} {entry : Vfs.Entry}

theorem childOf_create (hgrown : Grown files roots) (hnodes : entry.nodes = [])
    (hcreated : created.entries = update files.entries files.next (some entry)) :
    childOf created = childOf files := by
  funext id name
  unfold childOf
  by_cases hid : id = files.next
  · rw [hid, hcreated, update_self, hgrown.fresh _ (Nat.le_refl _), Option.bind_some,
      Vfs.Entry.find?, hnodes]
    rfl
  · rw [hcreated, update_of_ne hid]

/-- A new entry is a tree of its own. -/
theorem Grown.create (hgrown : Grown files roots) (hnodes : entry.nodes = [])
    (hreferences : 0 < entry.references) (hnode : entry.node = some files.next)
    (hcreated : created.entries = update files.entries files.next (some entry))
    (hnext : created.next = files.next + 1) : Grown created (roots ++ [files.next]) := by
  have hcases : ∀ id found, created.entries id = some found →
      id = files.next ∧ found = entry ∨ files.entries id = some found := by
    intro id found hfound
    rw [hcreated] at hfound
    by_cases hid : id = files.next
    · rw [hid, update_self] at hfound
      exact .inl ⟨hid, (Option.some.inj hfound).symm⟩
    · rw [update_of_ne hid] at hfound
      exact .inr hfound
  have hlive : ∀ id, (files.entries id).isSome → (created.entries id).isSome := by
    intro id hid
    have hne : id ≠ files.next := by
      rintro rfl
      rw [hgrown.fresh _ (Nat.le_refl _)] at hid
      cases hid
    rwa [hcreated, update_of_ne hne]
  refine ⟨fun id hle => ?_, fun root hroot => ?_, fun id found hfound node hmem => ?_,
    fun id found hfound => ?_, fun id found hfound => ?_, fun depth => ?_⟩
  · rw [hcreated, update_of_ne (by omega)]
    exact hgrown.fresh id (by omega)
  · rcases List.mem_append.mp hroot with hroot | hroot
    · exact hlive root (hgrown.rooted root hroot)
    · rw [List.mem_singleton.mp hroot, hcreated, update_self]
      rfl
  · rcases hcases id found hfound with ⟨-, rfl⟩ | hold
    · rw [hnodes] at hmem
      cases hmem
    · obtain ⟨child, hchild, hchildLive⟩ := hgrown.linked id found hold node hmem
      exact ⟨child, hchild, hlive child hchildLive⟩
  · rcases hcases id found hfound with ⟨-, rfl⟩ | hold
    · exact hreferences
    · exact hgrown.positive id found hold
  · rcases hcases id found hfound with ⟨rfl, rfl⟩ | hold
    · exact hnode
    · exact hgrown.node id found hold
  · have hroots : {root | root ∈ roots ++ [files.next]} = insert files.next {root | root ∈ roots} := by
      ext root
      simp [or_comm]
    rw [hroots, childOf_create hgrown hnodes hcreated]
    exact (hgrown.forest depth).insert_root (fun _ hroot _ _ => hgrown.descend_ne_next hroot)
      fun name => by rw [childOf, hgrown.fresh _ (Nat.le_refl _)]; rfl

end Create

/-- A mount gives the new tree the files that are registered. -/
theorem Kept.mount (hkept : Kept state) (hrelative : ∀ registered ∈ state.entries,
    Relative registered.path) (hapart : state.entries.Pairwise Apart) (parent : Option Nat)
    (parentNode : Name) (houtside : ∀ id, parent = some id → state.files.entries id = none) :
    ∃ after, mountSysfs state parent parentNode = .ok after ∧ Kept after ∧
      after.entries = state.entries ∧ after.mounts = state.mounts ++ [state.files.next] := by
  obtain ⟨entry, hentry⟩ : ∃ entry : Vfs.Entry,
      entry = ⟨parent, parentNode, 1, .directory, some state.files.next, []⟩ := ⟨_, rfl⟩
  obtain ⟨created, hcreated⟩ : ∃ created : Vfs.State, created =
      ⟨update state.files.entries state.files.next (some entry), state.files.next + 1⟩ :=
    ⟨_, rfl⟩
  have hentries : created.entries =
      update state.files.entries state.files.next (some entry) := by rw [hcreated]
  have hnodes : entry.nodes = [] := by rw [hentry]
  have hsame : childOf created = childOf state.files :=
    childOf_create hkept.grown hnodes hentries
  have hgrown : Grown created (state.mounts ++ [state.files.next]) :=
    hkept.grown.create hnodes (by rw [hentry]; exact Nat.one_pos) (by rw [hentry]) hentries
      (by rw [hcreated])
  have hcover : coverDirectory state.files parent parentNode state.files.next =
      .ok state.files := by
    unfold coverDirectory
    cases hparent : parent with
    | none => rfl
    | some id => simp only [houtside id hparent]
  have hnew : state.files.next ∉ state.mounts := by
    intro hmem
    have hlive := hkept.grown.rooted _ hmem
    rw [hkept.grown.fresh _ (Nat.le_refl _)] at hlive
    cases hlive
  have hmem : state.files.next ∈ state.mounts ++ [state.files.next] := by simp
  obtain ⟨mounted, hmounted⟩ : ∃ mounted : State Op, mounted =
      { state with files := created, mounts := state.mounts ++ [state.files.next] } := ⟨_, rfl⟩
  -- the new tree is empty, and the others are as they were
  have hempty : Bears mounted state.files.next [] := by
    refine ⟨fun registered hregistered => absurd hregistered List.not_mem_nil,
      fun names id found hid hfound => ?_⟩
    rw [hmounted] at hid hfound
    rw [hsame] at hid
    cases names with
    | nil =>
        cases hid
        rw [hentries, update_self] at hfound
        exact .inr ⟨by rw [← Option.some.inj hfound, hentry], .inl rfl⟩
    | cons name rest =>
        rw [descend, childOf, hkept.grown.fresh _ (Nat.le_refl _)] at hid
        cases hid
  have hothers : ∀ other ∈ mounted.mounts, other ≠ state.files.next →
      Bears mounted other state.entries := by
    intro other hother hne
    have hmount : other ∈ state.mounts := by
      rw [hmounted] at hother
      simpa [hne] using hother
    rw [hmounted]
    refine (hkept.bears other hmount).frame hsame rfl fun names id hid => ?_
    have hid : id ≠ state.files.next := by
      rintro rfl
      exact hkept.grown.descend_ne_next hmount hid
    rw [hentries, update_of_ne hid]
  obtain ⟨after, hloop, hafter, hentries', hmounts, -, hhere, hrest⟩ :=
    @replayEntries_returns _ mounted state.files.next [] state.entries
      (by rw [hmounted]; exact hgrown) (by rw [hmounted]; exact hmem) hrelative
      (by rwa [List.append_nil]) hempty state.entries hothers
  rw [List.append_nil] at hhere
  obtain ⟨root, hroot⟩ := Option.isSome_iff_exists.mp (hafter.rooted state.files.next (by
    rw [hmounts, hmounted]
    exact hmem))
  have hcounted := hafter.recount hroot (Nat.succ_pos root.references)
  rw [hmounted] at hmounts hentries' hrest
  refine ⟨⟨after.files.set state.files.next { root with references := root.references + 1 },
      after.nodes, after.entries, after.mounts⟩,
    ?_, ⟨hcounted, ?_, fun other hother => ?_⟩, hentries', hmounts⟩
  · rw [hmounted] at hloop
    replace hloop : sysfsMount { state with files := created } state.files.next = .ok after := hloop
    rw [mountSysfs, hcover, ok_bind, directoryEntryCreate_eq, ← hentry, ← hcreated]
    simp only [hloop, ok_bind, Vfs.addReference, Vfs.State.entry_eq_ok.mpr hroot, pure_eq_ok]
  · rw [hmounts]
    exact List.nodup_append.mpr ⟨hkept.nodup, List.nodup_singleton _, fun first hfirst last hlast =>
      by rw [List.mem_singleton.mp hlast]; rintro rfl; exact hnew hfirst⟩
  · have hbears : Bears after other state.entries := by
      by_cases heq : other = state.files.next
      · exact heq ▸ hhere
      · exact hrest other (hmounts ▸ hother) heq
    exact hentries' ▸ hbears.frame (childOf_recount hroot) rfl fun _ id _ => by
      by_cases heq : id = state.files.next
      · rw [heq, hroot]
        simp [Vfs.State.set]
      · simp [Vfs.State.set, heq]

end Calls

/-! ## All orders -/

section Orders

variable {Op : Type}

/-- What is left of a run keeps the files that were registered before it and brings the others. -/
theorem Kept.run {calls : List (Call Op)} {state : State Op} (hkept : Kept state)
    (hrelative : ∀ entry ∈ registered calls ++ state.entries, Relative entry.path)
    (hapart : (registered calls ++ state.entries).Pairwise Apart)
    (houtside : MountsOutside calls state) :
    ∃ after, Sysfs.run calls state = .ok after ∧ Kept after ∧
      (∀ entry, entry ∈ after.entries ↔ entry ∈ registered calls ++ state.entries) ∧
      after.entries.Pairwise Apart ∧
      after.mounts.length = state.mounts.length + mountCount calls := by
  induction calls generalizing state with
  | nil => exact ⟨state, rfl, hkept, fun _ => Iff.rfl, hapart, rfl⟩
  | cons call rest ih =>
      cases call with
      | addEntry entry =>
          have hall : registered (.addEntry entry :: rest) ++ state.entries =
              entry :: (registered rest ++ state.entries) := rfl
          rw [hall] at hrelative hapart ⊢
          obtain ⟨hentry, -⟩ := List.pairwise_cons.mp hapart
          obtain ⟨added, hadd, hadded, hentries, hmounts⟩ :=
            hkept.addEntry (hrelative entry List.mem_cons_self) fun other hother =>
              hentry other (List.mem_append_right _ hother)
          have hperm : (registered rest ++ entry :: state.entries).Perm
              (entry :: (registered rest ++ state.entries)) := List.perm_middle
          rw [← hentries] at hperm
          obtain ⟨after, hrun, hafter, hmem, hafterApart, hlength⟩ :=
            ih hadded (fun other hother => hrelative other (hperm.mem_iff.mp hother))
              ((hperm.pairwise_iff fun happart => ⟨happart.2, happart.1⟩).mpr hapart)
              (houtside.2 added (by rw [Call.perform, hadd]; rfl))
          refine ⟨after, ?_, hafter, fun other => (hmem other).trans hperm.mem_iff, hafterApart, ?_⟩
          · rw [Sysfs.run, Call.perform, hadd]
            exact hrun
          · rw [hlength, hmounts]
            rfl
      | mount parent parentNode =>
          obtain ⟨mounted, hmount, hmounted, hentries, hmounts⟩ :=
            hkept.mount (fun other hother => hrelative other (List.mem_append_right _ hother))
              (List.pairwise_append.mp hapart).2.1 parent parentNode
              fun id hid => houtside.1 id parentNode (hid ▸ rfl)
          obtain ⟨after, hrun, hafter, hmem, hafterApart, hlength⟩ :=
            ih hmounted (by rw [hentries]; exact hrelative) (by rw [hentries]; exact hapart)
              (houtside.2 mounted hmount)
          refine ⟨after, ?_, hafter, fun other => ?_, hafterApart, ?_⟩
          · rw [Sysfs.run, Call.perform, hmount]
            exact hrun
          · rw [hmem, hentries]
            rfl
          · have hcount : mountCount (.mount parent parentNode :: rest) = mountCount rest + 1 :=
              List.countP_cons_of_pos rfl
            rw [hlength, hmounts, hcount, List.length_append, List.length_singleton]
            omega

end Orders

end PKernel.Sysfs
