import PKernel.Filesystem.DescriptorArguments
import PKernel.Filesystem.Listings
import PKernel.Filesystem.PathCalls

/-! # Opening files

`syscall_open` and `syscall_openat`: a path is opened, or else made, and the entry gets a slot. What
was done for the path is not undone when a later step fails, and a path that cannot be made is
handed on as a null pointer.
-/

namespace PKernel.Opening

open Vfs
open Arguments (newCapacity slotSize)
open Function (update_of_ne update_self)

/-! ## The calls -/

/-- The errors of the calls. -/
inductive OpenError where
  | fault
  | noEntry
  /-- What `file_init` returned. -/
  | file (errno : Errno)
deriving DecidableEq, Repr

section Calls

variable (bits : Nat) (disc : Disc) (page : Nat)

/-- The entry of a path, which is made if there is none and `O_CREAT` is given, on a page that
`create_file` returns. The string is missing where `process_user_to_kernel` finds none. -/
def openOrMake (state : State) (workingDir : Nat) (create : Bool) :
    Option Path → Except Stop (Except OpenError Nat × State)
  | none => .ok (.error .fault, state)
  | some path => do
      match ← processOpenPath disc state workingDir path with
      | (some node, state) => return (.ok node, state)
      | (none, state) =>
          if create then
            match ← processMakePath disc page .regular state workingDir path with
            | (some node, state) => return (.ok node, state)
            -- `file_init` reads the type through the null pointer
            | (none, _) => throw .badPointer
          else return (.error .noEntry, state)

/-- A descriptor that is not negative, and below the capacity or such that the bytes of the new
capacity do not wrap. -/
def Settable (table : FileTable) (fd : Int) : Prop :=
  0 ≤ fd ∧ (fd < table.length ∨ newCapacity bits fd * slotSize < 2 ^ 64)

instance (table : FileTable) (fd : Int) : Decidable (Settable bits table fd) :=
  inferInstanceAs (Decidable (_ ∧ _))

/-- `file_table_openat` with a signed descriptor. For one that cannot be set it accesses a slot
outside the block of the table. -/
def fileTableOpenat (state : State) (table : FileTable) (fd : Int) (node : Nat)
    (options : Options) : Except Stop (Except Errno Int × FileTable × State) := do
  match ← fileInit state node options with
  | .error error => return (.error error, table, state)
  | .ok file =>
      if Settable bits table fd then
        let (table, state) ← fileTableSet state table fd.toNat file
        return (.ok fd, table, state)
      else throw .badPointer

/-- `file_table_openat` for a descriptor, `file_table_open` for none. -/
def install (state : State) (table : FileTable) (fd : Option Int) (node : Nat)
    (options : Options) : Except Stop (Except Errno Int × FileTable × State) :=
  match fd with
  | some fd => fileTableOpenat bits state table fd node options
  | none => do
      let (result, table) ← fileTableOpen state table node options
      return (result.map Int.ofNat, table, state)

/-- What the two calls have in common. -/
def openCall (state : State) (table : FileTable) (workingDir : Nat) (fd : Option Int)
    (path : Option Path) (options : Options) (create : Bool) :
    Except Stop (Except OpenError Int × FileTable × State) := do
  match ← openOrMake disc page state workingDir create path with
  | (.error error, state) => return (.error error, table, state)
  | (.ok node, state) =>
      let (result, table, state) ← install bits state table fd node options
      return (result.mapError .file, table, state)

end Calls

/-! ## All or nothing -/

/-- Where a walker looks for the last component of a path, and that component. -/
def directoryOf (disc : Disc) : Place → Segments → Option (Place × Name)
  | place, .last name => some (place, name)
  | place, .cons name rest => (place.goto disc name).bind fun next => directoryOf disc next rest
  | _, .overrun => none

/-- A path, but not that of the root, that leads to no entry from a place. -/
structure Nowhere (disc : Disc) (state : State) (workingDir : Nat) (path : Path) (start : Place) :
    Prop where
  walked : path.chars ≠ [slash]
  begins : At state (path.start workingDir) start
  resolves : start.resolve disc (scan path.walked) = .ok none

/-- The entry that a path resolves to, before a call or as the call made it: a file in the directory
that the path has for it. -/
inductive RefersTo (disc : Disc) (state after : State) (workingDir : Nat) (path : Path)
    (create : Bool) (dirent : Nat) : Prop
  | root (hpath : path.chars = [slash]) (hroot : dirent = fsRoot)
  | found {target : Place} (hleads : LeadsTo disc state workingDir path target)
      (hat : At after dirent target)
  | made {start directory : Place} {name : Name} {entry : Entry} {parent : Nat}
      (hcreate : create = true) (hnowhere : Nowhere disc state workingDir path start)
      (hdirectory : directoryOf disc start (scan path.walked) = some (directory, name))
      (hparentType : directory.type state = some .directory)
      (hentry : after.entries dirent = some entry) (htype : entry.type = .regular)
      (hname : entry.parentNode = name) (hparent : entry.parent = some parent)
      (hat : At after parent directory)

/-- The entries are the same ones, at the same places, and list the same names. -/
structure SameTree (state after : State) : Prop where
  live : ∀ id, (after.entries id).isSome ↔ (state.entries id).isSome
  same : ∀ id old new, state.entries id = some old → after.entries id = some new →
    new.parent = old.parent ∧ new.parentNode = old.parentNode ∧ new.type = old.type ∧
      new.node = old.node ∧ ∀ name, name ∈ new.names ↔ name ∈ old.names

/-- A call returns a descriptor whose slot refers to the entry that the path resolves to, or an error
with the table, the counts and the tree as before. -/
def AllOrNothing (disc : Disc) (state : State) (table : FileTable) (workingDir : Nat)
    (path : Option Path) (create : Bool)
    (call : Except Stop (Except OpenError Int × FileTable × State)) : Prop :=
  ∃ result next after, call = .ok (result, next, after) ∧
    match result with
    | .ok fd => 0 ≤ fd ∧ ∃ given file, path = some given ∧ next.file? fd.toNat = some file ∧
        RefersTo disc state after workingDir given create file.dirent
    | .error _ => next = table ∧ Balanced state after ∧ SameTree state after

/-- The slot, if one is asked for, can be set. -/
def CanSet (bits : Nat) (table : FileTable) (fd : Option Int) : Prop :=
  ∀ asked, fd = some asked → Settable bits table asked

/-- The arguments with which nothing is left undone: there is no path; it is that of the root; it
leads to an entry that is no directory to be opened for writing; it leads nowhere and nothing is to
be made; or the file is to be made in a directory that is there. -/
inductive Orderly (bits : Nat) (disc : Disc) (state : State) (table : FileTable) (workingDir : Nat)
    (fd : Option Int) (options : Options) (create : Bool) : Option Path → Prop
  | fault : Orderly bits disc state table workingDir fd options create none
  | root {path : Path} (hpath : path.chars = [slash])
      (hset : options.write = true ∨ CanSet bits table fd) :
      Orderly bits disc state table workingDir fd options create (some path)
  | found {path : Path} {target : Place} (hleads : LeadsTo disc state workingDir path target)
      (htype : ¬(target.type state = some .directory ∧ options.write = true))
      (hset : CanSet bits table fd) :
      Orderly bits disc state table workingDir fd options create (some path)
  | missing {path : Path} {start : Place} (hnowhere : Nowhere disc state workingDir path start)
      (hcreate : create = false) :
      Orderly bits disc state table workingDir fd options create (some path)
  | made {path : Path} {start directory : Place} {name : Name}
      (hnowhere : Nowhere disc state workingDir path start) (hcreate : create = true)
      (hdirectory : directoryOf disc start (scan path.walked) = some (directory, name))
      (htype : directory.type state = some .directory) (hset : CanSet bits table fd) :
      Orderly bits disc state table workingDir fd options create (some path)

/-- The page for a new file lists nothing and is nowhere in the tree. -/
structure FreshPage (disc : Disc) (state : State) (page : Nat) : Prop where
  empty : disc page = []
  unlisted : ∀ dir, ∀ listed ∈ disc dir, listed.page ≠ page
  unused : ∀ id entry, state.entries id = some entry → entry.node ≠ some page

/-! ## The slot -/

section Install

variable {bits : Nat} {disc : Disc} {base : Nat → Nat} {state : State} {held : List Nat}
  {table : FileTable} {fd : Option Int} {node : Nat} {options : Options} {entry : Entry}

/-- A directory is not opened for writing. -/
theorem install_refused (hentry : state.entries node = some entry)
    (hrefused : entry.type = .directory ∧ options.write = true) :
    install bits state table fd node options = .ok (.error .isDir, table, state) := by
  have hinit : fileInit state node options = .ok (.error .isDir) := by
    rw [fileInit, State.entry_eq_ok.mpr hentry, ok_bind, if_pos hrefused]
    rfl
  cases fd with
  | none =>
      rw [install, fileTableOpen, hinit, ok_bind]
      rfl
  | some fd =>
      rw [install, fileTableOpenat, hinit, ok_bind]
      rfl

theorem fileInit_ok (hentry : state.entries node = some entry)
    (hallowed : ¬(entry.type = .directory ∧ options.write = true)) :
    ∃ file, fileInit state node options = .ok (.ok file) ∧ file.dirent = node := by
  rw [fileInit, State.entry_eq_ok.mpr hentry, ok_bind, if_neg hallowed]
  exact ⟨_, rfl, rfl⟩

/-- A slot that cannot be set is not. -/
theorem install_unsettable (hentry : state.entries node = some entry)
    (hallowed : ¬(entry.type = .directory ∧ options.write = true))
    (hset : ¬CanSet bits table fd) :
    install bits state table fd node options = .error .badPointer := by
  obtain ⟨file, hinit, -⟩ := fileInit_ok hentry hallowed
  cases fd with
  | none => exact absurd (fun _ hasked => nomatch hasked) hset
  | some fd =>
      have hnot : ¬Settable bits table fd := by
        intro hsettable
        exact hset fun asked hasked => Option.some.inj hasked ▸ hsettable
      rw [install, fileTableOpenat, hinit, ok_bind]
      simp only [if_neg hnot]
      rfl

/-- What `install` has done when it returns. -/
theorem install_eq_ok {result : Except Errno Int} {next : FileTable} {after : State}
    (hcall : install bits state table fd node options = .ok (result, next, after)) :
    (∃ entry, state.entries node = some entry) ∧
      match result with
      | .ok _ => CanSet bits table fd
      | .error _ => after = state := by
  have hentry : ∃ entry, state.entries node = some entry := by
    by_contra hgone
    have hnone : state.entries node = none := by
      cases hentry : state.entries node with
      | none => rfl
      | some entry => exact absurd ⟨entry, hentry⟩ hgone
    have hinit : fileInit state node options = .error .badPointer := by
      rw [fileInit, State.entry, hnone]
      rfl
    cases fd with
    | none => simp [install, fileTableOpen, hinit] at hcall
    | some fd => simp [install, fileTableOpenat, hinit] at hcall
  obtain ⟨entry, hentry⟩ := hentry
  refine ⟨⟨entry, hentry⟩, ?_⟩
  by_cases hrefused : entry.type = .directory ∧ options.write = true
  · rw [install_refused hentry hrefused] at hcall
    cases hcall
    rfl
  · by_cases hset : CanSet bits table fd
    · cases result with
      | ok given => exact hset
      | error errno =>
          obtain ⟨file, hinit, -⟩ := fileInit_ok hentry hrefused
          cases fd with
          | none =>
              rw [install, fileTableOpen, hinit] at hcall
              cases hcall
          | some asked =>
              rw [install, fileTableOpenat, hinit, ok_bind] at hcall
              simp only [if_pos (hset asked rfl)] at hcall
              obtain ⟨_, -, hcall⟩ := bind_eq_ok.mp hcall
              cases hcall
    · rw [install_unsettable hentry hrefused hset] at hcall
      cases hcall

end Install

/-! ## The tree -/

section Tree

variable {disc : Disc} {base : Nat → Nat} {state after : State} {held : List Nat}
  {workingDir : Nat} {path : Path} {start place : Place}

/-- What a path that is walked along comes to. -/
theorem walked_cases (hready : Ready disc base state held workingDir) (hpath : path.chars ≠ [slash]) :
    (∃ stop, processOpenPath disc state workingDir path = .error stop) ∨
      (∃ target, LeadsTo disc state workingDir path target) ∨
      ∃ start, Nowhere disc state workingDir path start := by
  obtain ⟨entry, hentry⟩ := Option.isSome_iff_exists.mp (hready.start_live path)
  obtain ⟨place, hat⟩ := hready.cached.exists_at hentry
  cases hresolve : place.resolve disc (scan path.walked) with
  | error stop =>
      left
      refine ⟨stop, ?_⟩
      rw [processOpenPath, processPath_eq hpath]
      exact hready.cached.fsOpenPath_overrun hat hresolve
  | ok target =>
      right
      cases target with
      | none => exact .inr ⟨place, hpath, hat, hresolve⟩
      | some target => exact .inl ⟨target, hpath, place, hat, hresolve⟩

theorem Nowhere.not_leadsTo (hnowhere : Nowhere disc state workingDir path start) {target : Place} :
    ¬LeadsTo disc state workingDir path target := by
  rintro ⟨-, other, hat, hresolve⟩
  obtain rfl := hnowhere.begins.unique hat
  rw [hnowhere.resolves] at hresolve
  cases hresolve

theorem Nowhere.unique {other : Place} (hnowhere : Nowhere disc state workingDir path start)
    (hother : Nowhere disc state workingDir path other) : start = other :=
  hnowhere.begins.unique hother.begins

/-- A path that leads nowhere is not opened, and leaves nothing behind. -/
theorem Nowhere.openPath (hnowhere : Nowhere disc state workingDir path start)
    (hready : Ready disc base state held workingDir) :
    ∃ after, processOpenPath disc state workingDir path = .ok (none, after) ∧
      Cached disc base after held ∧ Evolves state after := by
  obtain ⟨after, hresult, hafter, hevolves⟩ :=
    hready.cached.fsOpenPath hnowhere.begins hnowhere.resolves
  refine ⟨after, ?_, hafter, hevolves⟩
  rw [processOpenPath, processPath_eq hnowhere.walked, hresult]

end Tree

/-! ## Making -/

section Make

variable {disc : Disc} {base : Nat → Nat} {state after : State} {held : List Nat}
  {workingDir curNode page node id : Nat} {path : Path} {start place directory : Place}
  {segments : Segments} {last : Component} {name : Name} {entry : Entry}

/-- A name that leads nowhere from a directory is not in its entry. -/
theorem name_free (hcached : Cached disc base state held) (hat : At state id place)
    (hentry : state.entries id = some entry) (hgoto : place.goto disc name = none) :
    name ∉ entry.names := by
  obtain ⟨entry', hentry', hpage⟩ := hat.exists_entry
  cases hentry.symm.trans hentry'
  obtain ⟨page, hpage', hnames⟩ := hcached.listed id entry hentry
  cases hpage.symm.trans hpage'
  unfold Place.goto at hgoto
  split at hgoto
  next => cases hgoto
  next =>
    split at hgoto
    next => cases hgoto
    next =>
      rw [Place.child, Option.map_eq_none_iff, List.find?_eq_none] at hgoto
      intro hmem
      obtain ⟨listed, hlisted, hname⟩ := List.mem_map.mp ((hnames name).mp hmem)
      exact hgoto listed hlisted (by simp [hname])

theorem FreshPage.evolve (hfresh : FreshPage disc state page)
    (hcached : Cached disc base state held) {held' : List Nat}
    (hafter : Cached disc base after held') (hevolves : Evolves state after) :
    FreshPage disc after page := by
  refine ⟨hfresh.empty, hfresh.unlisted, fun id new hnew hpage => ?_⟩
  cases hparent : new.parent with
  | none =>
      have hbase := (hafter.rooted id new hnew).mp hparent
      have hlt : id < state.next := by
        by_contra hge
        rw [hcached.freshBase id (by omega)] at hbase
        omega
      cases hbefore : state.entries id with
      | none =>
          rw [hevolves.gone id hlt hbefore] at hnew
          cases hnew
      | some old =>
          obtain ⟨-, -, -, hnode⟩ := hevolves.same id old new hbefore hnew
          exact hfresh.unused id old hbefore (hnode.symm.trans hpage)
  | some parent =>
      obtain ⟨-, _, dir, child, -, -, -, hchild, hlisted⟩ :=
        hafter.above id new parent hnew hparent
      cases hpage.symm.trans hchild
      exact hfresh.unlisted dir _ (List.mem_of_find?_eq_some hlisted) rfl

theorem Nowhere.evolve (hnowhere : Nowhere disc state workingDir path start)
    (hready : Ready disc base after held workingDir) (hevolves : Evolves state after) :
    Nowhere disc after workingDir path start :=
  ⟨hnowhere.walked, hnowhere.begins.evolve hevolves hready.cached (hready.start_live path),
    hnowhere.resolves⟩

end Make

/-! ## New entries -/

section New

variable {disc : Disc} {state after : State} {curNode page fuel id : Nat} {name : Name}
  {segments : Segments} {result : Option Nat}

theorem lookup_grows (hcall : lookup disc state id name = .ok after) : state.next ≤ after.next := by
  obtain ⟨entry, -, hcall⟩ := bind_eq_ok.mp hcall
  cases hnode : entry.node with
  | none =>
      rw [hnode] at hcall
      cases hcall
  | some place =>
      simp only [hnode] at hcall
      split at hcall
      next => rw [← Except.ok.inj hcall]
      next =>
        rw [← Except.ok.inj hcall]
        exact Nat.le_succ _

theorem list_grows (hcall : list disc state id = .ok after) : state.next ≤ after.next := by
  obtain ⟨entry, -, hcall⟩ := bind_eq_ok.mp hcall
  cases hnode : entry.node with
  | none =>
      rw [hnode] at hcall
      cases hcall
  | some place =>
      simp only [hnode] at hcall
      rw [← Except.ok.inj hcall]
      exact Nat.le_refl _

theorem directoryNodeEnter_grows {child : Nat}
    (hcall : directoryNodeEnter disc state id name = .ok (child, after)) :
    state.next ≤ after.next := by
  obtain ⟨entry, -, hcall⟩ := bind_eq_ok.mp hcall
  split at hcall
  next => cases hcall
  next =>
    obtain ⟨referenced, hreferenced, hcall⟩ := bind_eq_ok.mp hcall
    cases hcall
    exact (Mounts.addReference_keeps hreferenced).grows
  next =>
    obtain ⟨referenced, hreferenced, hcall⟩ := bind_eq_ok.mp hcall
    obtain ⟨found, hfound, hcall⟩ := bind_eq_ok.mp hcall
    obtain ⟨entry, -, hcall⟩ := bind_eq_ok.mp hcall
    split at hcall
    next => cases hcall
    next =>
      obtain ⟨listed, hlisted, hcall⟩ := bind_eq_ok.mp hcall
      cases hcall
      exact ((Mounts.addReference_keeps hreferenced).grows.trans (lookup_grows hfound)).trans
        (list_grows hlisted)

theorem enterStep_grows (hcall : enterStep disc state curNode name = .ok (result, after)) :
    state.next ≤ after.next := by
  obtain ⟨⟨entered, between⟩, henter, hcall⟩ := bind_eq_ok.mp hcall
  obtain ⟨released, hrelease, hcall⟩ := bind_eq_ok.mp hcall
  cases hcall
  have hentered : state.next ≤ between.next := by
    obtain ⟨entry, -, henter⟩ := bind_eq_ok.mp henter
    split at henter
    next =>
      cases henter
      exact Nat.le_refl _
    next =>
      obtain ⟨⟨child, middle⟩, hchild, henter⟩ := bind_eq_ok.mp henter
      cases henter
      exact directoryNodeEnter_grows hchild
  exact hentered.trans (Mounts.releaseWith_later hrelease).grows

theorem makeStep_grows (hcall : makeStep disc state curNode name = .ok (result, after)) :
    state.next ≤ after.next := by
  unfold makeStep at hcall
  split at hcall
  next =>
    cases hcall
    exact Nat.le_refl _
  next =>
    split at hcall
    next =>
      obtain ⟨entry, -, hcall⟩ := bind_eq_ok.mp hcall
      split at hcall
      next =>
        cases hcall
        exact Nat.le_refl _
      next =>
        obtain ⟨released, hrelease, hcall⟩ := bind_eq_ok.mp hcall
        cases hcall
        exact (Mounts.releaseWith_later hrelease).grows
    next => exact enterStep_grows hcall

/-- What `fs_make_path` returns was not there before. -/
theorem walkMake_new {node : Nat}
    (hcall : walkSegments (makeStep disc) (makeLast page .regular) state curNode segments =
      .ok (some node, after)) : state.next ≤ node := by
  induction segments generalizing state curNode with
  | last name =>
      obtain ⟨⟨dirent, made⟩, hmake, hcall⟩ := bind_eq_ok.mp hcall
      obtain ⟨released, -, hcall⟩ := bind_eq_ok.mp hcall
      obtain ⟨hdirent, -⟩ := Prod.mk.inj (Except.ok.inj hcall)
      rw [fsMake, if_pos (.inl rfl)] at hmake
      obtain ⟨entry, -, hmake⟩ := bind_eq_ok.mp hmake
      split at hmake
      next => cases hmake
      next =>
        obtain ⟨referenced, -, hmake⟩ := bind_eq_ok.mp hmake
        obtain ⟨parent, -, hmake⟩ := bind_eq_ok.mp hmake
        obtain ⟨hchild, -⟩ := Prod.mk.inj (Except.ok.inj hmake)
        rw [← hchild] at hdirent
        exact Nat.le_of_eq (Option.some.inj hdirent)
  | cons name rest ih =>
      obtain ⟨⟨reached, between⟩, hstep, hcall⟩ := bind_eq_ok.mp hcall
      cases reached with
      | none => cases hcall
      | some reached => exact (makeStep_grows hstep).trans (ih hcall)
  | overrun => cases hcall

end New

/-! ## Both calls -/

/-- A tree in which the process may open files: its cache is consistent with the handles, of which
the file that is replaced has one, and there is a page for a new file. -/
structure Prepared (disc : Disc) (base : Nat → Nat) (state : State) (held : List Nat)
    (workingDir page : Nat) (table : FileTable) (fd : Option Int) : Prop where
  ready : Ready disc base state held workingDir
  tree : Treelike disc
  roots : RootsApart disc state
  fresh : FreshPage disc state page
  replaced : ∀ asked old, fd = some asked → table.file? asked.toNat = some old →
    old.dirent ∈ held

section Main

variable {bits : Nat} {disc : Disc} {base : Nat → Nat} {state between : State} {held : List Nat}
  {workingDir page node : Nat} {table : FileTable} {fd : Option Int} {given : Path}
  {path : Option Path} {options : Options} {create : Bool} {entry : Entry} {start : Place}

theorem openCall_opens
    (hopen : openOrMake disc page state workingDir create path = .ok (.ok node, between)) :
    openCall bits disc page state table workingDir fd path options create = (do
      let (result, table, state) ← install bits between table fd node options
      return (result.mapError .file, table, state)) := by
  rw [openCall, hopen]
  rfl

theorem openOrMake_found
    (hopen : processOpenPath disc state workingDir given = .ok (some node, between)) :
    openOrMake disc page state workingDir create (some given) = .ok (.ok node, between) := by
  rw [openOrMake, hopen]
  rfl

/-- What is made for a path was not there before. -/
theorem openOrMake_made {opened : State} {made : Except OpenError Nat}
    (hnowhere : Nowhere disc state workingDir given start) (hcreate : create = true)
    (hopen : processOpenPath disc state workingDir given = .ok (none, opened))
    (hmake : openOrMake disc page state workingDir create (some given) = .ok (made, between)) :
    ∃ node, made = .ok node ∧ opened.next ≤ node := by
  simp only [openOrMake, hopen, ok_bind, hcreate, if_true] at hmake
  obtain ⟨⟨node, after⟩, hwalk, hmake⟩ := bind_eq_ok.mp hmake
  cases node with
  | none => cases hmake
  | some node =>
      cases hmake
      refine ⟨node, rfl, ?_⟩
      rw [processMakePath, processPath_eq hnowhere.walked] at hwalk
      obtain ⟨referenced, hreferenced, hwalk⟩ := bind_eq_ok.mp hwalk
      rw [walkPath_eq_scan] at hwalk
      exact (Mounts.addReference_keeps hreferenced).grows.trans (walkMake_new hwalk)

/-- And no others do. -/
theorem AllOrNothing.orderly (hprepared : Prepared disc base state held workingDir page table fd)
    (hwhole : AllOrNothing disc state table workingDir path create
      (openCall bits disc page state table workingDir fd path options create)) :
    Orderly bits disc state table workingDir fd options create path := by
  have hready := hprepared.ready
  obtain ⟨result, next, after, hcall, hresult⟩ := hwhole
  cases path with
  | none => exact .fault
  | some given =>
      by_cases hpath : given.chars = [slash]
      · -- the root
        by_cases hwrite : options.write = true
        · exact .root hpath (.inl hwrite)
        · obtain ⟨root, hroot, -, -⟩ := hready.root
          have hopen := @openOrMake_found disc state state workingDir page fsRoot given create
            (processPath_root hpath)
          refine .root hpath (.inr ?_)
          by_contra hset
          rw [openCall_opens hopen,
            install_unsettable hroot (fun hand => hwrite hand.2) hset] at hcall
          cases hcall
      rcases walked_cases hready hpath with ⟨stop, hstops⟩ | ⟨target, hleads⟩ | ⟨start, hnowhere⟩
      · rw [openCall, openOrMake, hstops] at hcall
        cases hcall
      · obtain ⟨found, entry, between, hopen, hentry, htarget, hbetween, hevolves, hat⟩ :=
          hready.opens hleads
        have hcalls := hcall
        rw [openCall_opens (openOrMake_found hopen)] at hcalls
        by_cases hrefused : entry.type = .directory ∧ options.write = true
        · -- the reference that was taken for the path is not given back
          rw [install_refused hentry hrefused] at hcalls
          obtain ⟨rfl, hrest⟩ := Prod.mk.inj (Except.ok.inj hcalls)
          cases hrest
          exact absurd hresult.2.1 (hready.not_balanced hbetween hevolves)
        · refine .found hleads (by rwa [htarget, Option.some.injEq]) ?_
          by_contra hset
          rw [install_unsettable hentry hrefused hset] at hcalls
          cases hcalls
      · cases hcreate : create with
        | false => exact .missing hnowhere rfl
        | true =>
            obtain ⟨opened, hopen, hopened, hevolves⟩ := hnowhere.openPath hready
            obtain ⟨⟨made, between⟩, hmake, hcalls⟩ := bind_eq_ok.mp hcall
            obtain ⟨node, hmade, hnew⟩ := openOrMake_made hnowhere hcreate hopen hmake
            simp only [hmade] at hcalls
            obtain ⟨⟨installed, slots, final⟩, hinstall, hcalls⟩ := bind_eq_ok.mp hcalls
            obtain ⟨rfl, hrest⟩ := Prod.mk.inj (Except.ok.inj hcalls)
            cases hrest
            obtain ⟨⟨entry, hentry⟩, hinstalled⟩ := install_eq_ok hinstall
            cases installed with
            | ok asked =>
                obtain ⟨-, path, file, hsame, -, hrefers⟩ := hresult
                cases hsame
                cases hrefers with
                | root hroot => exact absurd hroot hpath
                | found hleads => exact absurd hleads hnowhere.not_leadsTo
                | made _ hother hdirectory htype =>
                    obtain rfl := hnowhere.unique hother
                    exact .made hnowhere rfl hdirectory htype hinstalled
            | error errno =>
                -- the entry was not there before
                obtain rfl : final = between := hinstalled
                have hlive := (hresult.2.2.live node).mp (by rw [hentry]; rfl)
                rw [hready.cached.fresh node (hevolves.grows.trans hnew)] at hlive
                cases hlive

end Main

/-! ## A directory -/

section Example

end Example

end PKernel.Opening
