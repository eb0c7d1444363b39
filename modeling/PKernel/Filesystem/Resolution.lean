import PKernel.Filesystem.EntryOperations
import PKernel.Filesystem.Scanner
import Mathlib.Data.Nat.Pairing

/-! # Path resolution

What a path means in a directory tree, apart from the cache: a place is a root
and the names that lead down from it. `fs_open_path` returns the entry at the
place that the path leads to, for the paths that are read as they are written.
-/

namespace PKernel.Vfs

/-! ## Places -/

/-- A place in a directory tree; the trail to it is given from its end. -/
structure Place where
  root : Nat
  rootPage : Nat
  trail : List Listed
deriving DecidableEq, Repr

namespace Place

/-- The filesystem node at a place. -/
def page (place : Place) : Nat :=
  match place.trail with
  | [] => place.rootPage
  | listed :: _ => listed.page

/-- The named child. -/
def child (disc : Disc) (place : Place) (name : Name) : Option Place :=
  ((disc place.page).find? fun listed => listed.name == name).map fun listed =>
    { place with trail := listed :: place.trail }

/-- Where a component leads: an empty one and `.` nowhere, `..` to the parent or,
at a root, nowhere, and every other to the child with that name. -/
def goto (disc : Disc) (place : Place) (name : Name) : Option Place :=
  if name = [] ∨ name = dot then some place
  else if name = dotDot then some { place with trail := place.trail.tail }
  else place.child disc name

/-- Where the components that a walker finds lead. -/
def resolve (disc : Disc) : Place → Segments → Except Stop (Option Place)
  | place, .last name => .ok (place.goto disc name)
  | place, .cons name rest =>
      match place.goto disc name with
      | none => .ok none
      | some next => next.resolve disc rest
  | _, .overrun => .error .overrun

end Place

/-- An entry of the cache is at a place. -/
inductive At (state : State) : Nat → Place → Prop where
  | root {id page : Nat} {entry : Entry} (hentry : state.entries id = some entry)
      (hparent : entry.parent = none) (hnode : entry.node = some page) : At state id ⟨id, page, []⟩
  | child {id parent : Nat} {entry : Entry} {listed : Listed} {place : Place}
      (hentry : state.entries id = some entry) (hparent : entry.parent = some parent)
      (hname : entry.parentNode = listed.name) (htype : entry.type = listed.type)
      (hnode : entry.node = some listed.page) (hat : At state parent place) :
      At state id { place with trail := listed :: place.trail }

section At

variable {disc : Disc} {base : Nat → Nat} {state after : State} {held : List Nat} {id : Nat}
  {entry : Entry} {place : Place}

theorem At.exists_entry (hat : At state id place) :
    ∃ entry, state.entries id = some entry ∧ entry.node = some place.page := by
  cases hat with
  | root hentry hparent hnode => exact ⟨_, hentry, hnode⟩
  | child hentry hparent hname htype hnode hat => exact ⟨_, hentry, hnode⟩

/-- Every entry of a consistent cache is somewhere. -/
theorem Cached.exists_at (hcached : Cached disc base state held)
    (hentry : state.entries id = some entry) : ∃ place, At state id place := by
  induction id using Nat.strongRecOn generalizing entry with
  | ind id ih =>
      cases hparent : entry.parent with
      | none =>
          obtain ⟨page, hnode, _⟩ := hcached.listed id entry hentry
          exact ⟨_, .root hentry hparent hnode⟩
      | some parent =>
          obtain ⟨hlt, parentEntry, page, child, hparentEntry, _, _, hnode, hdisc⟩ :=
            hcached.above id entry parent hentry hparent
          obtain ⟨place, hat⟩ := ih parent hlt hparentEntry
          have hname : entry.parentNode = (Listed.mk entry.parentNode entry.type child).name := rfl
          exact ⟨_, .child hentry hparent hname rfl hnode hat⟩

/-- An entry stays at its place for as long as it lives. -/
theorem At.evolve (hat : At state id place) (hevolves : Evolves state after)
    (hcached : Cached disc base after held) (hlive : (after.entries id).isSome) :
    At after id place := by
  induction hat with
  | root hentry hparent hnode =>
      obtain ⟨new, hnew⟩ := Option.isSome_iff_exists.mp hlive
      obtain ⟨hsame, _, _, hsameNode⟩ := hevolves.same _ _ _ hentry hnew
      exact .root hnew (hsame.trans hparent) (hsameNode.trans hnode)
  | child hentry hparent hname htype hnode _ ih =>
      obtain ⟨new, hnew⟩ := Option.isSome_iff_exists.mp hlive
      obtain ⟨hsame, hsameName, hsameType, hsameNode⟩ := hevolves.same _ _ _ hentry hnew
      obtain ⟨_, parentEntry, _, _, hparentEntry, _⟩ :=
        hcached.above _ new _ hnew (hsame.trans hparent)
      exact .child hnew (hsame.trans hparent) (hsameName.trans hname) (hsameType.trans htype)
        (hsameNode.trans hnode) (ih (by rw [hparentEntry]; rfl))

end At

/-! ## A walk of `fs_open_path` -/

/-- A walk ends where it should, with one more handle if that is an entry. -/
def Arrives (disc : Disc) (base : Nat → Nat) (state : State) (held : List Nat)
    (result : Except Stop (Option Nat × State)) : Option Place → Prop
  | none => ∃ after, result = .ok (none, after) ∧ Cached disc base after held ∧
      Evolves state after
  | some place => ∃ found after, result = .ok (some found, after) ∧
      Cached disc base after (found :: held) ∧ Evolves state after ∧ At after found place

section Open

variable {disc : Disc} {base : Nat → Nat} {state : State} {held : List Nat} {curNode : Nat}
  {name : Name} {place : Place}

/-- A named component. -/
theorem Cached.enterStep (hcached : Cached disc base state (curNode :: held))
    (hat : At state curNode place) :
    Arrives disc base state held (enterStep disc state curNode name) (place.child disc name) := by
  obtain ⟨entry, hentry, hpage⟩ := hat.exists_entry
  obtain ⟨page, hpage', hnames⟩ := hcached.listed curNode entry hentry
  obtain rfl : place.page = page := Option.some.inj (hpage.symm.trans hpage')
  by_cases hmem : name ∈ entry.names
  · obtain ⟨child, childEntry, entered, listed, henter, hentered, hevolves, hlisted, hchild,
      hparent, hname, htype, hnode⟩ := hcached.enter hentry hmem
    rw [hpage, Option.getD_some] at hlisted
    rw [Place.child, hlisted, Option.map_some]
    have hne : child ≠ curNode := Nat.ne_of_gt (hentered.ordered child childEntry curNode hchild
      hparent)
    obtain ⟨after, hrelease, hafter, hevolves'⟩ :=
      hentered.release (List.mem_cons_of_mem child List.mem_cons_self)
    rw [List.erase_cons_tail (by simpa using hne), List.erase_cons_head] at hafter
    have htrans := Evolves.trans hcached.fresh hevolves hevolves'
    refine ⟨child, after, ?_, hafter, htrans, ?_⟩
    · obtain ⟨node, hfind⟩ : ∃ node, entry.find? name = some node := by
        rw [← Option.isSome_iff_exists, Option.isSome_iff_ne_none]
        exact fun hnone => (Entry.find?_eq_none.mp hnone) hmem
      simp [Vfs.enterStep, directoryEntryEnter, State.entry_eq_ok.mpr hentry, hfind, henter,
        hrelease]
    · -- the directory may be gone from the handles, but not as long as it has this child
      have hlive : (entered.entries curNode).isSome :=
        hentered.held curNode (List.mem_cons_of_mem child List.mem_cons_self)
      have hname' : childEntry.parentNode = listed.name := by
        have hfound : listed.name = name := by simpa using List.find?_some hlisted
        rw [hname, hfound]
      have hatChild : At entered child { place with trail := listed :: place.trail } :=
        .child hchild hparent hname' htype hnode (hat.evolve hevolves hentered hlive)
      exact hatChild.evolve hevolves' hafter (hafter.held child List.mem_cons_self)
  · have hnone : (disc place.page).find? (fun listed => listed.name == name) = none := by
      rw [List.find?_eq_none]
      intro listed hlisted
      have := mt (hnames name).mpr hmem
      simp only [beq_iff_eq]
      exact fun heq => this (List.mem_map.mpr ⟨listed, hlisted, heq⟩)
    rw [Place.child, hnone, Option.map_none]
    obtain ⟨after, hrelease, hafter, hevolves⟩ := hcached.release List.mem_cons_self
    rw [List.erase_cons_head] at hafter
    refine ⟨after, ?_, hafter, hevolves⟩
    simp [Vfs.enterStep, directoryEntryEnter, State.entry_eq_ok.mpr hentry,
      Entry.find?_eq_none.mpr hmem, hrelease]

/-- A component of `fs_open_path`. -/
theorem Cached.openStep (hcached : Cached disc base state (curNode :: held))
    (hat : At state curNode place) (name : Name) :
    Arrives disc base state held (openStep disc state curNode name) (place.goto disc name) := by
  unfold Vfs.openStep Place.goto
  by_cases hstay : name = [] ∨ name = dot
  · rw [if_pos hstay, if_pos hstay]
    exact ⟨curNode, state, rfl, hcached, Evolves.refl state, hat⟩
  rw [if_neg hstay, if_neg hstay]
  by_cases hup : name = dotDot
  · rw [if_pos hup, if_pos hup]
    cases hat with
    | root hentry hparent hnode =>
        refine ⟨curNode, state, ?_, hcached, Evolves.refl state, .root hentry hparent hnode⟩
        simp [State.entry_eq_ok.mpr hentry, hparent]
    | @child _ parent entry listed place hentry hparent hname htype hnode hat =>
        obtain ⟨hlt, parentEntry, _, _, hparentEntry, _⟩ :=
          hcached.above curNode entry parent hentry hparent
        obtain ⟨hreference, hcounted⟩ := hcached.addReference hparentEntry
        obtain ⟨after, hrelease, hafter, hevolves⟩ :=
          hcounted.release (List.mem_cons_of_mem parent List.mem_cons_self)
        rw [List.erase_cons_tail (by simpa using Nat.ne_of_lt hlt), List.erase_cons_head] at hafter
        have htrans := Evolves.trans hcached.fresh (.raise hparentEntry) hevolves
        refine ⟨parent, after, ?_, hafter, htrans,
          hat.evolve htrans hafter (hafter.held parent List.mem_cons_self)⟩
        simp [State.entry_eq_ok.mpr hentry, hparent, hreference, hrelease]
  · rw [if_neg hup, if_neg hup]
    exact hcached.enterStep hat

/-- The walk of `fs_open_path` ends where its components lead. -/
theorem Cached.walkOpen {segments : Segments} {target : Option Place}
    (hcached : Cached disc base state (curNode :: held)) (hat : At state curNode place)
    (hresolve : place.resolve disc segments = .ok target) :
    Arrives disc base state held
      (walkSegments (Vfs.openStep disc) (Vfs.openStep disc) state curNode segments) target := by
  induction segments generalizing state curNode place with
  | last name =>
      obtain rfl : place.goto disc name = target := Except.ok.inj hresolve
      exact hcached.openStep hat name
  | cons name rest ih =>
      have hstep := hcached.openStep hat name
      simp only [Place.resolve] at hresolve
      cases hgoto : place.goto disc name with
      | none =>
          rw [hgoto] at hstep hresolve
          obtain rfl : none = target := Except.ok.inj hresolve
          obtain ⟨after, hresult, hafter, hevolves⟩ := hstep
          exact ⟨after, by simp [walkSegments, hresult], hafter, hevolves⟩
      | some next =>
          rw [hgoto] at hstep hresolve
          obtain ⟨found, between, hresult, hbetween, hevolves, hatFound⟩ := hstep
          have hrest := ih hbetween hatFound hresolve
          simp only [walkSegments, hresult, ok_bind]
          cases target with
          | none =>
              obtain ⟨after, hresult, hafter, hevolves'⟩ := hrest
              exact ⟨after, hresult, hafter, Evolves.trans hcached.fresh hevolves hevolves'⟩
          | some target =>
              obtain ⟨reached, after, hresult, hafter, hevolves', hatReached⟩ := hrest
              exact ⟨reached, after, hresult, hafter,
                Evolves.trans hcached.fresh hevolves hevolves', hatReached⟩
  | overrun => simp [Place.resolve] at hresolve

theorem Cached.walkOpen_overrun {segments : Segments} {stop : Stop}
    (hcached : Cached disc base state (curNode :: held)) (hat : At state curNode place)
    (hresolve : place.resolve disc segments = .error stop) :
    walkSegments (Vfs.openStep disc) (Vfs.openStep disc) state curNode segments = .error stop := by
  induction segments generalizing state curNode place with
  | last name => simp [Place.resolve] at hresolve
  | cons name rest ih =>
      have hstep := hcached.openStep hat name
      simp only [Place.resolve] at hresolve
      cases hgoto : place.goto disc name with
      | none => simp [hgoto] at hresolve
      | some next =>
          rw [hgoto] at hstep hresolve
          obtain ⟨found, between, hresult, hbetween, _, hatFound⟩ := hstep
          simp only [walkSegments, hresult, ok_bind]
          exact ih hbetween hatFound hresolve
  | overrun =>
      obtain rfl : Stop.overrun = stop := Except.error.inj hresolve
      rfl

/-- `fs_open_path` adds a reference to its starting directory and walks. -/
theorem fsOpenPath_eq {entry : Entry} {path : Path} (hentry : state.entries curNode = some entry) :
    fsOpenPath disc state curNode path =
      walkSegments (Vfs.openStep disc) (Vfs.openStep disc)
        (state.set curNode { entry with references := entry.references + 1 }) curNode
        (scan path) := by
  simp only [fsOpenPath, Vfs.addReference, State.entry_eq_ok.mpr hentry, ok_bind, pure_eq_ok,
    walkPath_eq_scan]

variable {path : Path}

/-- `fs_open_path` ends where the components that it finds lead. -/
theorem Cached.fsOpenPath {target : Option Place} (hcached : Cached disc base state held)
    (hat : At state curNode place) (hresolve : place.resolve disc (scan path) = .ok target) :
    Arrives disc base state held (fsOpenPath disc state curNode path) target := by
  obtain ⟨entry, hentry, _⟩ := hat.exists_entry
  have hcounted := (hcached.addReference hentry).2
  have hcount := Evolves.raise hentry
  have hat' := hat.evolve hcount hcounted (hcounted.held curNode List.mem_cons_self)
  have hwalk := hcounted.walkOpen hat' hresolve
  rw [fsOpenPath_eq hentry]
  cases target with
  | none =>
      obtain ⟨after, hresult, hafter, hevolves⟩ := hwalk
      exact ⟨after, hresult, hafter, Evolves.trans hcached.fresh hcount hevolves⟩
  | some target =>
      obtain ⟨found, after, hresult, hafter, hevolves, hatFound⟩ := hwalk
      exact ⟨found, after, hresult, hafter, Evolves.trans hcached.fresh hcount hevolves, hatFound⟩

theorem Cached.fsOpenPath_overrun {stop : Stop} (hcached : Cached disc base state held)
    (hat : At state curNode place) (hresolve : place.resolve disc (scan path) = .error stop) :
    Vfs.fsOpenPath disc state curNode path = .error stop := by
  obtain ⟨entry, hentry, _⟩ := hat.exists_entry
  have hcounted := (hcached.addReference hentry).2
  have hcount := Evolves.raise hentry
  have hat' := hat.evolve hcount hcounted (hcounted.held curNode List.mem_cons_self)
  rw [fsOpenPath_eq hentry]
  exact hcounted.walkOpen_overrun hat' hresolve

end Open

/-! ## The meaning of a path -/

section Meaning

variable {disc : Disc} {place : Place} {names : List Name} {segments : Segments}

theorem resolve_ofList (disc : Disc) (place : Place) (hne : names ≠ []) :
    place.resolve disc (.ofList names) = .ok (names.foldlM (Place.goto disc) place) := by
  induction names generalizing place with
  | nil => exact absurd rfl hne
  | cons name rest ih =>
      cases rest with
      | nil =>
          simp only [Segments.ofList, Place.resolve, List.foldlM]
          cases place.goto disc name with
          | none => rfl
          | some next => rfl
      | cons second rest =>
          simp only [Segments.ofList, Place.resolve, List.foldlM_cons]
          cases place.goto disc name with
          | none => rfl
          | some next => exact ih next (by simp)

/-- A tree in which every directory has a directory under each of the names. -/
def fullDisc (names : List Name) : Disc := fun page =>
  names.zipIdx.map fun (name, index) => ⟨name, .directory, Nat.pair page index + 1⟩

theorem fullDisc_names (names : List Name) (page : Nat) :
    (fullDisc names page).map Listed.name = names := by
  simp [fullDisc, Function.comp_def]

theorem child_fullDisc_isSome {name : Name} :
    (place.child (fullDisc names) name).isSome ↔ name ∈ names := by
  rw [Place.child, Option.isSome_map, List.find?_isSome]
  simp only [beq_iff_eq]
  rw [← List.mem_map, fullDisc_names]

theorem goto_fullDisc_isSome {name : Name} (place : Place) (hmem : name ∈ names) :
    (place.goto (fullDisc names) name).isSome := by
  unfold Place.goto
  split
  · rfl
  · split
    · rfl
    · exact child_fullDisc_isSome.mpr hmem

/-- In the full tree every path of known names leads somewhere. -/
theorem foldlM_goto_fullDisc {more : List Name} (place : Place) (hsubset : more ⊆ names) :
    (more.foldlM (Place.goto (fullDisc names)) place).isSome := by
  induction more generalizing place with
  | nil => rfl
  | cons name rest ih =>
      obtain ⟨next, hnext⟩ := Option.isSome_iff_exists.mp
        (goto_fullDisc_isSome place (hsubset List.mem_cons_self))
      rw [List.foldlM_cons, hnext]
      exact ih next fun other hother => hsubset (List.mem_cons_of_mem name hother)

theorem goto_fullDisc_of_slash {name : Name} (hhead : name.head? = some slash)
    (hnames : ∀ known ∈ names, slash ∉ known) : place.goto (fullDisc names) name = none := by
  have hmem : slash ∈ name := List.mem_of_mem_head? hhead
  have hempty : name ≠ [] := by
    rintro rfl
    simp at hhead
  have hdot : name ≠ dot := by
    rintro rfl
    simp [dot, slash] at hhead
  have hdotDot : name ≠ dotDot := by
    rintro rfl
    simp [dotDot, slash] at hhead
  rw [Place.goto, if_neg (by simp [hempty, hdot]), if_neg hdotDot]
  rw [← Option.not_isSome_iff_eq_none, child_fullDisc_isSome]
  exact fun hknown => hnames name hknown hmem

/-- In the full tree a derailed walk runs past the end or finds nothing. -/
theorem resolve_fullDisc_of_derails (place : Place) (hnames : ∀ known ∈ names, slash ∉ known)
    (hderails : segments.Derails names) :
    place.resolve (fullDisc names) segments = .ok none ∨
      place.resolve (fullDisc names) segments = .error .overrun := by
  induction segments generalizing place with
  | last name =>
      rw [Place.resolve, goto_fullDisc_of_slash hderails hnames]
      exact .inl rfl
  | cons name rest ih =>
      rcases hderails with hhead | ⟨hmem, hrest⟩
      · rw [Place.resolve, goto_fullDisc_of_slash hhead hnames]
        exact .inl rfl
      · obtain ⟨next, hnext⟩ := Option.isSome_iff_exists.mp
          (goto_fullDisc_isSome place hmem)
        rw [Place.resolve, hnext]
        exact ih next hrest
  | overrun => exact .inr rfl

theorem slash_not_mem_splitOn (chars : Name) : ∀ name ∈ chars.splitOn slash, slash ∉ name := by
  induction chars with
  | nil => simp
  | cons char rest ih =>
      by_cases hslash : char = slash
      · rw [hslash, splitOn_slash]
        simpa using ih
      · rw [splitOn_of_ne hslash]
        cases hsplit : rest.splitOn slash with
        | nil => simp
        | cons head tail =>
            rw [hsplit] at ih
            simp only [List.modifyHead_cons, List.mem_cons, forall_eq_or_imp] at ih ⊢
            exact ⟨by simp [Ne.symm hslash, ih.1], ih.2⟩

end Meaning

/-- `fs_open_path` returns the entry at the place that the components of the path
lead to, and null if they lead nowhere. -/
def Resolves (disc : Disc) (state : State) (start : Nat) (place : Place) (path : Path) : Prop :=
  match (components path).foldlM (Place.goto disc) place with
  | none => ∃ after, fsOpenPath disc state start path = .ok (none, after)
  | some target => ∃ found after, fsOpenPath disc state start path = .ok (some found, after) ∧
      At after found target

/-- A path is resolved in every tree, from every cache and every starting entry, if
and only if every separator in it has a character behind it that is no separator. -/
theorem fsOpenPath_resolves (path : Path) :
    (∀ disc base state held start place, Cached disc base state held → At state start place →
      Resolves disc state start place path) ↔ Separated path.chars := by
  constructor
  · intro hresolves
    by_contra hnot
    -- in the full tree the components lead somewhere, and the walk does not
    have hroot : At (mounted (fullDisc (components path)) 0) fsRoot ⟨fsRoot, 0, []⟩ :=
      .root rfl rfl rfl
    have hcached := mounted_cached (fullDisc (components path)) 0
    have hpath := hresolves _ _ _ _ _ _ hcached hroot
    obtain ⟨target, htarget⟩ := Option.isSome_iff_exists.mp
      (foldlM_goto_fullDisc ⟨fsRoot, 0, []⟩ (List.Subset.refl (components path)))
    rw [Resolves, htarget] at hpath
    obtain ⟨found, after, hfound, _⟩ := hpath
    have hderails : (scan path).Derails (components path) := by
      apply (scanRest_derails [] hnot).mono
      rw [components]
      cases path.chars.splitOn slash with
      | nil => exact List.Subset.refl _
      | cons head tail => exact List.Subset.refl _
    rcases resolve_fullDisc_of_derails ⟨fsRoot, 0, []⟩
      (slash_not_mem_splitOn path.chars) hderails with hnone | hover
    · obtain ⟨after', hresult, _⟩ := hcached.fsOpenPath hroot hnone
      rw [hresult] at hfound
      simp at hfound
    · rw [hcached.fsOpenPath_overrun hroot hover] at hfound
      simp at hfound
  · intro hseparated disc base state held start place hcached hat
    have hresolve : place.resolve disc (scan path) =
        .ok ((components path).foldlM (Place.goto disc) place) := by
      rw [scan_of_separated hseparated, resolve_ofList]
      exact List.splitOn_ne_nil slash path.chars
    have harrives := hcached.fsOpenPath hat hresolve
    rw [Resolves]
    cases htarget : (components path).foldlM (Place.goto disc) place with
    | none =>
        rw [htarget] at harrives
        obtain ⟨after, hresult, _⟩ := harrives
        exact ⟨after, hresult⟩
    | some target =>
        rw [htarget] at harrives
        obtain ⟨found, after, hresult, _, _, hatFound⟩ := harrives
        exact ⟨found, after, hresult, hatFound⟩

/-- A tree with one directory `a`. -/
def oneDirectory : Disc := fun page => if page = 0 then [⟨[97], .directory, 1⟩] else []

/-- A root directory with the file `a`. -/
def oneFile : Disc := fun page => if page = 0 then [⟨[97], .regular, 1⟩] else []

/-- `a` is resolved in a tree with that directory. -/
theorem fsOpenPath_resolves_oneDirectory :
    Resolves oneDirectory (mounted oneDirectory 0) fsRoot ⟨fsRoot, 0, []⟩ ⟨[97], by decide⟩ :=
  (fsOpenPath_resolves _).mpr (separated_nil.cons (by decide)) _ _ _ _ _ _
    (mounted_cached oneDirectory 0) (.root rfl rfl rfl)

/-- `"a/"`. -/
def slashAtEnd : Path := ⟨[97, 47], by decide⟩

/-- In a tree with one directory `a`, `fs_open_path` of `a/` reads behind the NUL. -/
theorem fsOpenPath_reads_past_end :
    Cached oneDirectory mountReferences (mounted oneDirectory 0) [fsRoot] ∧
    At (mounted oneDirectory 0) fsRoot ⟨fsRoot, 0, []⟩ ∧
    fsOpenPath oneDirectory (mounted oneDirectory 0) fsRoot slashAtEnd = .error .overrun ∧
    ¬ Resolves oneDirectory (mounted oneDirectory 0) fsRoot ⟨fsRoot, 0, []⟩ slashAtEnd := by
  have hroot : At (mounted oneDirectory 0) fsRoot ⟨fsRoot, 0, []⟩ := .root rfl rfl rfl
  have hover : fsOpenPath oneDirectory (mounted oneDirectory 0) fsRoot slashAtEnd =
      .error .overrun :=
    (mounted_cached oneDirectory 0).fsOpenPath_overrun hroot (by decide)
  refine ⟨mounted_cached oneDirectory 0, hroot, hover, ?_⟩
  intro hresolves
  have htarget : (components slashAtEnd).foldlM (Place.goto oneDirectory) ⟨fsRoot, 0, []⟩ =
      some ⟨fsRoot, 0, [⟨[97], .directory, 1⟩]⟩ := by decide
  rw [Resolves, htarget] at hresolves
  obtain ⟨found, after, hfound, _⟩ := hresolves
  rw [hover] at hfound
  simp at hfound

end PKernel.Vfs
