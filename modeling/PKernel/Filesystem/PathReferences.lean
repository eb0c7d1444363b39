import PKernel.Library.Transition
import PKernel.Filesystem.Resolution

/-! # References after path calls

A live entry is a root or an ancestor of an entry with a handle, so the handles
determine which entries are live, and with them the counts. `process_open_path`
and `process_make_path` are compared with what that gives.
-/

namespace PKernel.Vfs

open Library.Transition

/-! ## Handles determine counts -/

/-- The count of an entry, 0 if it is not live. -/
def State.references (state : State) (id : Nat) : Nat :=
  ((state.entries id).map Entry.references).getD 0

/-- The parent of an entry. -/
def State.parentOf (state : State) (id : Nat) : Option Nat :=
  (state.entries id).bind Entry.parent

/-- The number of entries from a number on that have a parent. -/
def State.childrenFrom (state : State) (first id : Nat) : Nat :=
  (List.range state.next).countP fun child =>
    decide (first ≤ child) && decide (state.parentOf child = some id)

section Counts

variable {disc : Disc} {base : Nat → Nat} {state after : State} {held held' : List Nat} {id : Nat}
  {entry : Entry}

theorem State.references_of_live (hentry : state.entries id = some entry) :
    state.references id = entry.references := by
  simp [State.references, hentry]

theorem State.parentOf_eq_some {child : Nat} :
    state.parentOf child = some id ↔
      ∃ entry, state.entries child = some entry ∧ entry.parent = some id := by
  simp [State.parentOf, Option.bind_eq_some_iff]

/-- One new entry, and no other changes of parents. -/
theorem State.childrenFrom_of_new {first parent : Nat} (hnext : after.next = state.next + 1)
    (hparents : ∀ child, child < state.next → after.parentOf child = state.parentOf child)
    (hnew : after.parentOf state.next = some parent) (hfirst : first ≤ state.next) (id : Nat) :
    after.childrenFrom first id = state.childrenFrom first id + if id = parent then 1 else 0 := by
  rw [State.childrenFrom, State.childrenFrom, hnext, List.range_succ, List.countP_append,
    List.countP_singleton]
  have hold : (List.range state.next).countP (fun child =>
      decide (first ≤ child) && decide (after.parentOf child = some id)) =
      (List.range state.next).countP (fun child =>
        decide (first ≤ child) && decide (state.parentOf child = some id)) := by
    apply List.countP_congr
    intro child hchild
    rw [hparents child (List.mem_range.mp hchild)]
  rw [hold, hnew]
  by_cases hparent : id = parent
  · simp [hfirst, hparent]
  · simp [hparent, Ne.symm hparent]

namespace Cached

/-- The cached children of an entry are the entries that have it as their parent. -/
theorem cached_eq_children (hcached : Cached disc base state held)
    (hentry : state.entries id = some entry) : entry.cached = state.childrenFrom 0 id := by
  have hlength : entry.cached = (entry.nodes.filterMap EntryNode.dirent).length := by
    rw [Entry.cached, List.length_filterMap_eq_countP]
  have hmem : ∀ child, child ∈ entry.nodes.filterMap EntryNode.dirent ↔
      state.parentOf child = some id := by
    intro child
    rw [List.mem_filterMap, State.parentOf_eq_some]
    constructor
    · rintro ⟨⟨name, dirent⟩, hnode, rfl⟩
      obtain ⟨childEntry, hchild, hparent, _⟩ := hcached.below id entry name child hentry hnode
      exact ⟨childEntry, hchild, hparent⟩
    · rintro ⟨childEntry, hchild, hparent⟩
      obtain ⟨_, parentEntry, _, _, hparentEntry, hnode, _⟩ :=
        hcached.above child childEntry id hchild hparent
      obtain rfl : entry = parentEntry := Option.some.inj (hentry.symm.trans hparentEntry)
      exact ⟨_, hnode, rfl⟩
  -- two pointers to one child would have its name
  have hnodup : (entry.nodes.filterMap EntryNode.dirent).Nodup := by
    have hnames := hcached.names id entry hentry
    have hnodes : entry.nodes.Nodup := hnames.of_map _
    rw [List.Nodup, List.pairwise_filterMap]
    refine hnodes.imp_of_mem ?_
    rintro ⟨first, _⟩ ⟨second, _⟩ hfirst hsecond hne child rfl _ hsame rfl
    obtain ⟨childEntry, hchild, _, hname⟩ := hcached.below id entry first child hentry hfirst
    obtain ⟨childEntry', hchild', _, hname'⟩ :=
      hcached.below id entry second child hentry (hsame ▸ hsecond)
    obtain rfl : childEntry = childEntry' := Option.some.inj (hchild.symm.trans hchild')
    exact hne (Entry.eq_of_name_eq hnames hfirst hsecond (hname.symm.trans hname'))
  have hperm : (entry.nodes.filterMap EntryNode.dirent).Perm
      ((List.range state.next).filter fun child => state.parentOf child = some id) := by
    rw [List.perm_ext_iff_of_nodup hnodup (List.nodup_range.filter _)]
    intro child
    rw [hmem, List.mem_filter, List.mem_range, decide_eq_true_eq]
    constructor
    · intro hparent
      obtain ⟨childEntry, hchild, _⟩ := State.parentOf_eq_some.mp hparent
      exact ⟨hcached.id_lt hchild, hparent⟩
    · exact fun hboth => hboth.2
  rw [hlength, hperm.length_eq, State.childrenFrom, List.countP_eq_length_filter]
  simp

/-- What is live stays live as long as the handles stay. -/
theorem live_of_handles (hcached : Cached disc base state held)
    (hafter : Cached disc base after held') (hevolves : Evolves state after)
    (hheld : ∀ id ∈ held, id ∈ held') (hentry : state.entries id = some entry) :
    (after.entries id).isSome := by
  -- from the youngest entries to the oldest
  obtain ⟨age, hage⟩ : ∃ age, age = state.next - id := ⟨_, rfl⟩
  induction age using Nat.strongRecOn generalizing id entry with
  | ind age ih =>
      cases hparent : entry.parent with
      | none => exact hevolves.roots id entry hentry hparent
      | some parent =>
          have hbase : base id = 0 := by
            by_contra hne
            have := (hcached.rooted id entry hentry).mpr (Nat.pos_of_ne_zero hne)
            simp [hparent] at this
          have hcount := hcached.counted id entry hentry
          have hpositive := hcached.positive id entry hentry
          by_cases hhandle : id ∈ held
          · exact hafter.held id (hheld id hhandle)
          · rw [List.count_eq_zero_of_not_mem hhandle] at hcount
            obtain ⟨⟨name, dirent⟩, hnode, hdirent⟩ :=
              List.countP_pos_iff.mp (show 0 < entry.cached by omega)
            obtain ⟨child, rfl⟩ := Option.isSome_iff_exists.mp hdirent
            obtain ⟨childEntry, hchild, hchildParent, _⟩ :=
              hcached.below id entry name child hentry hnode
            have hlt := hcached.ordered child childEntry id hchild hchildParent
            have hbound := hcached.id_lt hchild
            obtain ⟨new, hnew⟩ := Option.isSome_iff_exists.mp
              (ih (state.next - child) (by omega) hchild rfl)
            obtain ⟨hsame, _⟩ := hevolves.same child childEntry new hchild hnew
            obtain ⟨_, parentEntry, _, _, hparentEntry, _⟩ :=
              hafter.above child new id hnew (hsame.trans hchildParent)
            rw [hparentEntry]
            rfl

/-- Without new handles there are no new entries. -/
theorem lt_of_handles (hcached : Cached disc base state held)
    (hafter : Cached disc base after held') (hheld : ∀ id ∈ held', id ∈ held)
    (hentry : after.entries id = some entry) : id < state.next := by
  by_contra hle
  obtain ⟨age, hage⟩ : ∃ age, age = after.next - id := ⟨_, rfl⟩
  induction age using Nat.strongRecOn generalizing id entry with
  | ind age ih =>
      have hbase := hcached.freshBase id (by omega)
      have hcount := hafter.counted id entry hentry
      have hpositive := hafter.positive id entry hentry
      by_cases hhandle : id ∈ held'
      · obtain ⟨old, hold⟩ := Option.isSome_iff_exists.mp (hcached.held id (hheld id hhandle))
        exact hle (hcached.id_lt hold)
      · rw [List.count_eq_zero_of_not_mem hhandle] at hcount
        obtain ⟨⟨name, dirent⟩, hnode, hdirent⟩ :=
          List.countP_pos_iff.mp (show 0 < entry.cached by omega)
        obtain ⟨child, rfl⟩ := Option.isSome_iff_exists.mp hdirent
        obtain ⟨childEntry, hchild, hchildParent, _⟩ :=
          hafter.below id entry name child hentry hnode
        have hlt := hafter.ordered child childEntry id hchild hchildParent
        have hbound := hafter.id_lt hchild
        exact ih (after.next - child) (by omega) hchild (by omega) rfl

/-- Every count follows the handles on the entry and the new entries below it. -/
theorem references_of_handles (hcached : Cached disc base state held)
    (hafter : Cached disc base after held') (hevolves : Evolves state after)
    (hheld : ∀ id ∈ held, id ∈ held') (id : Nat) :
    after.references id + held.count id =
      state.references id + held'.count id + after.childrenFrom state.next id := by
  -- the old children are the same
  have hsame : ∀ child, child < state.next →
      (state.parentOf child = some id ↔ after.parentOf child = some id) := by
    intro child hlt
    rw [State.parentOf_eq_some, State.parentOf_eq_some]
    constructor
    · rintro ⟨old, hold, hparent⟩
      obtain ⟨new, hnew⟩ := Option.isSome_iff_exists.mp
        (hcached.live_of_handles hafter hevolves hheld hold)
      exact ⟨new, hnew, (hevolves.same child old new hold hnew).1.trans hparent⟩
    · rintro ⟨new, hnew, hparent⟩
      cases hold : state.entries child with
      | none => simp [hevolves.gone child hlt hold] at hnew
      | some old => exact ⟨old, rfl, (hevolves.same child old new hold hnew).1.symm.trans hparent⟩
  have hchildren : after.childrenFrom 0 id =
      state.childrenFrom 0 id + after.childrenFrom state.next id := by
    obtain ⟨more, hmore⟩ := Nat.exists_eq_add_of_le hevolves.grows
    simp only [State.childrenFrom, hmore, List.range_add, List.countP_append, List.countP_map]
    have hold : (List.range state.next).countP (fun child =>
        decide (state.next ≤ child) && decide (after.parentOf child = some id)) = 0 := by
      rw [List.countP_eq_zero]
      intro child hchild
      simp [List.mem_range.mp hchild]
    have hkept : (List.range state.next).countP (fun child =>
        decide (0 ≤ child) && decide (after.parentOf child = some id)) =
        (List.range state.next).countP (fun child =>
          decide (0 ≤ child) && decide (state.parentOf child = some id)) := by
      apply List.countP_congr
      intro child hchild
      simp [hsame child (List.mem_range.mp hchild)]
    have hnew : (List.range more).countP ((fun child =>
        decide (0 ≤ child) && decide (after.parentOf child = some id)) ∘ (state.next + ·)) =
        (List.range more).countP ((fun child =>
          decide (state.next ≤ child) && decide (after.parentOf child = some id)) ∘
            (state.next + ·)) := by
      apply List.countP_congr
      intro child _
      simp
    rw [hold, hkept, hnew, Nat.zero_add]
  cases hold : state.entries id with
  | some old =>
      obtain ⟨new, hnew⟩ := Option.isSome_iff_exists.mp
        (hcached.live_of_handles hafter hevolves hheld hold)
      rw [State.references_of_live hold, State.references_of_live hnew,
        hcached.counted id old hold, hafter.counted id new hnew, hcached.cached_eq_children hold,
        hafter.cached_eq_children hnew, hchildren]
      omega
  | none =>
      have hnone : state.childrenFrom 0 id = 0 := by
        rw [State.childrenFrom, List.countP_eq_zero]
        intro child _
        simp only [Nat.zero_le, decide_true, Bool.true_and, decide_eq_true_eq]
        intro hparent
        obtain ⟨entry, hentry, hparent⟩ := State.parentOf_eq_some.mp hparent
        obtain ⟨_, parentEntry, _, _, hparentEntry, _⟩ :=
          hcached.above child entry id hentry hparent
        simp [hold] at hparentEntry
      have hcount : held.count id = 0 := by
        apply List.count_eq_zero_of_not_mem
        intro hmem
        have := hcached.held id hmem
        simp [hold] at this
      rw [hcount, Nat.add_zero, show state.references id = 0 by simp [State.references, hold]]
      cases hnew : after.entries id with
      | some new =>
          have hfresh : state.next ≤ id := by
            by_contra hlt
            simp [hevolves.gone id (by omega) hold] at hnew
          rw [State.references_of_live hnew, hafter.counted id new hnew,
            hafter.cached_eq_children hnew, hchildren, hnone, hcached.freshBase id hfresh]
          omega
      | none =>
          have hcount' : held'.count id = 0 := by
            apply List.count_eq_zero_of_not_mem
            intro hmem
            have := hafter.held id hmem
            simp [hnew] at this
          have hnone' : after.childrenFrom state.next id = 0 := by
            rw [State.childrenFrom, List.countP_eq_zero]
            intro child _
            simp only [Bool.and_eq_true, decide_eq_true_eq, not_and]
            intro _ hparent
            obtain ⟨entry, hentry, hparent⟩ := State.parentOf_eq_some.mp hparent
            obtain ⟨_, parentEntry, _, _, hparentEntry, _⟩ :=
              hafter.above child entry id hentry hparent
            simp [hnew] at hparentEntry
          simp [State.references, hnew, hcount', hnone']

/-- With the same handles the counts are the same. -/
theorem references_of_same_handles (hcached : Cached disc base state held)
    (hafter : Cached disc base after held') (hevolves : Evolves state after)
    (hperm : held.Perm held') (id : Nat) :
    after.references id = state.references id ∧ after.childrenFrom state.next id = 0 := by
  have hcounts := hcached.references_of_handles hafter hevolves
    (fun other hother => hperm.mem_iff.mp hother) id
  have hnone : after.childrenFrom state.next id = 0 := by
    rw [State.childrenFrom, List.countP_eq_zero]
    intro child _
    simp only [Bool.and_eq_true, decide_eq_true_eq, not_and]
    intro hle hparent
    obtain ⟨entry, hentry, _⟩ := State.parentOf_eq_some.mp hparent
    have := hcached.lt_of_handles hafter (fun other hother => hperm.mem_iff.mpr hother) hentry
    omega
  rw [hperm.count_eq] at hcounts
  exact ⟨by omega, hnone⟩

end Cached

end Counts

/-! ## `process_open_path` -/

/-- The path that is walked along: without a separator at its front. -/
def Path.walked (path : Path) : Path := if path.chars.head? = some slash then path.tail else path

/-- Where the walk starts. -/
def Path.start (path : Path) (workingDir : Nat) : Nat :=
  if path.chars.head? = some slash then fsRoot else workingDir

/-- `process_open_path` leaves no reference behind: if it returns null all counts are
what they were, and if it returns an entry that has one more, apart from the
references of new entries to their parents. -/
def OpensCleanly (disc : Disc) (state : State) (workingDir : Nat) (path : Path) : Prop :=
  ∃ result after, processOpenPath disc state workingDir path = .ok (result, after) ∧
    match result with
    | none => ∀ id, after.references id = state.references id
    | some found => ∀ id, after.references id =
        state.references id + (if id = found then 1 else 0) + after.childrenFrom state.next id

/-- The path is not that of the root, and the walk along it stays within it: it ends in
an even number of separators. -/
def Path.Clean (path : Path) : Prop := path.chars ≠ [slash] ∧ trailing path.walked.chars % 2 = 0

section Open

variable {disc : Disc} {base : Nat → Nat} {state after : State} {held : List Nat}
  {workingDir : Nat} {path : Path} {place : Place} {segments : Segments}
  {walk : State → Nat → Path → Except Stop (Option Nat × State)}

theorem processPath_root (hpath : path.chars = [slash]) :
    processPath walk state workingDir path = .ok (some fsRoot, state) := by
  simp [processPath, charAt, hpath]

theorem processPath_eq (hpath : path.chars ≠ [slash]) :
    processPath walk state workingDir path = walk state (path.start workingDir) path.walked := by
  unfold processPath Path.walked Path.start
  match hchars : path.chars with
  | [] => simp [charAt, slash]
  | [first] =>
      have hfirst : first ≠ slash := by
        rintro rfl
        exact hpath hchars
      simp [charAt, hfirst]
  | first :: second :: rest =>
      by_cases hfirst : first = slash
      · have hsecond : second ≠ 0 := by
          rintro rfl
          exact path.noNul (by simp [hchars])
        simp [charAt, hfirst, hsecond]
      · simp [charAt, hfirst]

/-- A walk that stays within its path ends somewhere or nowhere. -/
theorem resolve_of_not_overruns (place : Place) (hwithin : ¬ segments.Overruns) :
    ∃ target, place.resolve disc segments = .ok target := by
  induction segments generalizing place with
  | last name => exact ⟨_, rfl⟩
  | cons name rest ih =>
      rw [Place.resolve]
      cases place.goto disc name with
      | none => exact ⟨none, rfl⟩
      | some next => exact ih next hwithin
  | overrun => exact absurd trivial hwithin

/-- All names that a walk comes to. -/
def Segments.names : Segments → List Name
  | .last name => [name]
  | .cons name rest => name :: rest.names
  | .overrun => []

/-- In the full tree a walk that leaves its path gets that far. -/
theorem resolve_fullDisc_of_overruns {names : List Name} (place : Place)
    (hoverruns : segments.Overruns) (hsubset : segments.names ⊆ names) :
    place.resolve (fullDisc names) segments = .error .overrun := by
  induction segments generalizing place with
  | last name => exact hoverruns.elim
  | cons name rest ih =>
      obtain ⟨next, hnext⟩ := Option.isSome_iff_exists.mp
        (goto_fullDisc_isSome place (hsubset List.mem_cons_self))
      rw [Place.resolve, hnext]
      exact ih next hoverruns fun other hother => hsubset (List.mem_cons_of_mem name hother)
  | overrun => rfl

theorem scan_overruns : (scan path).Overruns ↔ trailing path.chars % 2 = 1 := scanRest_overruns

/-- A walk that ends has done so with the right handles. -/
theorem Cached.opensCleanly (hcached : Cached disc base state held)
    (hroot : (state.entries fsRoot).isSome) (hdir : (state.entries workingDir).isSome)
    (hclean : path.Clean) : ∃ result after,
      processOpenPath disc state workingDir path = .ok (result, after) ∧
      Cached disc base after (result.toList ++ held) ∧ Evolves state after := by
  obtain ⟨hnotRoot, hwithin⟩ := hclean
  have hlive : (state.entries (path.start workingDir)).isSome := by
    unfold Path.start
    split
    · exact hroot
    · exact hdir
  obtain ⟨entry, hentry⟩ := Option.isSome_iff_exists.mp hlive
  obtain ⟨place, hat⟩ := hcached.exists_at hentry
  have hnot : ¬ (scan path.walked).Overruns := by
    rw [scan_overruns]
    omega
  obtain ⟨target, htarget⟩ := resolve_of_not_overruns place hnot
  have harrives := hcached.fsOpenPath hat htarget
  rw [processOpenPath, processPath_eq hnotRoot]
  cases target with
  | none =>
      obtain ⟨after, hresult, hafter, hevolves⟩ := harrives
      exact ⟨none, after, hresult, hafter, hevolves⟩
  | some target =>
      obtain ⟨found, after, hresult, hafter, hevolves, _⟩ := harrives
      exact ⟨some found, after, hresult, hafter, hevolves⟩

/-- A path can be opened cleanly in every tree and cache if and only if it is clean. -/
theorem opensCleanly_iff (path : Path) :
    (∀ disc base state held workingDir, Cached disc base state held →
      (state.entries fsRoot).isSome → (state.entries workingDir).isSome →
      OpensCleanly disc state workingDir path) ↔ path.Clean := by
  constructor
  · intro hopens
    have hmounted : ∀ disc, OpensCleanly disc (mounted disc 0) fsRoot path := fun disc =>
      hopens disc _ _ _ _ (mounted_cached disc 0) rfl rfl
    constructor
    · intro hslash
      obtain ⟨result, after, hresult, hcounts⟩ := hmounted fun _ => []
      rw [processOpenPath, processPath_root hslash] at hresult
      cases hresult
      have hroot := hcounts fsRoot
      rw [if_pos rfl] at hroot
      omega
    · by_contra hodd
      have hnotRoot : path.chars ≠ [slash] := by
        intro hslash
        simp [Path.walked, Path.tail, hslash, trailing, List.rtakeWhile] at hodd
      obtain ⟨result, after, hresult, _⟩ := hmounted (fullDisc (scan path.walked).names)
      have hroot : At (mounted (fullDisc (scan path.walked).names) 0) fsRoot ⟨fsRoot, 0, []⟩ :=
        .root rfl rfl rfl
      have hstart : path.start fsRoot = fsRoot := by
        unfold Path.start
        split <;> rfl
      have hover := resolve_fullDisc_of_overruns ⟨fsRoot, 0, []⟩
        (scan_overruns.mpr (show trailing path.walked.chars % 2 = 1 by omega))
        (List.Subset.refl _)
      rw [processOpenPath, processPath_eq hnotRoot, hstart,
        (mounted_cached _ 0).fsOpenPath_overrun hroot hover] at hresult
      simp at hresult
  · intro hclean disc base state held workingDir hcached hroot hdir
    obtain ⟨result, after, hresult, hafter, hevolves⟩ := hcached.opensCleanly hroot hdir hclean
    refine ⟨result, after, hresult, ?_⟩
    cases result with
    | none =>
        exact fun id => (hcached.references_of_same_handles hafter hevolves (.refl _) id).1
    | some found =>
        intro id
        have hcounts := hcached.references_of_handles hafter hevolves
          (fun other hother => List.mem_cons_of_mem found hother) id
        rw [Option.toList_some, List.singleton_append] at hcounts
        by_cases hfound : id = found
        · rw [hfound, List.count_cons_self] at hcounts
          rw [if_pos hfound, hfound]
          omega
        · rw [List.count_cons_of_ne (Ne.symm hfound)] at hcounts
          rw [if_neg hfound]
          omega

end Open

/-! ## `process_make_path` -/

/-- `process_make_path` changes the counts of the entries that were there only by the
references of new entries to their parents. -/
def MakesCleanly (disc : Disc) (page : Nat) (type : FileType) (state : State) (workingDir : Nat)
    (path : Path) : Prop :=
  ∃ result after, processMakePath disc page type state workingDir path = .ok (result, after) ∧
    ∀ id, (state.entries id).isSome →
      after.references id = state.references id + after.childrenFrom state.next id

/-- What the walk of `fs_make_path` must not come to: the end of the string without
seeing it, a `..` below a root, and a last name that is taken. -/
def MakesSafely (disc : Disc) (type : FileType) : Place → Segments → Prop
  | place, .last name => type = .regular ∨ type = .directory →
      name ∉ (disc place.page).map Listed.name
  | place, .cons name rest => (name = dotDot → place.trail = []) ∧
      ∀ next, place.goto disc name = some next → MakesSafely disc type next rest
  | _, .overrun => False

section Make

variable {disc : Disc} {base : Nat → Nat} {state after : State} {held : List Nat}
  {curNode page : Nat} {entry : Entry} {name : Name} {type : FileType} {place : Place}
  {segments : Segments}

/-- Where no parent is entered `fs_make_path` takes the steps of `fs_open_path`. -/
theorem makeStep_eq (hat : At state curNode place) (hup : name = dotDot → place.trail = []) :
    makeStep disc state curNode name = openStep disc state curNode name := by
  unfold makeStep openStep
  by_cases hname : name = dotDot
  · cases hat with
    | root hentry hparent hnode => simp [State.entry_eq_ok.mpr hentry, hparent]
    | child hentry hparent hparentNode htype hnode hat => simp at hup; contradiction
  · simp [hname]

/-- What `fs_make` makes of a free name: an entry with two references, and one more for
its parent. -/
theorem fsMake_eq (page : Nat) (hentry : state.entries curNode = some entry)
    (htype : type = .regular ∨ type = .directory) (hname : name ∉ entry.names) :
    fsMake page state curNode name type = .ok (some state.next,
      ⟨Function.update (Function.update state.entries state.next
          (some ⟨some curNode, name, 2, type, some page, []⟩)) curNode
        (some { { entry with nodes := ⟨name, none⟩ :: entry.nodes }.setDirent name
          (some state.next) with references := entry.references + 1 }), state.next + 1⟩) := by
  have hadd : addNode entry.nodes name = some (⟨name, none⟩ :: entry.nodes) := by
    unfold addNode
    rw [if_neg]
    simpa [Entry.names] using hname
  simp only [fsMake, if_pos htype, State.entry_eq_ok.mpr hentry, ok_bind, hadd]
  simp [directoryEntryCreate, addReference, State.entry, State.set]
  rfl

/-- What `fs_make` does to the other entries. -/
theorem fsMake_eq_ok (page : Nat) (hentry : state.entries curNode = some entry)
    (hlt : curNode < state.next) (htype : type = .regular ∨ type = .directory)
    (hname : name ∉ entry.names) :
    ∃ made parentEntry childEntry, fsMake page state curNode name type =
        .ok (some state.next, made) ∧ made.next = state.next + 1 ∧
      made.entries curNode = some parentEntry ∧ parentEntry.parent = entry.parent ∧
      parentEntry.references = entry.references + 1 ∧
      made.entries state.next = some childEntry ∧ childEntry.parent = some curNode ∧
      ∀ id, id ≠ curNode → id ≠ state.next → made.entries id = state.entries id := by
  have hne : curNode ≠ state.next := Nat.ne_of_lt hlt
  refine ⟨_, _, ⟨some curNode, name, 2, type, some page, []⟩, fsMake_eq page hentry htype hname,
    rfl, Function.update_self .., rfl, rfl, ?_, rfl, ?_⟩
  · simp [Ne.symm hne]
  · intro id hcur hnext
    simp [hcur, hnext]

/-- The last component of `fs_make_path`: the walk's handle goes, and the new entry is
one more reference to its parent. -/
theorem Cached.makeLast (hcached : Cached disc base state held)
    {between : State} (hbetween : Cached disc base between (curNode :: held))
    (hevolves : Evolves state between) (hentry : between.entries curNode = some entry)
    (hname : type = .regular ∨ type = .directory → name ∉ entry.names) :
    ∃ result after, makeLast page type between curNode name = .ok (result, after) ∧
      ∀ id, (state.entries id).isSome →
        after.references id = state.references id + after.childrenFrom state.next id := by
  by_cases htype : type = .regular ∨ type = .directory
  · obtain ⟨made, parentEntry, childEntry, hmake, hnext, hparentEntry, hsame, hreferences, hchild,
      hparent, hother⟩ := fsMake_eq_ok page hentry (hbetween.id_lt hentry) htype (hname htype)
    have hpositive := hbetween.positive curNode entry hentry
    have hne : curNode ≠ between.next := Nat.ne_of_lt (hbetween.id_lt hentry)
    obtain ⟨after, hafter⟩ : ∃ after, after = made.set curNode
        { parentEntry with references := parentEntry.references - 1 } := ⟨_, rfl⟩
    have hrelease : directoryEntryRelease made curNode = .ok after := by
      rw [hafter]
      exact releaseWith_of_more hparentEntry (by omega)
    refine ⟨some between.next, after, by simp [Vfs.makeLast, hmake, hrelease], ?_⟩
    intro id hlive
    obtain ⟨old, hold⟩ := Option.isSome_iff_exists.mp hlive
    have hgrows := hevolves.grows
    have hlt : id < between.next := Nat.lt_of_lt_of_le (hcached.id_lt hold) hgrows
    -- the walk's handle and the new child cancel out
    have hcount : after.references id = between.references id := by
      rw [hafter]
      by_cases hcur : id = curNode
      · subst hcur
        simp [State.references, State.set, hentry, hreferences]
      · simp [State.references, State.set, hcur, hother id hcur (Nat.ne_of_lt hlt)]
    have hparents : ∀ child, child < between.next →
        after.parentOf child = between.parentOf child := by
      intro child hchild
      rw [hafter]
      by_cases hcur : child = curNode
      · subst hcur
        simp [State.parentOf, State.set, hentry, hsame]
      · simp [State.parentOf, State.set, hcur, hother child hcur (Nat.ne_of_lt hchild)]
    have hnew : after.parentOf between.next = some curNode := by
      rw [hafter]
      simp [State.parentOf, State.set, Ne.symm hne, hchild, hparent]
    have hnextAfter : after.next = between.next + 1 := by
      rw [hafter]
      exact hnext
    have hchildren := State.childrenFrom_of_new hnextAfter hparents hnew hgrows id
    have hhandles := hcached.references_of_handles hbetween hevolves
      (fun other hother => List.mem_cons_of_mem curNode hother) id
    rw [hcount, hchildren]
    by_cases hcur : id = curNode
    · rw [hcur, List.count_cons_self] at hhandles
      rw [if_pos hcur, hcur]
      omega
    · rw [List.count_cons_of_ne (Ne.symm hcur)] at hhandles
      rw [if_neg hcur]
      omega
  · obtain ⟨after, hrelease, hafter, hevolves'⟩ := hbetween.release List.mem_cons_self
    rw [List.erase_cons_head] at hafter
    refine ⟨none, after, by simp [Vfs.makeLast, fsMake, htype, hrelease], ?_⟩
    intro id _
    have hsame := hcached.references_of_same_handles hafter
      (Evolves.trans hcached.fresh hevolves hevolves') (.refl _) id
    rw [hsame.1, hsame.2]
    rfl

/-- A safe walk of `fs_make_path` changes no count but by new entries. -/
theorem Cached.walkMake (hcached : Cached disc base state held) (page : Nat) {between : State}
    (hbetween : Cached disc base between (curNode :: held)) (hevolves : Evolves state between)
    (hat : At between curNode place) (hsafe : MakesSafely disc type place segments) :
    ∃ result after, walkSegments (makeStep disc) (Vfs.makeLast page type) between curNode segments =
        .ok (result, after) ∧
      ∀ id, (state.entries id).isSome →
        after.references id = state.references id + after.childrenFrom state.next id := by
  induction segments generalizing between curNode place with
  | last name =>
      obtain ⟨entry, hentry, hpage⟩ := hat.exists_entry
      obtain ⟨page', hpage', hnames⟩ := hbetween.listed curNode entry hentry
      obtain rfl : place.page = page' := Option.some.inj (hpage.symm.trans hpage')
      exact hcached.makeLast hbetween hevolves hentry fun htype => mt (hnames name).mp (hsafe htype)
  | cons name rest ih =>
      obtain ⟨hup, hrest⟩ := hsafe
      have hstep := hbetween.openStep hat name
      rw [← makeStep_eq hat hup] at hstep
      cases hgoto : place.goto disc name with
      | none =>
          rw [hgoto] at hstep
          obtain ⟨after, hresult, hafter, hevolves'⟩ := hstep
          refine ⟨none, after, by simp [walkSegments, hresult], ?_⟩
          intro id _
          have hsame := hcached.references_of_same_handles hafter
            (Evolves.trans hcached.fresh hevolves hevolves') (.refl _) id
          rw [hsame.1, hsame.2]
          rfl
      | some next =>
          rw [hgoto] at hstep
          obtain ⟨found, moved, hresult, hmoved, hevolves', hatFound⟩ := hstep
          obtain ⟨result, after, hwalk, hcounts⟩ := ih hmoved
            (Evolves.trans hcached.fresh hevolves hevolves') hatFound (hrest next hgoto)
          exact ⟨result, after, by simp [walkSegments, hresult, hwalk], hcounts⟩
  | overrun => exact hsafe.elim

/-- `process_make_path` is clean where its walk is safe, and for the path of the root. -/
theorem Cached.makesCleanly (hcached : Cached disc base state held) {workingDir : Nat} {path : Path}
    (hat : At state (path.start workingDir) place)
    (hsafe : path.chars = [slash] ∨ MakesSafely disc type place (scan path.walked)) :
    MakesCleanly disc page type state workingDir path := by
  by_cases hslash : path.chars = [slash]
  · refine ⟨some fsRoot, state, processPath_root hslash, ?_⟩
    intro id _
    have hsame := hcached.references_of_same_handles hcached (Evolves.refl _) (.refl _) id
    rw [hsame.2]
    rfl
  · obtain ⟨entry, hentry, _⟩ := hat.exists_entry
    have hcounted := (hcached.addReference hentry).2
    have hcount := Evolves.raise hentry
    have hat' := hat.evolve hcount hcounted (hcounted.held _ List.mem_cons_self)
    obtain ⟨result, after, hwalk, hcounts⟩ := hcached.walkMake page hcounted hcount hat'
      (hsafe.resolve_left hslash)
    refine ⟨result, after, ?_, hcounts⟩
    rw [processMakePath, processPath_eq hslash]
    simp only [fsMakePath, Vfs.addReference, State.entry_eq_ok.mpr hentry, ok_bind, pure_eq_ok,
      walkPath_eq_scan, hwalk]

end Make

end PKernel.Vfs
