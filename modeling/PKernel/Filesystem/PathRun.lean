import PKernel.Filesystem.PathReferences

/-! # Runs of path calls

A process opens paths, closes what it opened and changes its working directory.
Whenever it has the same handles as at the start, all counts are what they were.
-/

namespace PKernel.Vfs

open Library.Transition

/-- What a process has: its working directory and the entries that it has opened. -/
structure Session where
  state : State
  workingDir : Nat
  opened : List Nat

/-- `process_set_working_dir`. -/
def processSetWorkingDir (session : Session) (dirent : Nat) : Except Stop Session := do
  let state ← directoryEntryRelease session.state session.workingDir
  return { session with state, workingDir := dirent }

/-- `syscall_chdir`, with the path in kernel memory. -/
def syscallChdir (disc : Disc) (session : Session) (path : Path) : Except Stop Session := do
  match ← processOpenPath disc session.state session.workingDir path with
  | (none, state) => return { session with state }
  | (some node, state) =>
      if (← state.entry node).type ≠ .directory then
        return { session with state := ← directoryEntryRelease state node }
      else processSetWorkingDir { session with state } node

inductive Call where
  | openPath (path : Path)
  | close (dirent : Nat)
  | chdir (path : Path)

section Runs

variable (disc : Disc)

/-- The paths are clean, and what is closed was opened. -/
def Call.Permitted (session : Session) : Call → Prop
  | openPath path => path.Clean
  | close dirent => dirent ∈ session.opened
  | chdir path => path.Clean

/-- One call. -/
def Call.perform (session : Session) : Call → Except Stop Session
  | openPath path => do
      let (found, state) ← processOpenPath disc session.state session.workingDir path
      return { session with state, opened := found.toList ++ session.opened }
  | close dirent => do
      let state ← directoryEntryRelease session.state dirent
      return { session with state, opened := session.opened.erase dirent }
  | chdir path => syscallChdir disc session path

/-- Runs from a given start. -/
def sessionSystem (start : Session) : System Session Call where
  init session := session = start
  step session call next := call.Permitted session ∧ call.perform disc session = .ok next

end Runs

/-- The handles of a process. -/
def Session.handles (session : Session) : List Nat := session.workingDir :: session.opened

/-- The cache is consistent with the handles of the process and those of others, and has
come from where it started. -/
structure SessionInvariant (disc : Disc) (base : Nat → Nat) (others : List Nat) (start : Session)
    (session : Session) : Prop where
  cached : Cached disc base session.state (session.handles ++ others)
  evolves : Evolves start.state session.state

section Invariant

variable {disc : Disc} {base : Nat → Nat} {others : List Nat} {start session : Session}

namespace SessionInvariant

/-- What a call leads to. -/
theorem extend (hinvariant : SessionInvariant disc base others start session)
    (hfresh : ∀ id, start.state.next ≤ id → start.state.entries id = none) {next : Session}
    (hcached : Cached disc base next.state (next.handles ++ others))
    (hevolves : Evolves session.state next.state) :
    SessionInvariant disc base others start next :=
  ⟨hcached, Evolves.trans hfresh hinvariant.evolves hevolves⟩

/-- A clean path is opened, with one more handle if there is an entry. -/
theorem openPath (hinvariant : SessionInvariant disc base others start session)
    (hroot : fsRoot ∈ others) {path : Path} (hclean : path.Clean) : ∃ result after,
      processOpenPath disc session.state session.workingDir path = .ok (result, after) ∧
      Cached disc base after (result.toList ++ (session.handles ++ others)) ∧
      Evolves session.state after :=
  hinvariant.cached.opensCleanly
    (hinvariant.cached.held fsRoot (List.mem_append_right _ hroot))
    (hinvariant.cached.held session.workingDir (List.mem_append_left _ List.mem_cons_self)) hclean

theorem chdir (hinvariant : SessionInvariant disc base others start session)
    (hfresh : ∀ id, start.state.next ≤ id → start.state.entries id = none)
    (hroot : fsRoot ∈ others) {path : Path} (hclean : path.Clean) :
    ∃ next, syscallChdir disc session path = .ok next ∧
      SessionInvariant disc base others start next := by
  have hfreshSession := hinvariant.cached.fresh
  obtain ⟨result, after, hopen, hafter, hevolves⟩ := hinvariant.openPath hroot hclean
  cases result with
  | none =>
      exact ⟨{ session with state := after }, by simp [syscallChdir, hopen],
        hinvariant.extend hfresh hafter hevolves⟩
  | some node =>
      obtain ⟨entry, hentry⟩ := Option.isSome_iff_exists.mp (hafter.held node List.mem_cons_self)
      by_cases htype : entry.type = .directory
      · -- the handle on the old directory goes, and that on the new one takes its place
        have hswap : (node :: (session.handles ++ others)).Perm
            (session.workingDir :: node :: (session.opened ++ others)) := List.Perm.swap _ _ _
        obtain ⟨released, hrelease, hreleased, hevolves'⟩ :=
          (hafter.perm hswap).release List.mem_cons_self
        rw [List.erase_cons_head] at hreleased
        refine ⟨⟨released, node, session.opened⟩, ?_, hinvariant.extend hfresh hreleased
          (Evolves.trans hfreshSession hevolves hevolves')⟩
        simp [syscallChdir, hopen, State.entry_eq_ok.mpr hentry, htype, processSetWorkingDir,
          hrelease]
      · obtain ⟨released, hrelease, hreleased, hevolves'⟩ := hafter.release List.mem_cons_self
        rw [Option.toList_some, List.singleton_append, List.erase_cons_head] at hreleased
        refine ⟨{ session with state := released }, ?_, hinvariant.extend hfresh hreleased
          (Evolves.trans hfreshSession hevolves hevolves')⟩
        simp [syscallChdir, hopen, State.entry_eq_ok.mpr hentry, htype, hrelease]

/-- Every call returns and keeps the invariant. -/
theorem perform (hinvariant : SessionInvariant disc base others start session)
    (hfresh : ∀ id, start.state.next ≤ id → start.state.entries id = none)
    (hroot : fsRoot ∈ others) {call : Call} (hpermitted : call.Permitted session) :
    ∃ next, call.perform disc session = .ok next ∧
      SessionInvariant disc base others start next := by
  cases call with
  | openPath path =>
      obtain ⟨result, after, hopen, hafter, hevolves⟩ := hinvariant.openPath hroot hpermitted
      refine ⟨⟨after, session.workingDir, result.toList ++ session.opened⟩,
        by simp [Call.perform, hopen], hinvariant.extend hfresh (hafter.perm ?_) hevolves⟩
      rw [← List.append_assoc]
      exact List.Perm.append_right others List.perm_middle
  | close dirent =>
      have hmem : dirent ∈ session.opened := hpermitted
      have hperm : (session.handles ++ others).Perm
          (dirent :: (session.workingDir :: session.opened.erase dirent) ++ others) :=
        (((List.perm_cons_erase hmem).cons session.workingDir).trans
          (List.Perm.swap _ _ _)).append_right others
      obtain ⟨after, hrelease, hafter, hevolves⟩ :=
        (hinvariant.cached.perm hperm).release List.mem_cons_self
      rw [List.cons_append, List.erase_cons_head] at hafter
      exact ⟨⟨after, session.workingDir, session.opened.erase dirent⟩,
        by simp [Call.perform, hrelease], hinvariant.extend hfresh hafter hevolves⟩
  | chdir path => exact hinvariant.chdir hfresh hroot hpermitted

end SessionInvariant

theorem sessionInvariant_inductive
    (hcached : Cached disc base start.state (start.handles ++ others)) (hroot : fsRoot ∈ others) :
    (sessionSystem disc start).Inductive (SessionInvariant disc base others start) where
  init session hinit := by
    obtain rfl : session = start := hinit
    exact ⟨hcached, Evolves.refl _⟩
  step session call next hinvariant hstep := by
    obtain ⟨next', hperform, hnext⟩ := hinvariant.perform hcached.fresh hroot hstep.1
    rwa [← Except.ok.inj (hperform.symm.trans hstep.2)]

/-- In every run of clean paths each call returns, and with the handles of the start come
the counts of the start. -/
theorem session_balanced (hcached : Cached disc base start.state (start.handles ++ others))
    (hroot : fsRoot ∈ others) (hreach : (sessionSystem disc start).Reachable session) :
    (∀ call : Call, call.Permitted session → ∃ next, call.perform disc session = .ok next) ∧
    (session.handles.Perm start.handles →
      ∀ id, session.state.references id = start.state.references id) := by
  have hinvariant := hreach.invariant (sessionInvariant_inductive hcached hroot)
  constructor
  · intro call hpermitted
    obtain ⟨next, hperform, _⟩ := hinvariant.perform hcached.fresh hroot hpermitted
    exact ⟨next, hperform⟩
  · intro hperm id
    exact (hcached.references_of_same_handles hinvariant.cached hinvariant.evolves
      (hperm.symm.append_right others) id).1

end Invariant

/-- Which references path calls leave. `process_open_path` is clean for clean paths and no
others; `process_make_path` is clean where its walk is safe; and calls on clean paths
that are matched bring all counts back. -/
theorem path_references (path : Path) :
    ((∀ disc base state held workingDir, Cached disc base state held →
        (state.entries fsRoot).isSome → (state.entries workingDir).isSome →
        OpensCleanly disc state workingDir path) ↔ path.Clean) ∧
    (∀ disc base state held workingDir place page type, Cached disc base state held →
      At state (path.start workingDir) place →
      (path.chars = [slash] ∨ MakesSafely disc type place (scan path.walked)) →
      MakesCleanly disc page type state workingDir path) ∧
    (∀ disc base others start, Cached disc base start.state (start.handles ++ others) →
      fsRoot ∈ others → ∀ session, (sessionSystem disc start).Reachable session →
      (∀ call : Call, call.Permitted session → ∃ next, call.perform disc session = .ok next) ∧
      (session.handles.Perm start.handles →
        ∀ id, session.state.references id = start.state.references id)) := by
  refine ⟨opensCleanly_iff path, ?_, ?_⟩
  · intro disc base state held workingDir place page type hcached hat hsafe
    exact hcached.makesCleanly hat hsafe
  · intro disc base others start hcached hroot session hreach
    exact session_balanced hcached hroot hreach

/-- In a tree with one directory `a`: it is opened, `a/b` is made, and a process that opens `a` and
closes it leaves the counts as they were. -/
theorem path_references_oneDirectory :
    OpensCleanly oneDirectory (mounted oneDirectory 0) fsRoot ⟨[97], by decide⟩ ∧
    MakesCleanly oneDirectory 7 .regular (mounted oneDirectory 0) fsRoot ⟨[97, 47, 98], by decide⟩ ∧
    ∃ start opened closed, start.state.references fsRoot = 3 ∧
      Call.perform oneDirectory start (.openPath ⟨[97], by decide⟩) = .ok opened ∧
      opened.state.references fsRoot = 4 ∧ Call.perform oneDirectory opened (.close 1) = .ok closed ∧
      ∀ id, closed.state.references id = start.state.references id := by
  have hcached := mounted_cached oneDirectory 0
  refine ⟨(path_references _).1.mpr ⟨by decide, by decide⟩ _ _ _ _ _ hcached rfl rfl,
    (path_references _).2.1 _ _ _ _ _ ⟨fsRoot, 0, []⟩ _ _ hcached (.root rfl rfl rfl)
      (.inr ⟨by decide, ?_⟩), ?_⟩
  · intro next hnext
    cases hnext
    exact fun _ => by decide
  · have hcalls : ∃ state opened closed, addReference (mounted oneDirectory 0) fsRoot = .ok state ∧
        state.references fsRoot = 3 ∧
        Call.perform oneDirectory ⟨state, fsRoot, []⟩ (.openPath ⟨[97], by decide⟩) = .ok opened ∧
        opened.state.references fsRoot = 4 ∧ 1 ∈ opened.opened ∧
        Call.perform oneDirectory opened (.close 1) = .ok closed ∧ closed.handles = [fsRoot] :=
      ⟨_, _, _, rfl, rfl, rfl, rfl, by decide, rfl, rfl⟩
    obtain ⟨state, opened, closed, hreference, hstart, hopen, hraised, hmem, hclose, hhandles⟩ := hcalls
    obtain ⟨entry, hentry⟩ := Option.isSome_iff_exists.mp (hcached.held fsRoot List.mem_cons_self)
    obtain ⟨hraise, hheld⟩ := hcached.addReference hentry
    rw [Except.ok.inj (hraise.symm.trans hreference)] at hheld
    have hinit : (sessionSystem oneDirectory ⟨state, fsRoot, []⟩).Reachable ⟨state, fsRoot, []⟩ :=
      .init rfl
    have hreach := (hinit.step ⟨by exact ⟨by decide, by decide⟩, hopen⟩).step ⟨by exact hmem, hclose⟩
    exact ⟨_, opened, closed, hstart, hopen, hraised, hclose,
      ((path_references ⟨[97], by decide⟩).2.2 _ _ [fsRoot] ⟨state, fsRoot, []⟩ hheld
        List.mem_cons_self closed hreach).2 (by rw [hhandles]; rfl)⟩

/-- Opening `/` gives the root without a reference. With `a` open, making `a/../b` adds an
entry below the root, and leaves the count of the root as it was. -/
theorem path_references_lost :
    (∃ after, processOpenPath oneDirectory (mounted oneDirectory 0) fsRoot ⟨[47], by decide⟩ =
        .ok (some fsRoot, after) ∧ after.references fsRoot =
          (mounted oneDirectory 0).references fsRoot) ∧
    ¬ OpensCleanly oneDirectory (mounted oneDirectory 0) fsRoot ⟨[47], by decide⟩ ∧
    ∃ opened after,
      fsOpenPath oneDirectory (mounted oneDirectory 0) fsRoot ⟨[97], by decide⟩ =
        .ok (some 1, opened) ∧
      processMakePath oneDirectory 7 .regular opened fsRoot ⟨[97, 47, 46, 46, 47, 98], by decide⟩ =
        .ok (some 2, after) ∧ opened.references fsRoot = 3 ∧ after.references fsRoot = 3 ∧
      after.childrenFrom opened.next fsRoot = 1 := by
  refine ⟨⟨_, rfl, rfl⟩, ?_, ⟨_, _, rfl, rfl, rfl, rfl, rfl⟩⟩
  rintro ⟨result, after, hresult, hcounts⟩
  cases hresult
  have hroot := hcounts fsRoot
  rw [if_pos rfl] at hroot
  omega

end PKernel.Vfs
