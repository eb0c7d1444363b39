import PKernel.Filesystem.Mounts

/-! # Counts of mounts

In runs of the calls of `filesystem.c`, and of whatever else changes entries, the
count of a filesystem is the number of entries that it is mounted on, up to the
first step that takes a mount away. No call ever lowers a count.
-/

namespace PKernel.Mounts

open Vfs (Name Entry Stop addReference directoryEntryCreate directoryEntryRelease fsRoot)
open Library.Tally Library.Transition
open Function (update update_eq_self update_of_ne)

variable {driver : Driver} {state next : State} {name : Name} {mountPoint : Nat}
  {node : FilesystemNode} {outcome : Outcome}

/-- The filesystem that is mounted on an entry. -/
def State.mountOf (state : State) (id : Nat) : Option Nat :=
  if state.files.entries id = none then none else state.mountedFs id

/-- The number of mounts of a filesystem. -/
def State.mounts (state : State) (filesystem : Nat) : Nat :=
  tally state.mountOf state.files.next filesystem

/-- Counts are right, and filesystems without a mount can be unregistered. -/
structure MountsCounted (state : State) : Prop where
  counted : ∀ node ∈ state.filesystems, node.mountCount = state.mounts node.id
  unregister : ∀ name, (fsUnregister state name).1 = .ok ↔
    ∃ node ∈ state.filesystems, node.name = name ∧ state.mounts node.id = 0

/-- The state between the calls. -/
structure Sound (state : State) : Prop where
  numbered : ∀ id, state.files.next ≤ id → state.files.entries id = none
  unmounted : ∀ id, state.files.next ≤ id → state.mountedFs id = none
  ids : ∀ node ∈ state.filesystems, node.id < state.nextFilesystem
  nodupIds : (state.filesystems.map FilesystemNode.id).Nodup
  nodupNames : (state.filesystems.map FilesystemNode.name).Nodup
  registered : ∀ id filesystem, state.mountOf id = some filesystem →
    filesystem ∈ state.filesystems.map FilesystemNode.id
  counted : ∀ node ∈ state.filesystems, node.mountCount = state.mounts node.id

/-! ## What the calls return -/

theorem find?_eq_some (hfind : state.find? name = some node) :
    node ∈ state.filesystems ∧ node.name = name := by
  refine ⟨List.mem_of_find?_eq_some hfind, ?_⟩
  simpa using List.find?_some hfind

theorem find?_of_mem (hsound : Sound state) (hmem : node ∈ state.filesystems) :
    state.find? node.name = some node := by
  obtain ⟨found, hfound⟩ := Option.isSome_iff_exists.mp
    (List.find?_isSome (p := fun other => other.name == node.name) |>.mpr ⟨node, hmem, by simp⟩)
  obtain ⟨hfoundMem, hname⟩ := find?_eq_some hfound
  rw [State.find?, hfound]
  exact congrArg some (List.inj_on_of_nodup_map hsound.nodupNames hfoundMem hmem hname)

theorem mountAt_ok (hcall : mountAt driver state node mountPoint = .ok (outcome, next)) :
    ∃ files, Keeps state.files files ∧ files.entries mountPoint ≠ none ∧
      ((driver.result ≠ 0 ∧ next = { state with files }) ∨
        (driver.result = 0 ∧ next = { state with
          files
          mountedFs := update state.mountedFs mountPoint (some node.id)
          filesystems := raise state.filesystems node.id })) := by
  obtain ⟨entry, hentry, hcall⟩ := bind_eq_ok.mp hcall
  obtain ⟨mounted, hmounted, hcall⟩ := bind_eq_ok.mp hcall
  have hset := Keeps.set (entry_live hentry)
    { entry with type := .directory, node := some driver.node }
  have hkeeps := hset.trans (driver.mount_keeps hmounted)
  by_cases hresult : driver.result = 0
  · simp only [hresult, ne_eq, not_true_eq_false, if_false] at hcall
    obtain ⟨files, hlisted, hcall⟩ := bind_eq_ok.mp hcall
    cases hcall
    have hkeeps := hkeeps.trans (driver.list_keeps hlisted)
    exact ⟨files, hkeeps, hkeeps.live _ (entry_live hentry), .inr ⟨hresult, rfl⟩⟩
  · simp only [ne_eq, hresult, not_false_eq_true, if_true, pure_eq_ok, Except.ok.injEq,
      Prod.mk.injEq] at hcall
    exact ⟨mounted, hkeeps, hkeeps.live _ (entry_live hentry), .inl ⟨hresult, hcall.2.symm⟩⟩

theorem fsMountRoot_ok (hcall : fsMountRoot driver state name = .ok (outcome, next)) :
    ∃ files superblock, Keeps state.files files ∧ files.entries fsRoot ≠ none ∧
      (((state.find? name = none ∨ driver.result ≠ 0) ∧
          next = { state with files, superblock }) ∨
        ∃ node, state.find? name = some node ∧ driver.result = 0 ∧ next = { state with
          files, superblock
          mountedFs := update state.mountedFs fsRoot (some node.id)
          filesystems := raise state.filesystems node.id }) := by
  obtain ⟨root, hroot, hcall⟩ := bind_eq_ok.mp hcall
  have hemptied := Keeps.set (entry_live hroot) { root with nodes := [] }
  have hfound : State.find? { state with
      files := state.files.set fsRoot { root with nodes := [] } } name = state.find? name := rfl
  simp only [hfound] at hcall
  cases hfind : state.find? name with
  | none =>
      simp only [hfind, pure_eq_ok, Except.ok.injEq, Prod.mk.injEq] at hcall
      exact ⟨_, state.superblock, hemptied, hemptied.live _ (entry_live hroot),
        .inl ⟨.inl rfl, hcall.2.symm⟩⟩
  | some node =>
      simp only [hfind] at hcall
      obtain ⟨referenced, hreferenced, hcall⟩ := bind_eq_ok.mp hcall
      have hreferenced := hemptied.trans (addReference_keeps hreferenced)
      obtain ⟨files, hkeeps, hlive, ⟨hresult, hnext⟩ | ⟨hresult, hnext⟩⟩ := mountAt_ok hcall
      · exact ⟨files, _, hreferenced.trans hkeeps, hlive, .inl ⟨.inr hresult, hnext⟩⟩
      · exact ⟨files, _, hreferenced.trans hkeeps, hlive, .inr ⟨node, rfl, hresult, hnext⟩⟩

theorem fsMount_ok (hsound : Sound state)
    (hcall : fsMount driver state name mountPoint = .ok (outcome, next)) :
    ∃ files superblock, Keeps state.files files ∧
      (next = { state with files, superblock } ∨
        ∃ node newDirent, state.find? name = some node ∧ state.files.next ≤ newDirent ∧
          files.entries newDirent ≠ none ∧ next = { state with
            files, superblock
            mountedFs := update state.mountedFs newDirent (some node.id)
            filesystems := raise state.filesystems node.id }) := by
  obtain ⟨entry, hentry, hcall⟩ := bind_eq_ok.mp hcall
  by_cases htype : entry.type = .directory
  · simp only [htype, ne_eq, not_true_eq_false, if_false] at hcall
    cases hfind : state.find? name with
    | none =>
        simp only [hfind, pure_eq_ok, Except.ok.injEq, Prod.mk.injEq] at hcall
        exact ⟨_, _, Keeps.refl _, .inl hcall.2.symm⟩
    | some node =>
        simp only [hfind] at hcall
        obtain ⟨referenced, hreferenced, hcall⟩ := bind_eq_ok.mp hcall
        have hreferenced := addReference_keeps hreferenced
        have hcreated := hreferenced.trans (directoryEntryCreate_keeps
          (hreferenced.numbered hsound.numbered) .directory entry.parent entry.parentNode none)
        cases hparent : entry.parent with
        | none => simp [hparent] at hcall
        | some parent =>
            rw [hparent] at hcreated
            simp only [hparent] at hcall
            obtain ⟨parentEntry, hparentEntry, hcall⟩ := bind_eq_ok.mp hcall
            have hpointed := hcreated.trans (Keeps.set (entry_live hparentEntry)
              (parentEntry.setDirent entry.parentNode (some referenced.next)))
            have hnew : update state.mountedFs referenced.next none = state.mountedFs := by
              rw [← hsound.unmounted _ hreferenced.grows, update_eq_self]
            obtain ⟨files, hkeeps, hlive, hnext⟩ := mountAt_ok hcall
            refine ⟨files, update state.superblock referenced.next
              (some ⟨some mountPoint, referenced.next⟩), hpointed.trans hkeeps, ?_⟩
            simp only [directoryEntryCreate, hnew] at hnext
            rcases hnext with ⟨_, hnext⟩ | ⟨_, hnext⟩
            · exact .inl hnext
            · exact .inr ⟨node, referenced.next, rfl, hreferenced.grows, hlive, hnext⟩
  · simp only [ne_eq, htype, not_false_eq_true, if_true, pure_eq_ok, Except.ok.injEq,
      Prod.mk.injEq] at hcall
    exact ⟨_, _, Keeps.refl _, .inl hcall.2.symm⟩

theorem restoreDirent_keeps {files after : Vfs.State} {entry : Entry} {prevDirent : Option Nat}
    (hcall : restoreDirent files entry prevDirent = .ok after) : Keeps files after := by
  unfold restoreDirent at hcall
  cases hparent : entry.parent with
  | none =>
      simp only [hparent, pure_eq_ok] at hcall
      cases hcall
      exact Keeps.refl files
  | some parent =>
      simp only [hparent] at hcall
      obtain ⟨parentEntry, hparentEntry, hcall⟩ := bind_eq_ok.mp hcall
      cases hcall
      exact Keeps.set (entry_live hparentEntry) _

theorem releasePrev_later {files after : Vfs.State} {prevDirent : Option Nat}
    (hcall : releasePrev files prevDirent = .ok after) : Later files after := by
  cases prevDirent with
  | none =>
      simp only [releasePrev, pure_eq_ok] at hcall
      cases hcall
      exact Later.refl files
  | some prev => exact releaseWith_later hcall

theorem fsUnmount_ok (hcall : fsUnmount driver state mountPoint = .ok (outcome, next)) :
    (state.mountOf mountPoint = none ∧ next = state) ∨
      (state.mountOf mountPoint ≠ none ∧ ∃ files superblock, Later state.files files ∧
        next = { state with
          files, superblock, mountedFs := update state.mountedFs mountPoint none }) := by
  obtain ⟨_, hentry, hcall⟩ := bind_eq_ok.mp hcall
  have hmountOf : state.mountOf mountPoint = state.mountedFs mountPoint :=
    if_neg (entry_live hentry)
  by_cases hmounted : state.mountedFs mountPoint = none
  · simp only [hmounted, if_true, pure_eq_ok, Except.ok.injEq, Prod.mk.injEq] at hcall
    exact .inl ⟨hmountOf.trans hmounted, hcall.2.symm⟩
  · simp only [hmounted, if_false] at hcall
    obtain ⟨unmounted, hunmount, hcall⟩ := bind_eq_ok.mp hcall
    obtain ⟨entry, _, hcall⟩ := bind_eq_ok.mp hcall
    split at hcall
    next => simp at hcall
    next superblock _ =>
      obtain ⟨restored, hrestore, hcall⟩ := bind_eq_ok.mp hcall
      obtain ⟨lowered, hlower, hcall⟩ := bind_eq_ok.mp hcall
      obtain ⟨released, hrelease, hcall⟩ := bind_eq_ok.mp hcall
      obtain ⟨_, _, hcall⟩ := bind_eq_ok.mp hcall
      obtain ⟨superblocks, _, hcall⟩ := bind_eq_ok.mp hcall
      cases hcall
      refine .inr ⟨by rwa [hmountOf], released, superblocks, ?_, rfl⟩
      have hrestored := (driver.unmount_later hunmount).trans (restoreDirent_keeps hrestore).toLater
      exact (hrestored.trans (releasePrev_later hlower)).trans (releaseWith_later hrelease)

/-! ## Mounts when entries come and go -/

theorem Sound.mountOf_eq_none (hsound : Sound state) {id : Nat} (hle : state.files.next ≤ id) :
    state.mountOf id = none :=
  if_pos (hsound.numbered id hle)

theorem Sound.mountCounted (hsound : Sound state) : MountsCounted state := by
  refine ⟨hsound.counted, ?_⟩
  intro name
  constructor
  · intro hok
    unfold fsUnregister at hok
    cases hfind : state.find? name with
    | none => simp [hfind] at hok
    | some node =>
        obtain ⟨hmem, hname⟩ := find?_eq_some hfind
        refine ⟨node, hmem, hname, ?_⟩
        by_contra hmounts
        have hpos : 0 < node.mountCount := by
          rw [hsound.counted node hmem]
          exact Nat.pos_of_ne_zero hmounts
        simp [hfind, hpos] at hok
  · rintro ⟨node, hmem, rfl, hnone⟩
    have hzero : node.mountCount = 0 := (hsound.counted node hmem).trans hnone
    simp [fsUnregister, find?_of_mem hsound hmem, hzero]

/-- Nothing is mounted that was not. -/
theorem Sound.mountOf_of_later (hsound : Sound state) {id filesystem : Nat}
    (hmounted : next.mountOf id = some filesystem) (hlater : Later state.files next.files)
    (hmountedFs : next.mountedFs = state.mountedFs) : state.mountOf id = some filesystem := by
  unfold State.mountOf at hmounted ⊢
  by_cases hgone : next.files.entries id = none
  · simp [hgone] at hmounted
  rw [if_neg hgone, hmountedFs] at hmounted
  by_cases hnone : state.files.entries id = none
  · by_cases hlt : id < state.files.next
    · exact absurd (hlater.gone id hlt hnone) hgone
    · simp [hsound.unmounted id (by omega)] at hmounted
  · rw [if_neg hnone, hmounted]

theorem Sound.mountOf_eq (hsound : Sound state) (hlater : Later state.files next.files)
    (hkept : ∀ id, state.mountOf id ≠ none → next.files.entries id ≠ none)
    (hmountedFs : next.mountedFs = state.mountedFs) : next.mountOf = state.mountOf := by
  funext id
  cases hmounted : next.mountOf id with
  | some filesystem => exact (hsound.mountOf_of_later hmounted hlater hmountedFs).symm
  | none =>
      by_contra hne
      have hlive := hkept id (Ne.symm hne)
      unfold State.mountOf at hmounted hne
      rw [if_neg hlive, hmountedFs] at hmounted
      simp [hmounted] at hne

/-- A step that leaves the mounts in place. -/
theorem Sound.move (hsound : Sound state) (hlater : Later state.files next.files)
    (hkept : ∀ id, state.mountOf id ≠ none → next.files.entries id ≠ none)
    (hmountedFs : next.mountedFs = state.mountedFs)
    (hfilesystems : next.filesystems = state.filesystems)
    (hnext : next.nextFilesystem = state.nextFilesystem) : Sound next := by
  have hmountOf := hsound.mountOf_eq hlater hkept hmountedFs
  have hmounts : ∀ filesystem, next.mounts filesystem = state.mounts filesystem := by
    intro filesystem
    rw [State.mounts, hmountOf, tally_extend hlater.grows fun id => hsound.mountOf_eq_none]
    rfl
  refine ⟨hlater.numbered hsound.numbered, ?_, ?_, ?_, ?_, ?_, ?_⟩
  · intro id hle
    rw [hmountedFs]
    exact hsound.unmounted id (Nat.le_trans hlater.grows hle)
  · rw [hfilesystems, hnext]
    exact hsound.ids
  · rw [hfilesystems]
    exact hsound.nodupIds
  · rw [hfilesystems]
    exact hsound.nodupNames
  · rw [hfilesystems, hmountOf]
    exact hsound.registered
  · intro node hmem
    rw [hmounts]
    exact hsound.counted node (hfilesystems ▸ hmem)

theorem live_of_mountOf {id : Nat} (hmounted : state.mountOf id ≠ none) :
    state.files.entries id ≠ none := by
  intro hnone
  exact hmounted (if_pos hnone)

theorem Sound.keeps (hsound : Sound state) {files : Vfs.State} (hkeeps : Keeps state.files files)
    (superblock : Nat → Option Superblock) : Sound { state with files, superblock } :=
  hsound.move hkeeps.toLater (fun id hmounted => hkeeps.live id (live_of_mountOf hmounted)) rfl rfl
    rfl

theorem Sound.mountOf_keeps (hsound : Sound state) {files : Vfs.State}
    (hkeeps : Keeps state.files files) (superblock : Nat → Option Superblock) :
    State.mountOf { state with files, superblock } = state.mountOf :=
  hsound.mountOf_eq hkeeps.toLater (fun id hmounted => hkeeps.live id (live_of_mountOf hmounted))
    rfl

/-! ## New mounts -/

theorem mem_raise {filesystems : List FilesystemNode} {id : Nat} :
    node ∈ raise filesystems id ↔ ∃ before ∈ filesystems, node = { before with
      mountCount := before.mountCount + if before.id = id then 1 else 0 } := by
  simp only [raise, List.mem_map]
  constructor
  · rintro ⟨before, hmem, rfl⟩
    refine ⟨before, hmem, ?_⟩
    split <;> rfl
  · rintro ⟨before, hmem, rfl⟩
    refine ⟨before, hmem, ?_⟩
    split <;> rfl

theorem raise_ids (filesystems : List FilesystemNode) (id : Nat) :
    (raise filesystems id).map FilesystemNode.id = filesystems.map FilesystemNode.id := by
  rw [raise, List.map_map]
  apply List.map_congr_left
  intro before _
  simp only [Function.comp_apply]
  split <;> rfl

theorem raise_names (filesystems : List FilesystemNode) (id : Nat) :
    (raise filesystems id).map FilesystemNode.name = filesystems.map FilesystemNode.name := by
  rw [raise, List.map_map]
  apply List.map_congr_left
  intro before _
  simp only [Function.comp_apply]
  split <;> rfl

/-- `mounted_fs` set and the count raised. -/
def State.place (state : State) (mountPoint filesystem : Nat) : State :=
  { state with
    mountedFs := update state.mountedFs mountPoint (some filesystem)
    filesystems := raise state.filesystems filesystem }

/-- What is mounted after that, with both sides of the balance. -/
theorem Sound.mounts_place (hsound : Sound state)
    (hlive : state.files.entries mountPoint ≠ none) (filesystem other : Nat) :
    (state.place mountPoint filesystem).mounts other +
        (if state.mountOf mountPoint = some other then 1 else 0) =
      state.mounts other + if filesystem = other then 1 else 0 := by
  have hmountOf : (state.place mountPoint filesystem).mountOf =
      update state.mountOf mountPoint (some filesystem) := by
    funext id
    by_cases heq : id = mountPoint
    · subst heq
      simp [State.mountOf, State.place, hlive]
    · simp [State.mountOf, State.place, heq]
  have hlt : mountPoint < state.files.next := by
    by_contra hle
    exact hlive (hsound.numbered mountPoint (by omega))
  have hbalance := tally_update (f := state.mountOf) (a := other) hlt (some filesystem)
  simp only [Option.some.injEq] at hbalance
  rw [State.mounts, hmountOf]
  exact hbalance

theorem Sound.place (hsound : Sound state) (hmem : node ∈ state.filesystems)
    (hlive : state.files.entries mountPoint ≠ none) (hfree : state.mountOf mountPoint = none) :
    Sound (state.place mountPoint node.id) := by
  have hlt : mountPoint < state.files.next := by
    by_contra hle
    exact hlive (hsound.numbered mountPoint (by omega))
  refine ⟨hsound.numbered, ?_, ?_, ?_, ?_, ?_, ?_⟩
  · intro id hle
    have hne : id ≠ mountPoint := by
      have hle : state.files.next ≤ id := hle
      omega
    exact (update_of_ne hne _ _).trans (hsound.unmounted id hle)
  · intro raised hraised
    obtain ⟨before, hbefore, rfl⟩ := mem_raise.mp hraised
    exact hsound.ids before hbefore
  · simpa only [State.place, raise_ids] using hsound.nodupIds
  · simpa only [State.place, raise_names] using hsound.nodupNames
  · intro id filesystem hmounted
    simp only [State.place, raise_ids]
    by_cases heq : id = mountPoint
    · subst heq
      obtain rfl : node.id = filesystem := by
        simpa [State.mountOf, State.place, hlive] using hmounted
      exact List.mem_map_of_mem hmem
    · exact hsound.registered id filesystem (by
        simpa [State.mountOf, State.place, heq] using hmounted)
  · intro raised hraised
    obtain ⟨before, hbefore, rfl⟩ := mem_raise.mp hraised
    have hcount := hsound.counted before hbefore
    have hbalance := hsound.mounts_place hlive node.id before.id
    simp only [hfree, reduceCtorEq, if_false, Nat.add_zero, eq_comm (a := node.id)] at hbalance
    simp only [hbalance, hcount]

/-- A mount in the place of another one is counted in addition to it. -/
theorem Sound.place_not_counted (hsound : Sound state)
    (hlive : state.files.entries mountPoint ≠ none) (hmounted : state.mountOf mountPoint ≠ none)
    (filesystem : Nat) : ¬ MountsCounted (state.place mountPoint filesystem) := by
  intro hcounted
  obtain ⟨old, hold⟩ := Option.ne_none_iff_exists'.mp hmounted
  obtain ⟨before, hbefore, rfl⟩ := List.mem_map.mp (hsound.registered mountPoint old hold)
  have hafter := hcounted.counted _ (mem_raise.mpr ⟨before, hbefore, rfl⟩)
  have hbalance := hsound.mounts_place hlive filesystem before.id
  have hcount := hsound.counted before hbefore
  simp only [hold, if_true, eq_comm (a := filesystem)] at hbalance hafter
  omega

/-- A mount that goes away is counted as before. -/
theorem Sound.gone_not_counted (hsound : Sound state) (hgrows : state.files.next ≤ next.files.next)
    (hfilesystems : next.filesystems = state.filesystems)
    (hkept : ∀ id filesystem, next.mountOf id = some filesystem →
      state.mountOf id = some filesystem)
    (hmounted : state.mountOf mountPoint ≠ none) (hgone : next.mountOf mountPoint = none) :
    ¬ MountsCounted next := by
  intro hcounted
  obtain ⟨filesystem, hfilesystem⟩ := Option.ne_none_iff_exists'.mp hmounted
  obtain ⟨node, hnode, rfl⟩ :=
    List.mem_map.mp (hsound.registered mountPoint filesystem hfilesystem)
  have hlt : mountPoint < next.files.next := by
    by_contra hle
    exact hmounted (hsound.mountOf_eq_none (by omega))
  have hfewer : next.mounts node.id < tally state.mountOf next.files.next node.id :=
    tally_lt (fun id _ => hkept id node.id) hlt hfilesystem (by simp [hgone])
  rw [tally_extend hgrows fun id => hsound.mountOf_eq_none] at hfewer
  have hbefore := hsound.counted node hnode
  have hafter := hcounted.counted node (hfilesystems ▸ hnode)
  exact absurd (hafter.symm.trans hbefore) (Nat.ne_of_lt hfewer)

/-! ## Registration -/

theorem Sound.register (hsound : Sound state) (name : Name) : Sound (fsRegister state name).2 := by
  unfold fsRegister
  cases hfind : state.find? name with
  | some node => exact hsound
  | none =>
      have hid : ∀ node ∈ state.filesystems, node.id ≠ state.nextFilesystem :=
        fun node hmem => Nat.ne_of_lt (hsound.ids node hmem)
      have hname : ∀ node ∈ state.filesystems, node.name ≠ name := by
        simpa [State.find?] using hfind
      refine ⟨hsound.numbered, hsound.unmounted, ?_, ?_, ?_, ?_, ?_⟩
      · intro node hmem
        rcases List.mem_cons.mp hmem with rfl | hmem
        · exact Nat.lt_succ_self _
        · exact Nat.lt_succ_of_lt (hsound.ids node hmem)
      · simpa using ⟨hid, hsound.nodupIds⟩
      · simpa using ⟨hname, hsound.nodupNames⟩
      · intro id filesystem hmounted
        exact List.mem_cons_of_mem _ (hsound.registered id filesystem hmounted)
      · intro node hmem
        rcases List.mem_cons.mp hmem with rfl | hmem
        · -- nothing is mounted yet with the new number
          refine (tally_eq_zero_iff.mpr ?_).symm
          intro id _ hmounted
          obtain ⟨node, hnode, heq⟩ := List.mem_map.mp (hsound.registered id _ hmounted)
          exact hid node hnode heq
        · exact hsound.counted node hmem

theorem Sound.unregister (hsound : Sound state) (name : Name) :
    Sound (fsUnregister state name).2 := by
  unfold fsUnregister
  cases hfind : state.find? name with
  | none => exact hsound
  | some node =>
      by_cases hmounts : 0 < node.mountCount
      · simpa only [hmounts, if_true] using hsound
      simp only [hmounts, if_false]
      have hsublist : (state.filesystems.filter fun other => other.id ≠ node.id).Sublist
        state.filesystems := List.filter_sublist
      refine ⟨hsound.numbered, hsound.unmounted, ?_, ?_, ?_, ?_, ?_⟩
      · intro other hmem
        exact hsound.ids other (hsublist.subset hmem)
      · exact hsound.nodupIds.sublist (hsublist.map _)
      · exact hsound.nodupNames.sublist (hsublist.map _)
      · intro id filesystem hmounted
        obtain ⟨other, hother, rfl⟩ := List.mem_map.mp (hsound.registered id filesystem hmounted)
        refine List.mem_map_of_mem (List.mem_filter.mpr ⟨hother, ?_⟩)
        have hzero : state.mounts node.id = 0 := by
          rw [← hsound.counted node (find?_eq_some hfind).1]
          exact Nat.eq_zero_of_not_pos hmounts
        have hlt : id < state.files.next := by
          by_contra hle
          have hnone : state.mountOf id = none := hsound.mountOf_eq_none (by omega)
          exact absurd (hnone.symm.trans hmounted) (by simp)
        have hne : other.id ≠ node.id := by
          intro heq
          exact tally_eq_zero_iff.mp hzero id hlt (heq ▸ hmounted)
        simpa using hne
      · intro other hmem
        exact hsound.counted other (hsublist.subset hmem)

/-! ## Runs -/

inductive Call where
  | register (name : Name)
  | unregister (name : Name)
  | mountRoot (driver : Driver) (name : Name)
  | mount (driver : Driver) (name : Name) (mountPoint : Nat)
  | unmount (driver : Driver) (mountPoint : Nat)

def Call.perform (state : State) : Call → Except Stop (Outcome × State)
  | register name => return fsRegister state name
  | unregister name => return fsUnregister state name
  | mountRoot driver name => fsMountRoot driver state name
  | mount driver name mountPoint => fsMount driver state name mountPoint
  | unmount driver mountPoint => fsUnmount driver state mountPoint

/-- A call, or what the rest of the kernel does with entries: `mounted_fs` is written
by the calls alone. -/
inductive Action where
  | call (call : Call)
  | others (files : Vfs.State) (superblock : Nat → Option Superblock)

inductive Step : State → Action → State → Prop
  | call {state next : State} {call : Call} {outcome : Outcome}
      (hreturn : call.perform state = .ok (outcome, next)) : Step state (.call call) next
  | others {state : State} {files : Vfs.State} {superblock : Nat → Option Superblock}
      (hlater : Later state.files files) :
      Step state (.others files superblock) { state with files, superblock }

/-- Runs from `fs_init` on. -/
def mountSystem : System State Action where
  init state := state = fsInit
  step := Step

/-- The steps after which there is one mount less, or another in its place: `fs_unmount`
of a mount, `fs_mount_root` over a mounted root, and the end of an entry that a
filesystem is mounted on. -/
def Taking (state : State) : Action → Prop
  | .call (.unmount _ mountPoint) => state.mountOf mountPoint ≠ none
  | .call (.mountRoot driver name) => state.mountOf fsRoot ≠ none ∧
      (∃ node ∈ state.filesystems, node.name = name) ∧ driver.result = 0
  | .call _ => False
  | .others files _ => ∃ id, state.mountOf id ≠ none ∧ files.entries id = none

variable {action : Action}

theorem fsMountRoot_counted (hsound : Sound state)
    (hcall : fsMountRoot driver state name = .ok (outcome, next)) :
    (Taking state (.call (.mountRoot driver name)) ∧ ¬ MountsCounted next) ∨
      (¬ Taking state (.call (.mountRoot driver name)) ∧ Sound next) := by
  obtain ⟨files, superblock, hkeeps, hlive, ⟨hfailed, rfl⟩ | ⟨node, hfind, hresult, rfl⟩⟩ :=
    fsMountRoot_ok hcall
  · refine .inr ⟨?_, hsound.keeps hkeeps superblock⟩
    rintro ⟨_, ⟨node, hmem, rfl⟩, hresult⟩
    rcases hfailed with hnone | hfailed
    · simp [find?_of_mem hsound hmem] at hnone
    · exact hfailed hresult
  · obtain ⟨hmem, hname⟩ := find?_eq_some hfind
    have hbetween := hsound.keeps hkeeps superblock
    have hmountOf := congrFun (hsound.mountOf_keeps hkeeps superblock) fsRoot
    by_cases hmounted : state.mountOf fsRoot = none
    · exact .inr ⟨fun htaking => htaking.1 hmounted,
        hbetween.place hmem hlive (hmountOf.trans hmounted)⟩
    · exact .inl ⟨⟨hmounted, ⟨node, hmem, hname⟩, hresult⟩,
        hbetween.place_not_counted hlive (by rwa [hmountOf]) node.id⟩

theorem fsMount_sound (hsound : Sound state)
    (hcall : fsMount driver state name mountPoint = .ok (outcome, next)) : Sound next := by
  obtain ⟨files, superblock, hkeeps, rfl | ⟨node, newDirent, hfind, hnew, hlive, rfl⟩⟩ :=
    fsMount_ok hsound hcall
  · exact hsound.keeps hkeeps superblock
  · have hmountOf := congrFun (hsound.mountOf_keeps hkeeps superblock) newDirent
    exact (hsound.keeps hkeeps superblock).place (find?_eq_some hfind).1 hlive
      (hmountOf.trans (hsound.mountOf_eq_none hnew))

theorem fsUnmount_counted (hsound : Sound state)
    (hcall : fsUnmount driver state mountPoint = .ok (outcome, next)) :
    (Taking state (.call (.unmount driver mountPoint)) ∧ ¬ MountsCounted next) ∨
      (¬ Taking state (.call (.unmount driver mountPoint)) ∧ Sound next) := by
  obtain ⟨hnone, rfl⟩ | ⟨hmounted, files, superblock, hlater, rfl⟩ := fsUnmount_ok hcall
  · exact .inr ⟨fun htaking => htaking hnone, hsound⟩
  · have hgone : State.mountOf { state with
        files, superblock, mountedFs := update state.mountedFs mountPoint none }
        mountPoint = none := by simp [State.mountOf]
    refine .inl ⟨hmounted, hsound.gone_not_counted hlater.grows rfl ?_ hmounted hgone⟩
    intro id filesystem hleft
    by_cases heq : id = mountPoint
    · subst heq
      simp [hgone] at hleft
    · have hkept : State.mountOf { state with files, superblock } id = some filesystem := by
        simpa [State.mountOf, heq] using hleft
      exact hsound.mountOf_of_later hkept hlater rfl

theorem others_counted (hsound : Sound state) {files : Vfs.State}
    {superblock : Nat → Option Superblock} (hlater : Later state.files files) :
    (Taking state (.others files superblock) ∧
        ¬ MountsCounted { state with files, superblock }) ∨
      (¬ Taking state (.others files superblock) ∧ Sound { state with files, superblock }) := by
  by_cases htaking : Taking state (.others files superblock)
  · obtain ⟨id, hmounted, hgone⟩ := htaking
    refine .inl ⟨⟨id, hmounted, hgone⟩, hsound.gone_not_counted hlater.grows rfl ?_ hmounted
      (if_pos hgone)⟩
    intro id filesystem hleft
    exact hsound.mountOf_of_later hleft hlater rfl
  · refine .inr ⟨htaking, hsound.move hlater ?_ rfl rfl rfl⟩
    intro id hmounted hgone
    exact htaking ⟨id, hmounted, hgone⟩

/-- One step: it takes a mount away, or it keeps the counts right. -/
theorem step_counted (hsound : Sound state) (hstep : Step state action next) :
    (Taking state action ∧ ¬ MountsCounted next) ∨ (¬ Taking state action ∧ Sound next) := by
  cases hstep with
  | others hlater => exact others_counted hsound hlater
  | @call _ call _ hreturn =>
      cases call with
      | register name =>
          simp only [Call.perform, pure_eq_ok, Except.ok.injEq] at hreturn
          have hregistered := hsound.register name
          rw [hreturn] at hregistered
          exact .inr ⟨fun htaking => htaking, hregistered⟩
      | unregister name =>
          simp only [Call.perform, pure_eq_ok, Except.ok.injEq] at hreturn
          have hunregistered := hsound.unregister name
          rw [hreturn] at hunregistered
          exact .inr ⟨fun htaking => htaking, hunregistered⟩
      | mountRoot driver name => exact fsMountRoot_counted hsound hreturn
      | mount driver name mountPoint =>
          exact .inr ⟨fun htaking => htaking, fsMount_sound hsound hreturn⟩
      | unmount driver mountPoint => exact fsUnmount_counted hsound hreturn

theorem sound_fsInit : Sound fsInit := by
  have hnumbered : ∀ id, 1 ≤ id → fsInit.files.entries id = none := by
    intro id hle
    have hne : id ≠ fsRoot := Nat.ne_of_gt hle
    simp [fsInit, hne]
  have hmountOf : ∀ id, fsInit.mountOf id = none := by
    intro id
    unfold State.mountOf
    split <;> rfl
  refine ⟨hnumbered, fun _ _ => rfl, by simp [fsInit], by simp [fsInit], by simp [fsInit], ?_,
    by simp [fsInit]⟩
  intro id filesystem hmounted
  simp [hmountOf] at hmounted

theorem sound_of_reachable
    (hreach : (mountSystem.restrict fun state action => ¬ Taking state action).Reachable state) :
    Sound state := by
  apply hreach.invariant
  constructor
  · rintro state rfl
    exact sound_fsInit
  · rintro state action next hsound ⟨hnot, hstep⟩
    rcases step_counted hsound hstep with ⟨htaking, _⟩ | ⟨_, hnext⟩
    · exact absurd htaking hnot
    · exact hnext

/-- As long as no step takes a mount away the counts are right, and the first step that
does makes them wrong. -/
theorem mounts_counted
    (hreach : (mountSystem.restrict fun state action => ¬ Taking state action).Reachable state) :
    MountsCounted state ∧ ∀ action next, mountSystem.step state action next →
      (MountsCounted next ↔ ¬ Taking state action) := by
  have hsound := sound_of_reachable hreach
  refine ⟨hsound.mountCounted, ?_⟩
  intro action next hstep
  rcases step_counted hsound hstep with ⟨htaking, hwrong⟩ | ⟨hnot, hnext⟩
  · exact ⟨fun hcounted => absurd hcounted hwrong, fun hnot => absurd htaking hnot⟩
  · exact ⟨fun _ => hnot, fun _ => hnext.mountCounted⟩

/-! ## The root, mounted and unmounted -/

/-- The functions of `ramfs`: its `list` takes a reference. -/
def ramfs : Driver where
  node := 1
  result := 0
  mount files _ := return files
  list := addReference
  unmount files _ := return files
  mount_keeps := by
    intro files after mountPoint hcall
    exact Except.ok.inj hcall ▸ Keeps.refl files
  list_keeps := addReference_keeps
  unmount_later := by
    intro files after mountPoint hcall
    exact Except.ok.inj hcall ▸ Later.refl files

/-- "ramfs" -/
def ramfsName : Name := [0x72, 0x61, 0x6d, 0x66, 0x73]

theorem step_register : Step fsInit (.call (.register ramfsName))
    (fsRegister fsInit ramfsName).2 :=
  .call rfl

/-- With `ramfs` registered and mounted as the root. -/
theorem mounts_counted_root : ∃ mounted outcome,
    fsMountRoot ramfs (fsRegister fsInit ramfsName).2 ramfsName = .ok (outcome, mounted) ∧
      MountsCounted mounted ∧ ∀ action next, mountSystem.step mounted action next →
        (MountsCounted next ↔ ¬ Taking mounted action) := by
  have hcall : ∃ mounted outcome,
      fsMountRoot ramfs (fsRegister fsInit ramfsName).2 ramfsName = .ok (outcome, mounted) :=
    ⟨_, _, rfl⟩
  obtain ⟨mounted, outcome, hcall⟩ := hcall
  have hstep : Step (fsRegister fsInit ramfsName).2 (.call (.mountRoot ramfs ramfsName)) mounted :=
    .call hcall
  have hregister : ¬ Taking fsInit (.call (.register ramfsName)) := fun htaking => htaking
  have hmount : ¬ Taking (fsRegister fsInit ramfsName).2 (.call (.mountRoot ramfs ramfsName)) := by
    rintro ⟨hmounted, _⟩
    exact hmounted rfl
  exact ⟨mounted, outcome, hcall, mounts_counted
    (.step (.step (.init rfl) ⟨hregister, step_register⟩) ⟨hmount, hstep⟩)⟩

/-- After `fs_unmount` of the root the count is still 1, and `ramfs` cannot be unregistered. -/
theorem unmount_root_not_counted : ∃ state, mountSystem.Reachable state ∧
    state.filesystems = [⟨0, ramfsName, 1⟩] ∧ state.mounts 0 = 0 ∧
      (fsUnregister state ramfsName).1 = .filesystemHasMount ∧ ¬ MountsCounted state := by
  have hcalls : ∃ mounted unmounted first second,
      fsMountRoot ramfs (fsRegister fsInit ramfsName).2 ramfsName = .ok (first, mounted) ∧
      fsUnmount ramfs mounted fsRoot = .ok (second, unmounted) ∧
      unmounted.filesystems = [⟨0, ramfsName, 1⟩] ∧ unmounted.mounts 0 = 0 ∧
      (fsUnregister unmounted ramfsName).1 = .filesystemHasMount :=
    ⟨_, _, _, _, rfl, rfl, rfl, rfl, rfl⟩
  obtain ⟨mounted, unmounted, first, second, hmount, hunmount, hnodes, hmounts, hrefused⟩ := hcalls
  have hmountStep : Step (fsRegister fsInit ramfsName).2 (.call (.mountRoot ramfs ramfsName))
      mounted := .call hmount
  have hunmountStep : Step mounted (.call (.unmount ramfs fsRoot)) unmounted := .call hunmount
  have hreach : mountSystem.Reachable unmounted :=
    .step (.step (.step (.init rfl) step_register) hmountStep) hunmountStep
  refine ⟨unmounted, hreach, hnodes, hmounts, hrefused, ?_⟩
  intro hcounted
  have hcount := hcounted.counted ⟨0, ramfsName, 1⟩ (by simp [hnodes])
  simp [hmounts] at hcount

end PKernel.Mounts
