import PKernel.Filesystem.Mounts
import PKernel.Filesystem.Removal
import PKernel.Sockets.UnixSocket

/-! # Calls that take a path

`remove.c`, `mount.c` and `socket_connect` open a path and give up at several places.
For each of them: after which arguments and trees an error, or any return, leaves all
counts as they were.
-/

namespace PKernel.Vfs

open Mounts (Driver)
open State (entry_eq_ok)

/-! ## The calls -/

/-- What `syscall_mount` returns. -/
inductive MountResult where
  | fault
  | noEntry
  | noDevice
  /-- What `fs_mount_root` or `fs_mount` returned. -/
  | mounted (outcome : Mounts.Outcome)
deriving DecidableEq, Repr

/-- The source of `syscall_mount`: an error, or none and the device is released again. -/
def openDevice (disc : Disc) (files : State) (workingDir : Nat) (src : Path) :
    Except Stop (Option MountResult × State) := do
  match ← processOpenPath disc files workingDir src with
  | (none, files) => return (some .noEntry, files)
  | (some dirent, files) =>
      let entry ← files.entry dirent
      if entry.type ≠ .device then return (some .noDevice, files)
      return (none, ← directoryEntryRelease files dirent)

/-- The destination of `syscall_mount`. `fs_mount` reads its mount point even if there
is none. -/
def mountOn (disc : Disc) (driver : Driver) (state : Mounts.State) (workingDir : Nat) (dst : Path)
    (fs : Name) : Except Stop (MountResult × Mounts.State) := do
  if dst.chars = [slash] then
    let (outcome, state) ← Mounts.fsMountRoot driver state fs
    return (.mounted outcome, state)
  else
    match ← processOpenPath disc state.files workingDir dst with
    | (none, _) => throw .badPointer
    | (some dirent, files) =>
        let (outcome, state) ← Mounts.fsMount driver { state with files } fs dirent
        return (.mounted outcome,
          { state with files := ← directoryEntryRelease state.files dirent })

/-- `syscall_mount`. Strings are missing where `process_user_to_kernel` finds none; the
source may be `NULL`. -/
def syscallMount (disc : Disc) (driver : Driver) (state : Mounts.State) (workingDir : Nat)
    (src : Option (Option Path)) :
    Option Path → Option Name → Option Name → Except Stop (MountResult × Mounts.State)
  | some dst, some fs, some _ =>
      match src with
      | none => mountOn disc driver state workingDir dst fs
      | some none => return (.fault, state)
      | some (some src) => do
          match ← openDevice disc state.files workingDir src with
          | (some result, files) => return (result, { state with files })
          | (none, files) => mountOn disc driver { state with files } workingDir dst fs
  | _, _, _ => return (.fault, state)

/-- `socket_domain_t`. -/
inductive SocketDomain where
  | unix
  | other
deriving DecidableEq, Repr

/-- `sockaddr_unix_t`: the bytes of `path`, the last index standing for the byte before
it, and the string that they spell. -/
structure SockaddrUnix where
  bytes : Nat → UInt8
  path : Path
  spells : ∀ i < path.chars.length, path.chars[i]? = some (bytes i)
  ends : bytes path.chars.length = 0

/-- `sockaddr->path[sockaddr_len - 1]`. -/
def SockaddrUnix.lastByte (sockaddr : SockaddrUnix) (len : Nat) : UInt8 :=
  sockaddr.bytes (u64 (len + 2 ^ 64 - 1))

/-- What `socket_connect` returns. -/
inductive ConnectResult where
  | inval
  | noEntry
  | notSocket
  | notSupported
  /-- What `unix_socket_connect` returned, or that its thread sleeps before it returns 0. -/
  | connect (outcome : Sockets.Outcome)
deriving DecidableEq, Repr

/-- `socket_connect` of a thread, for the unix socket `socket`; `socketOf` is the unix
socket of an entry. -/
def socketConnect (disc : Disc) (state : State) (kernel : Sockets.Kernel) (socketOf : Nat → Nat)
    (workingDir thread : Nat) (domain : SocketDomain) (socket : Nat) (sockaddr : SockaddrUnix)
    (len : Nat) : Except Stop (ConnectResult × State × Sockets.Kernel) := do
  if domain ≠ .unix then return (.notSupported, state, kernel)
  if sockaddr.lastByte len ≠ 0 then return (.inval, state, kernel)
  match ← processOpenPath disc state workingDir sockaddr.path with
  | (none, state) => return (.noEntry, state, kernel)
  | (some dirent, state) =>
      let entry ← state.entry dirent
      if entry.type ≠ .socket then return (.notSocket, state, kernel)
      match Sockets.unixSocketConnect kernel thread socket (socketOf dirent) with
      | .error _ => throw .badPointer
      | .ok (outcome, kernel) => return (.connect outcome, state, kernel)

/-! ## Balanced calls -/

/-- Every count is what it was. -/
def Balanced (state after : State) : Prop := ∀ id, after.references id = state.references id

/-- The cache is consistent with the handles, of which the working directory of the
process is one, and the root is a directory. -/
structure Ready (disc : Disc) (base : Nat → Nat) (state : State) (held : List Nat)
    (workingDir : Nat) : Prop where
  cached : Cached disc base state held
  root : ∃ entry, state.entries fsRoot = some entry ∧ entry.parent = none ∧
    entry.type = .directory
  workingDir : workingDir ∈ held

section Ready

variable {disc : Disc} {base : Nat → Nat} {state after : State} {held : List Nat}
  {workingDir found : Nat} {path : Path} {place target : Place}

theorem Balanced.trans {middle : State} (hfirst : Balanced state middle)
    (hsecond : Balanced middle after) : Balanced state after :=
  fun id => (hsecond id).trans (hfirst id)

/-- The same handles, the same counts. -/
theorem Ready.balanced (hready : Ready disc base state held workingDir)
    (hafter : Cached disc base after held) (hevolves : Evolves state after) :
    Balanced state after :=
  fun id => (hready.cached.references_of_same_handles hafter hevolves (.refl _) id).1

/-- One handle more, and the counts differ. -/
theorem Ready.not_balanced (hready : Ready disc base state held workingDir)
    (hafter : Cached disc base after (found :: held)) (hevolves : Evolves state after) :
    ¬ Balanced state after := by
  intro hbalanced
  have hcounts := hready.cached.references_of_handles hafter hevolves
    (fun id hid => List.mem_cons_of_mem found hid) found
  rw [hbalanced found, List.count_cons_self] at hcounts
  omega

theorem Ready.start_live (hready : Ready disc base state held workingDir) (path : Path) :
    (state.entries (path.start workingDir)).isSome := by
  unfold Path.start
  split
  · obtain ⟨entry, hentry, -⟩ := hready.root
    rw [hentry]
    rfl
  · exact hready.cached.held workingDir hready.workingDir

theorem Ready.evolve (hready : Ready disc base state held workingDir) {held' : List Nat}
    (hafter : Cached disc base after held') (hevolves : Evolves state after)
    (hmem : workingDir ∈ held') : Ready disc base after held' workingDir := by
  obtain ⟨entry, hentry, hparent, htype⟩ := hready.root
  obtain ⟨root, hroot⟩ := Option.isSome_iff_exists.mp (hevolves.roots _ entry hentry hparent)
  obtain ⟨hsame, -, hsameType, -⟩ := hevolves.same _ _ _ hentry hroot
  exact ⟨hafter, ⟨root, hroot, hsame.trans hparent, hsameType.trans htype⟩, hmem⟩

theorem At.root_live (hat : At state found place) :
    ∃ entry, state.entries place.root = some entry ∧ entry.parent = none := by
  induction hat with
  | root hentry hparent => exact ⟨_, hentry, hparent⟩
  | child _ _ _ _ _ _ ih => exact ih

/-- The type of what a path leads to stays. -/
theorem LeadsTo.type_eq (hleads : LeadsTo disc state workingDir path target)
    (hevolves : Evolves state after) : target.type after = target.type state := by
  obtain ⟨-, place, hat, hresolve⟩ := hleads
  unfold Place.type
  split
  · obtain ⟨entry, hentry, hparent⟩ := hat.root_live
    rw [resolve_root hresolve]
    obtain ⟨root, hroot⟩ := Option.isSome_iff_exists.mp (hevolves.roots _ entry hentry hparent)
    rw [hentry, hroot, Option.map_some, Option.map_some, (hevolves.same _ _ _ hentry hroot).2.2.1]
  · rfl

/-- Where a path leads does not depend on what is cached. -/
theorem Ready.leadsTo_iff (hready : Ready disc base state held workingDir) {held' : List Nat}
    (hafter : Ready disc base after held' workingDir) (hevolves : Evolves state after) :
    LeadsTo disc after workingDir path target ↔ LeadsTo disc state workingDir path target := by
  obtain ⟨entry, hentry⟩ := Option.isSome_iff_exists.mp (hready.start_live path)
  obtain ⟨place, hat⟩ := hready.cached.exists_at hentry
  have hat' := hat.evolve hevolves hafter.cached (hafter.start_live path)
  constructor
  · rintro ⟨hpath, other, hother, hresolve⟩
    obtain rfl := hat'.unique hother
    exact ⟨hpath, place, hat, hresolve⟩
  · rintro ⟨hpath, other, hother, hresolve⟩
    obtain rfl := hat.unique hother
    exact ⟨hpath, place, hat', hresolve⟩

/-- A path that leads somewhere is opened. -/
theorem Ready.opens (hready : Ready disc base state held workingDir)
    (hleads : LeadsTo disc state workingDir path target) :
    ∃ found entry after, processOpenPath disc state workingDir path = .ok (some found, after) ∧
      after.entries found = some entry ∧ target.type state = some entry.type ∧
      Cached disc base after (found :: held) ∧ Evolves state after ∧ At after found target := by
  obtain ⟨hpath, place, hat, hresolve⟩ := hleads
  obtain ⟨found, after, hresult, hafter, hevolves, hatFound⟩ :=
    hready.cached.fsOpenPath hat hresolve
  obtain ⟨entry, hentry, -⟩ := hatFound.exists_entry
  have htype := LeadsTo.type_eq ⟨hpath, place, hat, hresolve⟩ hevolves
  refine ⟨found, entry, after, ?_, hentry, ?_, hafter, hevolves, hatFound⟩
  · rw [processOpenPath, processPath_eq hpath, hresult]
  · rw [← htype, hatFound.type_eq hentry]

/-- What `process_open_path` returned: the root, nothing, or an entry with one more handle. -/
inductive Opened (disc : Disc) (base : Nat → Nat) (state : State) (held : List Nat)
    (workingDir : Nat) (path : Path) (after : State) : Option Nat → Prop
  | root (hpath : path.chars = [slash]) (hsame : after = state) :
      Opened disc base state held workingDir path after (some fsRoot)
  | none (hcached : Cached disc base after held) (hevolves : Evolves state after)
      (hnowhere : ∀ target, ¬ LeadsTo disc state workingDir path target) :
      Opened disc base state held workingDir path after none
  | found {found : Nat} {target : Place} {entry : Entry}
      (hleads : LeadsTo disc state workingDir path target)
      (hentry : after.entries found = some entry) (htype : target.type state = some entry.type)
      (hcached : Cached disc base after (found :: held)) (hevolves : Evolves state after)
      (hat : At after found target) :
      Opened disc base state held workingDir path after (some found)

theorem Ready.opened (hready : Ready disc base state held workingDir) {result : Option Nat}
    (hcall : processOpenPath disc state workingDir path = .ok (result, after)) :
    Opened disc base state held workingDir path after result := by
  by_cases hpath : path.chars = [slash]
  · rw [processOpenPath, processPath_root hpath] at hcall
    cases hcall
    exact .root hpath rfl
  obtain ⟨hafter, hevolves, hresult⟩ :=
    hready.cached.processOpenPath_ok (hready.start_live path) hpath hcall
  cases result with
  | none => exact .none hafter hevolves hresult
  | some found =>
      obtain ⟨target, hleads, hat⟩ := hresult
      obtain ⟨entry, hentry, -⟩ := hat.exists_entry
      refine .found hleads hentry ?_ hafter hevolves hat
      rw [← hleads.type_eq hevolves, hat.type_eq hentry]

end Ready

/-! ## `syscall_remove` -/

section Remove

variable {disc : Disc} {base : Nat → Nat} {volume after : Volume} {held : List Nat}
  {workingDir id : Nat} {path : Path} {result : RemoveResult}

/-- An error leaves all counts as they were. -/
def RemoveBalances (disc : Disc) (volume : Volume) (workingDir : Nat) (path : Option Path) : Prop :=
  ∀ result after, syscallRemove disc volume workingDir path = .ok (result, after) →
    result ≠ .ok → Balanced volume.state after.state

theorem fsRemove_eq_ok {entry : Entry} (hentry : volume.state.entries id = some entry)
    (htype : entry.type ≠ .directory) (hcall : fsRemove volume id = .ok (result, after)) :
    result = .ok := by
  obtain ⟨found, hfound, hcall⟩ := bind_eq_ok.mp hcall
  cases hentry.symm.trans (entry_eq_ok.mp hfound)
  rw [if_neg (fun hboth => htype hboth.1)] at hcall
  by_cases hnode : entry.node = none
  · simp [hnode] at hcall
  rw [if_neg hnode] at hcall
  obtain ⟨state, -, hcall⟩ := bind_eq_ok.mp hcall
  obtain ⟨released, -, hcall⟩ := bind_eq_ok.mp hcall
  exact (Prod.mk.inj (Except.ok.inj hcall)).1.symm

theorem Ready.remove_balances_iff (hready : Ready disc base volume.state held workingDir) :
    RemoveBalances disc volume workingDir (some path) ↔
      ∀ target, LeadsTo disc volume.state workingDir path target →
        target.type volume.state ≠ some .directory := by
  constructor
  · intro hbalances target hleads htype
    obtain ⟨found, entry, opened, hopen, hentry, hsame, hcached, hevolves, -⟩ := hready.opens hleads
    obtain hdirectory : entry.type = .directory := Option.some.inj (hsame.symm.trans htype)
    refine hready.not_balanced hcached hevolves
      (hbalances .isDirectory { volume with state := opened } ?_ (by simp))
    simp only [syscallRemove, hopen, ok_bind, entry_eq_ok.mpr hentry, if_pos hdirectory,
      pure_eq_ok]
  · intro hfile result after hcall herror
    obtain ⟨⟨found, opened⟩, hopen, hcall⟩ := bind_eq_ok.mp hcall
    cases hready.opened hopen with
    | root hpath hsame =>
        subst hsame
        obtain ⟨entry, hentry, -, htype⟩ := hready.root
        simp only [entry_eq_ok.mpr hentry, ok_bind, if_pos htype, pure_eq_ok,
          Except.ok.injEq, Prod.mk.injEq] at hcall
        obtain ⟨-, rfl⟩ := hcall
        exact fun _ => rfl
    | none hcached hevolves =>
        cases hcall
        exact hready.balanced hcached hevolves
    | @found found target entry hleads hentry htype =>
        have hnot : entry.type ≠ .directory := by
          intro hdirectory
          exact hfile target hleads (htype.trans (congrArg some hdirectory))
        simp only [entry_eq_ok.mpr hentry, ok_bind, if_neg hnot] at hcall
        exact absurd (fsRemove_eq_ok hentry hnot hcall) herror

end Remove

/-! ## `socket_connect` -/

section Connect

variable {disc : Disc} {base : Nat → Nat} {state : State} {held : List Nat}
  {workingDir thread socket len : Nat} {kernel : Sockets.Kernel} {socketOf : Nat → Nat}
  {domain : SocketDomain} {sockaddr : SockaddrUnix}

/-- Every return leaves all counts as they were. -/
def ConnectBalances (disc : Disc) (state : State) (kernel : Sockets.Kernel) (socketOf : Nat → Nat)
    (workingDir thread : Nat) (domain : SocketDomain) (socket : Nat) (sockaddr : SockaddrUnix)
    (len : Nat) : Prop :=
  ∀ result after next, socketConnect disc state kernel socketOf workingDir thread domain socket
    sockaddr len = .ok (result, after, next) → Balanced state after

theorem unixSocketConnect_returns {target : Nat} (hsocket : (kernel.sockets target).isSome) :
    ∃ result, Sockets.unixSocketConnect kernel thread socket target = .ok result := by
  obtain ⟨found, hfound⟩ := Option.isSome_iff_exists.mp hsocket
  have hread : kernel.socket target = .ok found := by rw [Sockets.Kernel.socket, hfound]
  unfold Sockets.unixSocketConnect Sockets.Kernel.modify
  simp only [hread, ok_bind]
  split
  · exact ⟨_, rfl⟩
  · exact ⟨_, rfl⟩

theorem Ready.connect_balances_iff (hready : Ready disc base state held workingDir)
    (hsockets : ∀ dirent, (kernel.sockets (socketOf dirent)).isSome) :
    ConnectBalances disc state kernel socketOf workingDir thread domain socket sockaddr len ↔
      (domain = .unix → sockaddr.lastByte len = 0 →
        ∀ target, ¬ LeadsTo disc state workingDir sockaddr.path target) := by
  constructor
  · rintro hbalances rfl hterminated target hleads
    obtain ⟨found, entry, opened, hopen, hentry, -, hcached, hevolves, -⟩ := hready.opens hleads
    have hleak := hready.not_balanced hcached hevolves
    obtain ⟨⟨outcome, next⟩, hconnect⟩ :=
      @unixSocketConnect_returns thread socket kernel _ (hsockets found)
    by_cases htype : entry.type = .socket
    · refine hleak (hbalances (.connect outcome) opened next ?_)
      simp [socketConnect, hterminated, hopen, entry_eq_ok.mpr hentry, htype, hconnect]
    · refine hleak (hbalances .notSocket opened kernel ?_)
      simp [socketConnect, hterminated, hopen, entry_eq_ok.mpr hentry, htype]
  · intro hnowhere result after next hcall
    unfold socketConnect at hcall
    split at hcall
    · cases hcall
      exact fun _ => rfl
    next hdomain =>
      rw [not_not] at hdomain
      split at hcall
      · cases hcall
        exact fun _ => rfl
      next hterminated =>
        rw [not_not] at hterminated
        obtain ⟨⟨found, opened⟩, hopen, hopened⟩ := bind_eq_ok.mp hcall
        cases hready.opened hopen with
        | root hpath hsame =>
            -- the root is no socket, and its path takes no reference
            subst hsame
            obtain ⟨entry, hentry, -, htype⟩ := hready.root
            have hnot : entry.type ≠ .socket := by simp [htype]
            simp only [entry_eq_ok.mpr hentry, ok_bind, if_pos hnot, pure_eq_ok,
              Except.ok.injEq, Prod.mk.injEq] at hopened
            obtain ⟨-, rfl, -⟩ := hopened
            exact fun _ => rfl
        | none hcached hevolves =>
            cases hopened
            exact hready.balanced hcached hevolves
        | @found found target _ hleads =>
            exact absurd hleads (hnowhere hdomain hterminated target)

end Connect

/-! ## `syscall_mount` -/

section Mount

variable {disc : Disc} {base : Nat → Nat} {driver : Driver} {state after : Mounts.State}
  {held : List Nat} {workingDir : Nat} {src : Option (Option Path)} {dst : Path} {fs data : Name}

/-- An error leaves all counts as they were. -/
def MountBalances (disc : Disc) (driver : Driver) (state : Mounts.State) (workingDir : Nat)
    (src : Option (Option Path)) (dst : Option Path) (fs data : Option Name) : Prop :=
  ∀ result after, syscallMount disc driver state workingDir src dst fs data = .ok (result, after) →
    result ≠ .mounted .ok → Balanced state.files after.files

/-- If the source leads somewhere then to a device. -/
def SourceFits (disc : Disc) (files : State) (workingDir : Nat)
    (src : Option (Option Path)) : Prop :=
  ∀ path, src = some (some path) → ∀ target, LeadsTo disc files workingDir path target →
    target.type files = some .device

/-- There is no source, or it leads to a device. -/
def SourcePasses (disc : Disc) (files : State) (workingDir : Nat)
    (src : Option (Option Path)) : Prop :=
  src = none ∨ ∃ path target, src = some (some path) ∧ LeadsTo disc files workingDir path target ∧
    target.type files = some .device

/-- The filesystem is registered, and the destination is the root or a directory below a root. -/
def MountsOn (disc : Disc) (state : Mounts.State) (workingDir : Nat) (dst : Path) (fs : Name) :
    Prop :=
  (state.find? fs).isSome ∧ (dst.chars = [slash] ∨ ∃ target,
    LeadsTo disc state.files workingDir dst target ∧ target.type state.files = some .directory ∧
      target.trail ≠ [])

theorem references_set {files : State} {id : Nat} {entry changed : Entry}
    (hentry : files.entries id = some entry) (hreferences : changed.references = entry.references) :
    Balanced files (files.set id changed) := by
  intro other
  by_cases hother : other = id
  · subst hother
    simp [State.references, State.set, hentry, hreferences]
  · simp [State.references, State.set, hother]

/-- The mount function is reached, and accepts or refuses. -/
theorem mountAt_outcome {node : Mounts.FilesystemNode} {mountPoint : Nat} {outcome : Mounts.Outcome}
    (hcall : Mounts.mountAt driver state node mountPoint = .ok (outcome, after))
    (haccepts : driver.result = 0) : outcome = .ok := by
  obtain ⟨entry, -, hcall⟩ := bind_eq_ok.mp hcall
  obtain ⟨files, -, hcall⟩ := bind_eq_ok.mp hcall
  rw [if_neg (by simp [haccepts])] at hcall
  obtain ⟨listed, -, hcall⟩ := bind_eq_ok.mp hcall
  exact (Prod.mk.inj (Except.ok.inj hcall)).1.symm

/-- A mount function that refuses leaves the entry that it was given as the mount point. -/
theorem mountAt_refused {node : Mounts.FilesystemNode} {mountPoint : Nat} {entry : Entry}
    (hentry : state.files.entries mountPoint = some entry) (hresult : driver.result ≠ 0)
    (hrefuses : ∀ files mountPoint, driver.mount files mountPoint = .ok files) :
    Mounts.mountAt driver state node mountPoint = .ok (.refused driver.result,
      { state with
        files := state.files.set mountPoint
          { entry with type := .directory, node := some driver.node } }) := by
  unfold Mounts.mountAt
  simp only [entry_eq_ok.mpr hentry, ok_bind, hrefuses, if_pos hresult, pure_eq_ok]

/-- An error of `fs_mount_root` that is not the filesystem's. -/
theorem fsMountRoot_balanced {outcome : Mounts.Outcome}
    (hcall : Mounts.fsMountRoot driver state fs = .ok (outcome, after)) (herror : outcome ≠ .ok)
    (hreaches : driver.result = 0 ∨ state.find? fs = none) : Balanced state.files after.files := by
  obtain ⟨root, hroot, hcall⟩ := bind_eq_ok.mp hcall
  have hfind : Mounts.State.find? { state with
      files := state.files.set fsRoot { root with nodes := [] } } fs = state.find? fs := rfl
  simp only [hfind] at hcall
  cases hname : state.find? fs with
  | none =>
      simp only [hname, pure_eq_ok, Except.ok.injEq, Prod.mk.injEq] at hcall
      obtain ⟨-, rfl⟩ := hcall
      exact references_set (entry_eq_ok.mp hroot) rfl
  | some node =>
      simp only [hname] at hcall
      obtain ⟨files, -, hcall⟩ := bind_eq_ok.mp hcall
      have haccepts := hreaches.resolve_right (by simp [hname])
      exact absurd (mountAt_outcome hcall haccepts) herror

/-- An error of `fs_mount` that is not the filesystem's. -/
theorem fsMount_unchanged {outcome : Mounts.Outcome} {mountPoint : Nat} {entry : Entry}
    (hcall : Mounts.fsMount driver state fs mountPoint = .ok (outcome, after))
    (hentry : state.files.entries mountPoint = some entry) (herror : outcome ≠ .ok)
    (hreaches : driver.result = 0 ∨ state.find? fs = none ∨ entry.type ≠ .directory ∨
      entry.parent = none) : after = state := by
  obtain ⟨found, hfound, hcall⟩ := bind_eq_ok.mp hcall
  cases hentry.symm.trans (entry_eq_ok.mp hfound)
  by_cases htype : entry.type ≠ .directory
  · simp only [if_pos htype, pure_eq_ok, Except.ok.injEq, Prod.mk.injEq] at hcall
    exact hcall.2.symm
  simp only [if_neg htype] at hcall
  cases hname : state.find? fs with
  | none =>
      simp only [hname, pure_eq_ok, Except.ok.injEq, Prod.mk.injEq] at hcall
      exact hcall.2.symm
  | some node =>
      simp only [hname] at hcall
      obtain ⟨files, -, hcall⟩ := bind_eq_ok.mp hcall
      cases hparent : entry.parent with
      | none => simp [hparent] at hcall
      | some parent =>
          simp only [hparent] at hcall
          obtain ⟨parentEntry, -, hcall⟩ := bind_eq_ok.mp hcall
          have haccepts : driver.result = 0 := by
            simpa [hname, not_not.mp htype, hparent] using hreaches
          exact absurd (mountAt_outcome hcall haccepts) herror

/-- `fs_mount_root` of a filesystem that refuses: the reference of the root stays. -/
theorem fsMountRoot_refused {root : Entry} {node : Mounts.FilesystemNode}
    (hroot : state.files.entries fsRoot = some root) (hname : state.find? fs = some node)
    (hresult : driver.result ≠ 0)
    (hrefuses : ∀ files mountPoint, driver.mount files mountPoint = .ok files) :
    ∃ next, Mounts.fsMountRoot driver state fs = .ok (.refused driver.result, next) ∧
      next.files.references fsRoot = root.references + 1 := by
  have hcleared : (state.files.set fsRoot { root with nodes := [] }).entries fsRoot =
      some { root with nodes := [] } := by
    simp [State.set]
  obtain ⟨counted, hcounted⟩ : ∃ counted, counted =
      (state.files.set fsRoot { root with nodes := [] }).set fsRoot
        { root with nodes := [], references := root.references + 1 } := ⟨_, rfl⟩
  have hreference : addReference (state.files.set fsRoot { root with nodes := [] }) fsRoot =
      .ok counted := by
    simp [addReference, entry_eq_ok.mpr hcleared, hcounted]
  have hkept : counted.entries fsRoot =
      some { root with nodes := [], references := root.references + 1 } := by
    simp [hcounted, State.set]
  have hfind : Mounts.State.find? { state with
      files := state.files.set fsRoot { root with nodes := [] } } fs = some node := hname
  unfold Mounts.fsMountRoot
  simp only [entry_eq_ok.mpr hroot, ok_bind, hfind, hreference]
  refine ⟨_, mountAt_refused hkept hresult hrefuses, ?_⟩
  simp [State.references, State.set]

/-- `fs_mount` on a directory, of a filesystem that refuses: the new entry stays. -/
theorem fsMount_refused {mountPoint parent : Nat} {entry parentEntry : Entry}
    {node : Mounts.FilesystemNode} (hentry : state.files.entries mountPoint = some entry)
    (htype : entry.type = .directory) (hname : state.find? fs = some node)
    (hparent : entry.parent = some parent)
    (hparentEntry : state.files.entries parent = some parentEntry) (hne : parent ≠ mountPoint)
    (hlt : parent ≠ state.files.next) (hself : mountPoint ≠ state.files.next)
    (hresult : driver.result ≠ 0)
    (hrefuses : ∀ files mountPoint, driver.mount files mountPoint = .ok files) :
    ∃ next new, Mounts.fsMount driver state fs mountPoint = .ok (.refused driver.result, next) ∧
      next.files.entries mountPoint = some { entry with references := entry.references + 1 } ∧
      next.files.entries state.files.next = some new ∧ new.references = 1 := by
  obtain ⟨above, name, references, type, page, nodes⟩ := entry
  obtain rfl : type = .directory := htype
  obtain rfl : above = some parent := hparent
  obtain ⟨counted, hcounted⟩ : ∃ counted, counted = state.files.set mountPoint
      ⟨some parent, name, references + 1, .directory, page, nodes⟩ := ⟨_, rfl⟩
  have hreference : addReference state.files mountPoint = .ok counted := by
    simp [addReference, entry_eq_ok.mpr hentry, hcounted]
  obtain ⟨made, hmade⟩ : ∃ made, made =
      (directoryEntryCreate counted .directory (some parent) name none).2 := ⟨_, rfl⟩
  have hnext : counted.next = state.files.next := by rw [hcounted]; rfl
  have hlook : made.entries parent = some parentEntry := by
    simp [hmade, hcounted, State.set, directoryEntryCreate, hlt, hne, hparentEntry]
  have hkept : (made.set parent (parentEntry.setDirent name (some counted.next))).entries
      counted.next = some ⟨some parent, name, 1, .directory, none, []⟩ := by
    simp [hmade, State.set, directoryEntryCreate, hnext, Ne.symm hlt]
  have hcreate : directoryEntryCreate counted .directory (some parent) name none =
      (counted.next, made) := by rw [hmade]; rfl
  unfold Mounts.fsMount
  simp only [entry_eq_ok.mpr hentry, ok_bind, ne_eq, not_true_eq_false, if_false, hname,
    hreference, hcreate, entry_eq_ok.mpr hlook]
  refine ⟨_, ⟨some parent, name, 1, .directory, some driver.node, []⟩,
    mountAt_refused hkept hresult hrefuses, ?_, ?_, rfl⟩
  · simp [hmade, hcounted, State.set, directoryEntryCreate, Ne.symm hne, hself]
  · simp only [State.set, hnext, Function.update_self]

theorem At.parent_eq_none_iff {files : State} {id : Nat} {place : Place} {entry : Entry}
    (hat : At files id place) (hentry : files.entries id = some entry) :
    entry.parent = none ↔ place.trail = [] := by
  cases hat with
  | root hentry' hparent =>
      cases hentry.symm.trans hentry'
      simp [hparent]
  | child hentry' hparent =>
      cases hentry.symm.trans hentry'
      simp [hparent]

/-- The errors of the destination, but for those of the filesystem's mount function. -/
theorem Ready.mountOn_balanced (hready : Ready disc base state.files held workingDir)
    {result : MountResult}
    (hcall : mountOn disc driver state workingDir dst fs = .ok (result, after))
    (herror : result ≠ .mounted .ok)
    (hreaches : driver.result = 0 ∨ ¬ MountsOn disc state workingDir dst fs) :
    Balanced state.files after.files := by
  unfold mountOn at hcall
  split at hcall
  next hslash =>
    obtain ⟨⟨outcome, next⟩, hmount, hcall⟩ := bind_eq_ok.mp hcall
    cases hcall
    refine fsMountRoot_balanced hmount (by simpa using herror) ?_
    refine hreaches.imp_right fun hnot => ?_
    by_contra hname
    exact hnot ⟨Option.isSome_iff_ne_none.mpr hname, .inl hslash⟩
  next hslash =>
    obtain ⟨⟨found, opened⟩, hopen, hcall⟩ := bind_eq_ok.mp hcall
    cases hready.opened hopen with
    | root hpath => exact absurd hpath hslash
    | none => simp at hcall
    | @found found target entry hleads hentry htype hcached hevolves hat =>
        simp only at hcall
        obtain ⟨⟨outcome, next⟩, hmount, hcall⟩ := bind_eq_ok.mp hcall
        obtain ⟨released, hrelease, hcall⟩ := bind_eq_ok.mp hcall
        cases hcall
        have hsame := fsMount_unchanged hmount hentry (by simpa using herror) <|
          hreaches.imp_right fun hnot => by
            by_contra hall
            simp only [not_or, not_not] at hall
            refine hnot ⟨Option.isSome_iff_ne_none.mpr hall.1, .inr ⟨target, hleads, ?_, ?_⟩⟩
            · rw [htype, hall.2.1]
            · exact fun htrail => hall.2.2 ((hat.parent_eq_none_iff hentry).mpr htrail)
        subst hsame
        obtain ⟨last, hlast, hafter, hevolves'⟩ := hcached.release List.mem_cons_self
        cases hlast.symm.trans hrelease
        rw [List.erase_cons_head] at hafter
        exact hready.balanced hafter (Evolves.trans hready.cached.fresh hevolves hevolves')

/-- A filesystem that refuses leaves a reference, of the root or of a new entry. -/
theorem Ready.mountOn_refused (hready : Ready disc base state.files held workingDir)
    (hmounts : MountsOn disc state workingDir dst fs) (hresult : driver.result ≠ 0)
    (hrefuses : ∀ files mountPoint, driver.mount files mountPoint = .ok files) :
    ∃ next, mountOn disc driver state workingDir dst fs =
        .ok (.mounted (.refused driver.result), next) ∧ ¬ Balanced state.files next.files := by
  obtain ⟨hname, hdst⟩ := hmounts
  obtain ⟨node, hname⟩ := Option.isSome_iff_exists.mp hname
  by_cases hslash : dst.chars = [slash]
  · obtain ⟨root, hroot, -⟩ := hready.root
    obtain ⟨next, hmount, hcount⟩ := fsMountRoot_refused hroot hname hresult hrefuses
    refine ⟨next, ?_, ?_⟩
    · simp only [mountOn, if_pos hslash, hmount, ok_bind, pure_eq_ok]
    · intro hbalanced
      have hroots := hbalanced fsRoot
      simp [State.references, hroot] at hroots hcount
      omega
  · obtain ⟨target, hleads, hdirectory, htrail⟩ := hdst.resolve_left hslash
    obtain ⟨found, entry, opened, hopen, hentry, htype, hcached, hevolves, hat⟩ :=
      hready.opens hleads
    have hisDirectory : entry.type = .directory := Option.some.inj (htype.symm.trans hdirectory)
    obtain ⟨parent, hparent⟩ : ∃ parent, entry.parent = some parent := by
      rw [← Option.isSome_iff_exists, Option.isSome_iff_ne_none]
      exact fun hnone => htrail ((hat.parent_eq_none_iff hentry).mp hnone)
    obtain ⟨hlt, parentEntry, _, _, hparentEntry, _⟩ :=
      hcached.above found entry parent hentry hparent
    have hbound := hcached.id_lt hentry
    obtain ⟨next, new, hmount, hkept, hnew, hone⟩ := @fsMount_refused driver
      { state with files := opened } fs found parent entry parentEntry node hentry hisDirectory
      hname hparent hparentEntry (Nat.ne_of_lt hlt) (Nat.ne_of_lt (Nat.lt_trans hlt hbound))
      (Nat.ne_of_lt hbound) hresult hrefuses
    have hpositive := hcached.positive found entry hentry
    have hrelease := @releaseWith_of_more next.files found
      { entry with references := entry.references + 1 } next.files.next hkept
      (by simp only; omega)
    refine ⟨{ next with
      files := next.files.set found { entry with references := entry.references + 1 - 1 } }, ?_, ?_⟩
    · simp only [mountOn, if_neg hslash, hopen, ok_bind, hmount, directoryEntryRelease, hrelease,
        pure_eq_ok]
    · intro hbalanced
      have hcount := hbalanced opened.next
      have hfresh := hready.cached.fresh opened.next hevolves.grows
      simp [State.references, State.set, hfresh, (Nat.ne_of_lt hbound).symm, hnew, hone] at hcount

/-- Where a mount would go does not depend on what is cached. -/
theorem Ready.mountsOn_iff (hready : Ready disc base state.files held workingDir) {files : State}
    (hafter : Ready disc base files held workingDir) (hevolves : Evolves state.files files) :
    MountsOn disc { state with files } workingDir dst fs ↔
      MountsOn disc state workingDir dst fs := by
  refine and_congr Iff.rfl (or_congr Iff.rfl (exists_congr fun target => ?_))
  rw [hready.leadsTo_iff hafter hevolves]
  refine and_congr_right fun hleads => ?_
  rw [hleads.type_eq hevolves]

/-- A source that is no device keeps the reference of its walk. -/
theorem Ready.openDevice_leaks {files : State} {path : Path} {target : Place}
    (hready : Ready disc base files held workingDir)
    (hleads : LeadsTo disc files workingDir path target)
    (htype : target.type files ≠ some .device) :
    ∃ after, openDevice disc files workingDir path = .ok (some .noDevice, after) ∧
      ¬ Balanced files after := by
  obtain ⟨found, entry, opened, hopen, hentry, hsame, hcached, hevolves, -⟩ := hready.opens hleads
  have hnot : entry.type ≠ .device := by
    rintro hdevice
    exact htype (hsame.trans (congrArg some hdevice))
  refine ⟨opened, ?_, hready.not_balanced hcached hevolves⟩
  simp only [openDevice, hopen, ok_bind, entry_eq_ok.mpr hentry, if_pos hnot, pure_eq_ok]

/-- A device is released again. -/
theorem Ready.openDevice_passes {files : State} {path : Path} {target : Place}
    (hready : Ready disc base files held workingDir)
    (hleads : LeadsTo disc files workingDir path target)
    (htype : target.type files = some .device) :
    ∃ after, openDevice disc files workingDir path = .ok (none, after) ∧
      Ready disc base after held workingDir ∧ Evolves files after := by
  obtain ⟨found, entry, opened, hopen, hentry, hsame, hcached, hevolves, -⟩ := hready.opens hleads
  have hdevice : entry.type = .device := Option.some.inj (hsame.symm.trans htype)
  obtain ⟨last, hlast, hafter, hevolves'⟩ := hcached.release List.mem_cons_self
  rw [List.erase_cons_head] at hafter
  have hboth := Evolves.trans hready.cached.fresh hevolves hevolves'
  refine ⟨last, ?_, hready.evolve hafter hboth hready.workingDir, hboth⟩
  simp only [openDevice, hopen, ok_bind, entry_eq_ok.mpr hentry, hdevice, ne_eq,
    not_true_eq_false, if_false, hlast, pure_eq_ok]

/-- The errors of a source that leads to a device if it leads anywhere. -/
theorem Ready.openDevice_fits {files after : State} {path : Path} {result : MountResult}
    (hready : Ready disc base files held workingDir)
    (hfits : ∀ target, LeadsTo disc files workingDir path target →
      target.type files = some .device)
    (hcall : openDevice disc files workingDir path = .ok (some result, after)) :
    Balanced files after := by
  obtain ⟨⟨found, opened⟩, hopen, hopened⟩ := bind_eq_ok.mp hcall
  cases hready.opened hopen with
  | root hpath hsame =>
      -- the root is no device, and its path takes no reference
      subst hsame
      obtain ⟨entry, hentry, -, htype⟩ := hready.root
      have hnot : entry.type ≠ .device := by simp [htype]
      simp only [entry_eq_ok.mpr hentry, ok_bind, if_pos hnot, pure_eq_ok,
        Except.ok.injEq, Prod.mk.injEq] at hopened
      obtain ⟨-, rfl⟩ := hopened
      exact fun _ => rfl
  | none hcached hevolves =>
      cases hopened
      exact hready.balanced hcached hevolves
  | @found found target _ hleads =>
      obtain ⟨last, hlast, -⟩ := hready.openDevice_passes hleads (hfits target hleads)
      rw [hcall] at hlast
      simp at hlast

/-- A source that passes was released again. -/
theorem Ready.openDevice_ok {files after : State} {path : Path}
    (hready : Ready disc base files held workingDir)
    (hcall : openDevice disc files workingDir path = .ok (none, after)) :
    Ready disc base after held workingDir ∧ Evolves files after ∧
      ∃ target, LeadsTo disc files workingDir path target ∧ target.type files = some .device := by
  obtain ⟨⟨found, opened⟩, hopen, hopened⟩ := bind_eq_ok.mp hcall
  cases hready.opened hopen with
  | root _ hsame =>
      subst hsame
      obtain ⟨entry, hentry, -, htype⟩ := hready.root
      have hnot : entry.type ≠ .device := by simp [htype]
      simp [entry_eq_ok.mpr hentry, hnot] at hopened
  | none => simp at hopened
  | @found found target entry hleads hentry hsame =>
      by_cases htype : target.type files = some .device
      · obtain ⟨last, hlast, hafter, hevolves⟩ := hready.openDevice_passes hleads htype
        cases hlast.symm.trans hcall
        exact ⟨hafter, hevolves, target, hleads, htype⟩
      · obtain ⟨last, hlast, -⟩ := hready.openDevice_leaks hleads htype
        rw [hcall] at hlast
        simp at hlast

theorem Ready.mount_balances_iff (hready : Ready disc base state.files held workingDir)
    (hrefuses : driver.result ≠ 0 → ∀ files mountPoint, driver.mount files mountPoint = .ok files) :
    MountBalances disc driver state workingDir src (some dst) (some fs) (some data) ↔
      SourceFits disc state.files workingDir src ∧ (driver.result = 0 ∨
        ¬ (SourcePasses disc state.files workingDir src ∧
          MountsOn disc state workingDir dst fs)) := by
  constructor
  · intro hbalances
    refine ⟨?_, ?_⟩
    · rintro path rfl target hleads
      by_contra htype
      obtain ⟨after, hopen, hleak⟩ := hready.openDevice_leaks hleads htype
      refine hleak (hbalances .noDevice { state with files := after } ?_ (by simp))
      simp only [syscallMount, hopen, ok_bind, pure_eq_ok]
    · refine or_iff_not_imp_left.mpr ?_
      rintro hresult ⟨rfl | ⟨path, target, rfl, hleads, htype⟩, hmounts⟩
      · obtain ⟨next, hmount, hleak⟩ :=
          hready.mountOn_refused hmounts hresult (hrefuses hresult)
        exact hleak (hbalances _ next hmount (by simp))
      · obtain ⟨opened, hopen, hafter, hevolves⟩ := hready.openDevice_passes hleads htype
        have hmounts' := (hready.mountsOn_iff hafter hevolves).mpr hmounts
        obtain ⟨next, hmount, hleak⟩ := @Ready.mountOn_refused disc base driver
          { state with files := opened } held workingDir dst fs hafter hmounts' hresult
          (hrefuses hresult)
        have hsame := hready.balanced hafter.cached hevolves
        refine hleak fun id => ((hbalances (.mounted (.refused driver.result)) next ?_ (by simp))
          id).trans (hsame id).symm
        simp only [syscallMount, hopen, ok_bind, hmount]
  · rintro ⟨hfits, hreaches⟩ result after hcall herror
    have hor : SourcePasses disc state.files workingDir src →
        driver.result = 0 ∨ ¬ MountsOn disc state workingDir dst fs :=
      fun hpasses => hreaches.imp_right fun hnot hmounts => hnot ⟨hpasses, hmounts⟩
    match src with
    | none => exact hready.mountOn_balanced hcall herror (hor (.inl rfl))
    | some none =>
        cases hcall
        exact fun _ => rfl
    | some (some path) =>
        obtain ⟨⟨failed, opened⟩, hopen, hcall⟩ := bind_eq_ok.mp hcall
        cases failed with
        | some failed =>
            cases hcall
            exact hready.openDevice_fits (hfits path rfl) hopen
        | none =>
            obtain ⟨hafter, hevolves, target, hleads, htype⟩ := hready.openDevice_ok hopen
            have hreaches' := hor (.inr ⟨path, target, rfl, hleads, htype⟩)
            rw [← hready.mountsOn_iff hafter hevolves] at hreaches'
            exact (hready.balanced hafter.cached hevolves).trans
              (@Ready.mountOn_balanced disc base driver { state with files := opened } after held
                workingDir dst fs hafter result hcall herror hreaches')

/-- A missing string is found before any path is opened. -/
theorem mount_balances_of_missing {dst : Option Path} {fs data : Option Name}
    (hmissing : dst = none ∨ fs = none ∨ data = none) :
    MountBalances disc driver state workingDir src dst fs data := by
  intro result after hcall _
  have hfault : syscallMount disc driver state workingDir src dst fs data =
      .ok (.fault, state) := by
    match dst, fs, data with
    | none, _, _ => rfl
    | some _, none, _ => rfl
    | some _, some _, none => rfl
    | some _, some _, some _ => simp at hmissing
  cases hfault.symm.trans hcall
  exact fun _ => rfl

end Mount

/-! ## All three -/

/-- When the calls give back what they took: `syscall_remove` unless its path leads to a
directory, `socket_connect` if it finds nothing, `syscall_mount` unless its source leads to
something else than a device, or the filesystem refuses. -/
theorem path_calls_balance_iff {disc : Disc} {base : Nat → Nat} {state : State} {held : List Nat}
    {workingDir : Nat} (hready : Ready disc base state held workingDir) :
    (∀ marked deleted path, RemoveBalances disc ⟨state, marked, deleted⟩ workingDir path ↔
      ∀ file, path = some file → ∀ target, LeadsTo disc state workingDir file target →
        target.type state ≠ some .directory) ∧
    (∀ (driver : Driver) (mounts : Mounts.State) src dst fs data, mounts.files = state →
      (driver.result ≠ 0 → ∀ files mountPoint, driver.mount files mountPoint = .ok files) →
      (MountBalances disc driver mounts workingDir src dst fs data ↔
        ∀ dst' fs' data', dst = some dst' → fs = some fs' → data = some data' →
          SourceFits disc state workingDir src ∧ (driver.result = 0 ∨
            ¬ (SourcePasses disc state workingDir src ∧
              MountsOn disc mounts workingDir dst' fs')))) ∧
    (∀ (kernel : Sockets.Kernel) socketOf thread domain socket sockaddr len,
      (∀ dirent, (kernel.sockets (socketOf dirent)).isSome) →
      (ConnectBalances disc state kernel socketOf workingDir thread domain socket sockaddr len ↔
        (domain = .unix → sockaddr.lastByte len = 0 →
          ∀ target, ¬ LeadsTo disc state workingDir sockaddr.path target))) := by
  refine ⟨?_, ?_, ?_⟩
  · intro marked deleted path
    cases path with
    | none =>
        refine iff_of_true ?_ (by simp)
        rintro result after hcall -
        cases hcall
        exact fun _ => rfl
    | some file =>
        rw [@Ready.remove_balances_iff disc base ⟨state, marked, deleted⟩ held workingDir file
          hready]
        simp
  · rintro driver mounts src dst fs data rfl hrefuses
    match dst, fs, data with
    | some dst, some fs, some data =>
        rw [hready.mount_balances_iff hrefuses]
        simp
    | none, _, _ => exact iff_of_true (mount_balances_of_missing (by simp)) (by simp)
    | some _, none, _ => exact iff_of_true (mount_balances_of_missing (by simp)) (by simp)
    | some _, some _, none => exact iff_of_true (mount_balances_of_missing (by simp)) (by simp)
  · intro kernel socketOf thread domain socket sockaddr len hsockets
    exact hready.connect_balances_iff hsockets

theorem mounted_ready (disc : Disc) (page : Nat) :
    Ready disc mountReferences (mounted disc page) [fsRoot] fsRoot :=
  ⟨mounted_cached disc page, ⟨_, rfl, rfl, rfl⟩, List.mem_singleton.mpr rfl⟩

/-- Functions of a filesystem whose `mount` refuses. -/
def refusing : Driver where
  node := 1
  result := 1
  mount files _ := .ok files
  list files _ := .ok files
  unmount files _ := .ok files
  mount_keeps hcall := by cases hcall; exact .refl _
  list_keeps hcall := by cases hcall; exact .refl _
  unmount_later hcall := by cases hcall; exact .refl _

/-- `"b"`. -/
def missingAddress : SockaddrUnix := ⟨fun i => if i = 0 then 98 else 0, ⟨[98], by decide⟩, by simp, rfl⟩

/-- In a tree with one file `a`, it is removed, something is mounted on it, and a socket is
connected to `b`. -/
theorem path_calls_balance_iff_mounted :
    RemoveBalances oneFile ⟨mounted oneFile 0, fun _ => false, []⟩ fsRoot (some ⟨[97], by decide⟩) ∧
      MountBalances oneFile refusing
        { Mounts.fsInit with files := mounted oneFile 0, filesystems := [⟨0, [102], 0⟩] } fsRoot none
        (some ⟨[97], by decide⟩) (some [102]) (some []) ∧
      ConnectBalances oneFile (mounted oneFile 0)
        { Sockets.bootKernel with sockets := fun _ => some ⟨0, 0, [], [], none⟩ } id fsRoot 0 .unix 0
        missingAddress 2 := by
  obtain ⟨hremove, hmount, hconnect⟩ := path_calls_balance_iff (mounted_ready oneFile 0)
  have hfile : ∀ target, LeadsTo oneFile (mounted oneFile 0) fsRoot ⟨[97], by decide⟩ target →
      target.type (mounted oneFile 0) = some .regular := by
    rintro target ⟨-, place, hat, hresolve⟩
    obtain rfl := At.unique (.root rfl rfl rfl) hat
    have hfound : (Except.ok (some ⟨fsRoot, 0, [⟨[97], .regular, 1⟩]⟩) : Except Stop (Option Place)) =
      .ok (some target) := hresolve
    cases Except.ok.inj hfound
    rfl
  refine ⟨?_, ?_, ?_⟩
  · refine (hremove _ _ _).mpr fun file hpath target hleads => ?_
    cases hpath
    rw [hfile target hleads]
    decide
  · refine (hmount _ _ _ _ _ _ rfl fun _ _ _ => rfl).mpr fun dst _ _ hdst _ _ => ?_
    cases hdst
    refine ⟨nofun, .inr fun ⟨_, _, hon⟩ => ?_⟩
    rcases hon with hslash | ⟨target, hleads, htype, -⟩
    · exact absurd hslash (by decide)
    · exact absurd ((hfile target hleads).symm.trans htype) (by decide)
  · refine (hconnect _ _ _ _ _ _ _ fun _ => rfl).mpr fun _ _ target hleads => ?_
    obtain ⟨-, place, hat, hresolve⟩ := hleads
    obtain rfl := At.unique (.root rfl rfl rfl) hat
    have hnothing : (Except.ok none : Except Stop (Option Place)) = .ok (some target) := hresolve
    cases hnothing

/-- Removing the directory `a` is refused, and it keeps a reference that nobody holds. -/
theorem remove_directory_leaks :
    ∃ after, syscallRemove oneDirectory ⟨mounted oneDirectory 0, fun _ => false, []⟩ fsRoot
        (some ⟨[97], by decide⟩) = .ok (.isDirectory, after) ∧
      (mounted oneDirectory 0).references 1 = 0 ∧ after.state.references 1 = 1 ∧
      ¬ RemoveBalances oneDirectory ⟨mounted oneDirectory 0, fun _ => false, []⟩ fsRoot
        (some ⟨[97], by decide⟩) := by
  refine ⟨_, rfl, rfl, rfl, ?_⟩
  intro hbalances
  have hcount := hbalances .isDirectory _ rfl (by simp) 1
  exact absurd hcount (by decide)

end PKernel.Vfs
