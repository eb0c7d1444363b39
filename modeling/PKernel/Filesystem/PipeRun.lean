import PKernel.Library.Transition
import PKernel.Library.Tally
import PKernel.Filesystem.EntryOperations
import PKernel.Filesystem.FileTable

/-! # The lifetime of pipes

Processes make pipes and close, duplicate and inherit their descriptors. The entry
of a pipe is made with one reference for two descriptors, so that it has one
reference less than it has descriptors, and goes with the last but one.
-/

namespace PKernel.Vfs.Pipeline

open Library.Transition Library.Tally

/-- The tables of the processes, by number; those of processes that ended are gone. The
entries in `pipes` were made by `syscall_pipe`. -/
structure World where
  state : State
  tables : List (Option FileTable)
  pipes : List Nat

/-- Whether a slot refers to an entry, as a number. -/
def slotRefers (dirent : Nat) (slot : Option File) : Nat :=
  if slot.map File.dirent = some dirent then 1 else 0

/-- The descriptors in a table that refer to an entry. -/
def refers (dirent : Nat) (table : FileTable) : Nat := (table.map (slotRefers dirent)).sum

/-- All descriptors that refer to an entry. -/
def World.descriptors (world : World) (dirent : Nat) : Nat :=
  (world.tables.map fun table => refers dirent (table.getD [])).sum

/-- The table of a live process. -/
def World.table? (world : World) (pid : Nat) : Option FileTable := world.tables[pid]?.join

inductive Op where
  | pipe (pid : Nat)
  | close (pid fd : Nat)
  | dup (pid dst src : Nat)
  | fork (pid : Nat)
  | exit (pid : Nat)
deriving Repr

/-- One call by a live process. -/
def Op.perform (world : World) : Op → Except Stop World
  | pipe pid =>
      match world.table? pid with
      | none => .ok world
      | some table => do
          let (_, dirent, table, state) ← syscallPipe world.state table
          return ⟨state, world.tables.set pid (some table), dirent :: world.pipes⟩
  | close pid fd =>
      match world.table? pid with
      | none => .ok world
      | some table => do
          match ← fileTableClose world.state table fd with
          | (.error _, state) => return { world with state }
          | (.ok table, state) =>
              return { world with state, tables := world.tables.set pid (some table) }
  | dup pid dst src =>
      match world.table? pid with
      | none => .ok world
      | some table => do
          match ← fileTableDup world.state table dst src with
          | (.error _, state) => return { world with state }
          | (.ok table, state) =>
              return { world with state, tables := world.tables.set pid (some table) }
  | fork pid =>
      match world.table? pid with
      | none => .ok world
      | some table => do
          let (table, state) ← fileTableClone world.state table
          return { world with state, tables := world.tables ++ [some table] }
  | exit pid =>
      match world.table? pid with
      | none => .ok world
      | some table => do
          let state ← fileTableFree world.state table
          return { world with state, tables := world.tables.set pid none }

/-- Every step leaves a pipe that it takes descriptors from at least two of them. -/
def LeavesTwo (world : World) : Op → Prop
  | .close pid fd => ∀ table file, world.table? pid = some table → table.file? fd = some file →
      file.dirent ∈ world.pipes → 3 ≤ world.descriptors file.dirent
  | .dup pid dst src => ∀ table old file, world.table? pid = some table →
      table.file? dst = some old → table.file? src = some file → old.dirent ∈ world.pipes →
      old.dirent ≠ file.dirent → 3 ≤ world.descriptors old.dirent
  | .exit pid => ∀ table dirent, world.table? pid = some table → dirent ∈ world.pipes →
      refers dirent table + 2 ≤ world.descriptors dirent
  | _ => True

/-- Runs from any state of the filesystem and any tables before the first pipe is made.
Nothing refers to entries that have not been made yet. -/
def system : System World Op where
  init world := world.pipes = [] ∧
    (∀ id, world.state.next ≤ id → world.state.entries id = none) ∧
    (∀ id entry parent, world.state.entries id = some entry → entry.parent = some parent →
      parent < world.state.next) ∧
    ∀ id, world.state.next ≤ id → world.descriptors id = 0
  step world op next := op.perform world = .ok next

/-- What holds of pipes: an entry with a descriptor is live, and no call goes for the
filesystem node of a pipe. -/
structure PipesSafe (world : World) : Prop where
  live : ∀ dirent ∈ world.pipes, 0 < world.descriptors dirent →
    (world.state.entries dirent).isSome
  node : ∀ op : Op, LeavesTwo world op → ∀ dirent ∈ world.pipes,
    op.perform world ≠ .error (.nullNode dirent)

/-! ## Counting descriptors -/

section Counting

variable {world : World} {table : FileTable} {dirent pid fd : Nat} {file : File}

theorem refers_set (dirent : Nat) {slot : Option File} (hold : table[fd]? = some slot) (new : Option File) :
    refers dirent (table.set fd new) + slotRefers dirent slot =
      refers dirent table + slotRefers dirent new :=
  sum_map_set (slotRefers dirent) hold

theorem refers_append (more : FileTable) :
    refers dirent (table ++ more) = refers dirent table + refers dirent more := by
  simp [refers]

theorem refers_replicate (count : Nat) : refers dirent (List.replicate count none) = 0 := by
  simp [refers, slotRefers]

theorem slotRefers_some : slotRefers dirent (some file) = if file.dirent = dirent then 1 else 0 := by
  simp [slotRefers]

theorem slotRefers_none : slotRefers dirent none = 0 := rfl

/-- The balance of a change in one table. -/
theorem descriptors_set (dirent : Nat) (htable : world.table? pid = some table) (state : State)
    (pipes : List Nat) (new : Option FileTable) :
    (World.mk state (world.tables.set pid new) pipes).descriptors dirent + refers dirent table =
      world.descriptors dirent + refers dirent (new.getD []) := by
  have hold : world.tables[pid]? = some (some table) := by
    simpa [World.table?, Option.join_eq_some_iff] using htable
  exact sum_map_set (fun table => refers dirent (table.getD [])) hold

end Counting

/-! ## The entries of pipes -/

/-- Pipes have one reference less than descriptors, and are nobody's parent. -/
structure Plumbed (state : State) (pipes : List Nat) (descriptors : Nat → Nat) : Prop where
  fresh : ∀ id, state.next ≤ id → state.entries id = none
  parents : ∀ id entry parent, state.entries id = some entry → entry.parent = some parent →
    parent < state.next ∧ parent ∉ pipes
  known : ∀ id, state.next ≤ id → descriptors id = 0
  bound : ∀ dirent ∈ pipes, dirent < state.next
  counted : ∀ dirent ∈ pipes, ∃ entry, state.entries dirent = some entry ∧ entry.type = .pipe ∧
    entry.references + 1 = descriptors dirent
  two : ∀ dirent ∈ pipes, 2 ≤ descriptors dirent

/-- A change that spares an entry, and gives no entry another parent. -/
structure Spares (dirent : Nat) (state after : State) : Prop where
  same : after.entries dirent = state.entries dirent
  next : after.next = state.next
  parents : ∀ id entry, after.entries id = some entry → ∃ before,
    state.entries id = some before ∧ entry.parent = before.parent

namespace Spares

variable {dirent id : Nat} {state middle after : State} {entry changed : Entry}

theorem trans (hfirst : Spares dirent state middle) (hsecond : Spares dirent middle after) :
    Spares dirent state after := by
  refine ⟨hsecond.same.trans hfirst.same, hsecond.next.trans hfirst.next, ?_⟩
  intro id entry hentry
  obtain ⟨between, hbetween, hparent⟩ := hsecond.parents id entry hentry
  obtain ⟨before, hbefore, hparent'⟩ := hfirst.parents id between hbetween
  exact ⟨before, hbefore, hparent.trans hparent'⟩

theorem set (hne : id ≠ dirent) (hentry : state.entries id = some entry)
    (hparent : changed.parent = entry.parent) : Spares dirent state (state.set id changed) := by
  refine ⟨by simp [State.set, Ne.symm hne], rfl, ?_⟩
  intro other found hfound
  by_cases heq : other = id
  · subst heq
    obtain rfl : changed = found := by simpa [State.set] using hfound
    exact ⟨entry, hentry, hparent⟩
  · exact ⟨found, by simpa [State.set, heq] using hfound, rfl⟩

theorem free (hne : id ≠ dirent) : Spares dirent state (state.free id) := by
  refine ⟨by simp [State.free, Ne.symm hne], rfl, ?_⟩
  intro other found hfound
  by_cases heq : other = id
  · simp [State.free, heq] at hfound
  · exact ⟨found, by simpa [State.free, heq] using hfound, rfl⟩

theorem notParent (hspares : Spares dirent state after)
    (hparents : ∀ id entry, state.entries id = some entry → entry.parent ≠ some dirent) :
    ∀ id entry, after.entries id = some entry → entry.parent ≠ some dirent := by
  intro id entry hentry
  obtain ⟨before, hbefore, hparent⟩ := hspares.parents id entry hentry
  rw [hparent]
  exact hparents id before hbefore

end Spares

/-- A call that spares an entry, or stops elsewhere. -/
def CallSpares (dirent : Nat) (state : State) : Except Stop State → Prop
  | .ok after => Spares dirent state after
  | .error stop => stop ≠ .nullNode dirent

theorem entry_eq_error {state : State} {id : Nat} {stop : Stop} (hentry : state.entry id = .error stop) :
    stop = .badPointer := by
  unfold State.entry at hentry
  split at hentry
  · simp at hentry
  · exact (Except.error.inj hentry).symm

/-- Releasing one entry spares another that is nobody's parent. -/
theorem releaseWith_spares {fuel id dirent : Nat} {state : State} (hne : id ≠ dirent)
    (hparents : ∀ id entry, state.entries id = some entry → entry.parent ≠ some dirent) :
    CallSpares dirent state (releaseWith fuel state id) := by
  induction fuel generalizing state id with
  | zero => simp [CallSpares, releaseWith]
  | succ fuel ih =>
      simp only [releaseWith]
      cases hentry : state.entry id with
      | error stop =>
          simp [CallSpares, entry_eq_error hentry]
      | ok entry =>
          have hentries := State.entry_eq_ok.mp hentry
          simp only [ok_bind]
          have hlowered : Spares dirent state
              (state.set id { entry with references := entry.references - 1 }) :=
            Spares.set hne hentries rfl
          generalize state.set id { entry with references := entry.references - 1 } = lowered
            at hlowered ⊢
          by_cases hzero : entry.references = 0
          · simp [hzero, CallSpares]
          rw [if_neg hzero]
          by_cases hlast : entry.references - 1 = 0
          case neg =>
            rw [if_neg hlast]
            exact hlowered
          rw [if_pos hlast]
          -- the node of the entry itself is looked at last
          have hend : ∀ after, Spares dirent state after → CallSpares dirent state
              (if entry.node = none then (do throw (.nullNode id); pure (after.free id))
                else pure (after.free id)) := by
            intro after hafter
            by_cases hnode : entry.node = none
            · simp [hnode, CallSpares, hne]
            · rw [if_neg hnode]
              exact hafter.trans (Spares.free hne)
          cases hparent : entry.parent with
          | none => exact hend lowered hlowered
          | some parent =>
              have hparentNe : parent ≠ dirent := by
                rintro rfl
                exact hparents id entry hentries hparent
              simp only
              cases hparentEntry : lowered.entry parent with
              | error stop =>
                  simp [CallSpares, entry_eq_error hparentEntry]
              | ok parentEntry =>
                  simp only [ok_bind]
                  have hcleared : Spares dirent state
                      (lowered.set parent (parentEntry.setDirent entry.parentNode none)) :=
                    hlowered.trans
                      (Spares.set hparentNe (State.entry_eq_ok.mp hparentEntry) rfl)
                  have hrelease := ih hparentNe (hcleared.notParent hparents)
                  cases hresult : releaseWith fuel
                      (lowered.set parent (parentEntry.setDirent entry.parentNode none)) parent with
                  | error stop =>
                      rw [hresult] at hrelease
                      exact hrelease
                  | ok after =>
                      rw [hresult] at hrelease
                      exact hend after (hcleared.trans hrelease)

/-- A call after which pipes have so many descriptors, or that stops elsewhere. -/
def Keeps (pipes : List Nat) (descriptors : Nat → Nat) : Except Stop State → Prop
  | .ok after => Plumbed after pipes descriptors
  | .error stop => ∀ dirent ∈ pipes, stop ≠ .nullNode dirent

namespace Plumbed

variable {state : State} {pipes : List Nat} {descriptors descriptors' : Nat → Nat} {file : File}
  {id : Nat} {table : FileTable}

theorem notParent (hplumbed : Plumbed state pipes descriptors) {dirent : Nat}
    (hpipe : dirent ∈ pipes) :
    ∀ id entry, state.entries id = some entry → entry.parent ≠ some dirent := by
  intro id entry hentry hparent
  exact (hplumbed.parents id entry dirent hentry hparent).2 hpipe

/-- The count of one entry, and the number of its descriptors, change alike. -/
theorem recount (hplumbed : Plumbed state pipes descriptors) {entry : Entry} {references : Nat}
    (hentry : state.entries id = some entry)
    (hself : id ∈ pipes → references + 1 = descriptors' id ∧ 2 ≤ descriptors' id)
    (hother : ∀ other, other ≠ id → descriptors' other = descriptors other) :
    Plumbed (state.set id { entry with references }) pipes descriptors' := by
  have hlt : id < state.next := by
    by_contra hle
    simp [hplumbed.fresh id (by omega)] at hentry
  constructor
  case fresh =>
    intro other hle
    have hle : state.next ≤ other := hle
    simpa [State.set, show other ≠ id by omega] using hplumbed.fresh other hle
  case parents =>
    intro other found parent hfound hparent
    by_cases heq : other = id
    · subst heq
      obtain rfl : { entry with references } = found := by simpa [State.set] using hfound
      exact hplumbed.parents other entry parent hentry hparent
    · exact hplumbed.parents other found parent (by simpa [State.set, heq] using hfound) hparent
  case known =>
    intro other hle
    have hle : state.next ≤ other := hle
    rw [hother other (by omega)]
    exact hplumbed.known other hle
  case bound => exact hplumbed.bound
  case counted =>
    intro dirent hpipe
    obtain ⟨found, hfound, htype, hcount⟩ := hplumbed.counted dirent hpipe
    by_cases heq : dirent = id
    · subst heq
      obtain rfl : entry = found := Option.some.inj (hentry.symm.trans hfound)
      exact ⟨{ entry with references }, by simp [State.set], htype, (hself hpipe).1⟩
    · rw [hother dirent heq]
      exact ⟨found, by simpa [State.set, heq] using hfound, htype, hcount⟩
  case two =>
    intro dirent hpipe
    by_cases heq : dirent = id
    · subst heq
      exact (hself hpipe).2
    · rw [hother dirent heq]
      exact hplumbed.two dirent hpipe

/-- A change that spares all pipes. -/
theorem spare (hplumbed : Plumbed state pipes descriptors) {after : State}
    (hnew : Spares state.next state after) (hspares : ∀ dirent ∈ pipes, Spares dirent state after)
    (hcount : ∀ dirent ∈ pipes, descriptors' dirent = descriptors dirent)
    (hle : ∀ id, descriptors' id ≤ descriptors id) : Plumbed after pipes descriptors' := by
  constructor
  case fresh =>
    intro id hid
    cases hentry : after.entries id with
    | none => rfl
    | some entry =>
        obtain ⟨before, hbefore, _⟩ := hnew.parents id entry hentry
        simp [hplumbed.fresh id (hnew.next ▸ hid)] at hbefore
  case parents =>
    intro id entry parent hentry hparent
    obtain ⟨before, hbefore, hsame⟩ := hnew.parents id entry hentry
    rw [hnew.next]
    exact hplumbed.parents id before parent hbefore (hsame ▸ hparent)
  case known =>
    intro id hid
    have hnone := hplumbed.known id (hnew.next ▸ hid)
    have hbound := hle id
    omega
  case bound => exact fun dirent hpipe => hnew.next ▸ hplumbed.bound dirent hpipe
  case counted =>
    intro dirent hpipe
    rw [(hspares dirent hpipe).same, hcount dirent hpipe]
    exact hplumbed.counted dirent hpipe
  case two => exact fun dirent hpipe => hcount dirent hpipe ▸ hplumbed.two dirent hpipe

/-- `file_close`: a pipe keeps two descriptors. -/
theorem close (hplumbed : Plumbed state pipes descriptors)
    (hcount : ∀ id, descriptors' id + slotRefers id (some file) = descriptors id)
    (hmore : file.dirent ∈ pipes → 3 ≤ descriptors file.dirent) :
    Keeps pipes descriptors' (fileClose state file) := by
  have hself := hcount file.dirent
  rw [slotRefers_some, if_pos rfl] at hself
  have hothers : ∀ other, other ≠ file.dirent → descriptors' other = descriptors other := by
    intro other hne
    have hother := hcount other
    rwa [slotRefers_some, if_neg (Ne.symm hne), Nat.add_zero] at hother
  by_cases hpipe : file.dirent ∈ pipes
  · obtain ⟨entry, hentry, _, hreferences⟩ := hplumbed.counted file.dirent hpipe
    have hthree := hmore hpipe
    rw [fileClose, directoryEntryRelease, releaseWith_of_more hentry (by omega)]
    exact hplumbed.recount hentry (fun _ => by omega) hothers
  · have hpipes : ∀ dirent ∈ pipes, CallSpares dirent state (fileClose state file) := by
      intro dirent hdirent
      refine releaseWith_spares ?_ (hplumbed.notParent hdirent)
      exact fun heq => hpipe (heq ▸ hdirent)
    cases hresult : fileClose state file with
    | error stop =>
        intro dirent hdirent
        have hspares := hpipes dirent hdirent
        rw [hresult] at hspares
        exact hspares
    | ok after =>
        have hlive : file.dirent ≠ state.next := by
          intro heq
          simp [fileClose, directoryEntryRelease, releaseWith, State.entry, heq,
            hplumbed.fresh state.next (Nat.le_refl _)] at hresult
        have hnew : CallSpares state.next state (fileClose state file) := by
          refine releaseWith_spares hlive ?_
          intro id entry hentry hparent
          exact Nat.lt_irrefl _ (hplumbed.parents id entry state.next hentry hparent).1
        rw [hresult] at hnew
        refine hplumbed.spare hnew ?_ ?_ ?_
        · intro dirent hdirent
          have hspares := hpipes dirent hdirent
          rwa [hresult] at hspares
        · intro dirent hdirent
          exact hothers dirent fun heq => hpipe (heq ▸ hdirent)
        · intro id
          have hid := hcount id
          omega

/-- `fs_directory_entry_add_reference`: one more descriptor is to come. -/
theorem addReference (hplumbed : Plumbed state pipes descriptors)
    (hcount : ∀ other, descriptors' other = descriptors other + if id = other then 1 else 0) :
    Keeps pipes descriptors' (addReference state id) := by
  unfold Vfs.addReference
  cases hentry : state.entry id with
  | error stop =>
      intro dirent _
      simp [entry_eq_error hentry]
  | ok entry =>
      have hentries := State.entry_eq_ok.mp hentry
      have hself := hcount id
      rw [if_pos rfl] at hself
      refine hplumbed.recount hentries ?_ ?_
      · intro hpipe
        obtain ⟨found, hfound, _, hreferences⟩ := hplumbed.counted id hpipe
        obtain rfl : entry = found := Option.some.inj (hentries.symm.trans hfound)
        have htwo := hplumbed.two id hpipe
        omega
      · intro other hne
        rw [hcount other, if_neg (Ne.symm hne), Nat.add_zero]

/-- `file_table_free`: every pipe keeps two descriptors. -/
theorem freeTable (hplumbed : Plumbed state pipes descriptors)
    (hcount : ∀ id, descriptors' id + refers id table = descriptors id)
    (hmore : ∀ dirent ∈ pipes, refers dirent table + 2 ≤ descriptors dirent) :
    Keeps pipes descriptors' (fileTableFree state table) := by
  induction table generalizing state descriptors with
  | nil =>
      obtain rfl : descriptors' = descriptors := funext hcount
      exact hplumbed
  | cons slot rest ih =>
      have hcons : ∀ id, refers id (slot :: rest) = slotRefers id slot + refers id rest := by
        simp [refers]
      cases slot with
      | none =>
          refine ih hplumbed ?_ ?_
          · intro id
            have hid := hcount id
            rwa [hcons, slotRefers_none, Nat.zero_add] at hid
          · intro dirent hdirent
            have hid := hmore dirent hdirent
            rwa [hcons, slotRefers_none, Nat.zero_add] at hid
      | some file =>
          have hclose : Keeps pipes (fun id => descriptors' id + refers id rest)
              (fileClose state file) := by
            refine hplumbed.close ?_ ?_
            · intro id
              have hid := hcount id
              rw [hcons] at hid
              omega
            · intro hpipe
              have hid := hmore file.dirent hpipe
              rw [hcons, slotRefers_some, if_pos rfl] at hid
              omega
          simp only [fileTableFree]
          cases hresult : fileClose state file with
          | error stop =>
              rw [hresult] at hclose
              exact hclose
          | ok after =>
              rw [hresult] at hclose
              refine ih hclose (fun id => rfl) ?_
              intro dirent hdirent
              have hid := hmore dirent hdirent
              have hbalance := hcount dirent
              rw [hcons] at hid hbalance
              omega

/-- `file_table_clone`: the copy has as many descriptors of every entry. -/
theorem cloneTable (hplumbed : Plumbed state pipes descriptors) (table : FileTable) :
    match fileTableClone state table with
    | .ok (copy, after) => (∀ id, refers id copy = refers id table) ∧
        Plumbed after pipes fun id => descriptors id + refers id table
    | .error stop => ∀ dirent ∈ pipes, stop ≠ .nullNode dirent := by
  induction table generalizing state descriptors with
  | nil => exact ⟨fun _ => rfl, hplumbed⟩
  | cons slot rest ih =>
      have hcons : ∀ id slot (rest : FileTable),
          refers id (slot :: rest) = slotRefers id slot + refers id rest := by
        simp [refers]
      cases slot with
      | none =>
          have hrest := ih hplumbed
          simp only [fileTableClone]
          cases hclone : fileTableClone state rest with
          | error stop =>
              rw [hclone] at hrest
              exact hrest
          | ok result =>
              rw [hclone] at hrest
              obtain ⟨hcopy, hafter⟩ := hrest
              refine ⟨fun id => ?_, ?_⟩
              · rw [hcons, hcons, hcopy]
              · simp only [hcons, slotRefers_none, Nat.zero_add]
                exact hafter
      | some file =>
          have hreference : Keeps pipes
              (fun other => descriptors other + slotRefers other (some file))
              (Vfs.addReference state file.dirent) :=
            hplumbed.addReference fun other => by rw [slotRefers_some]
          simp only [fileTableClone, fileClone]
          cases hadded : Vfs.addReference state file.dirent with
          | error stop =>
              rw [hadded] at hreference
              exact hreference
          | ok added =>
              rw [hadded] at hreference
              simp only [ok_bind]
              cases hentry : added.entry file.dirent with
              | error stop =>
                  intro dirent _
                  simp [entry_eq_error hentry]
              | ok entry =>
                  have hrest := ih hreference
                  simp only [ok_bind, pure_eq_ok]
                  cases hclone : fileTableClone added rest with
                  | error stop =>
                      rw [hclone] at hrest
                      exact hrest
                  | ok result =>
                      rw [hclone] at hrest
                      obtain ⟨hcopy, hafter⟩ := hrest
                      refine ⟨fun id => ?_, ?_⟩
                      · rw [hcons, hcons, hcopy, slotRefers_some, slotRefers_some]
                      · simp only [hcons, ← Nat.add_assoc]
                        exact hafter

/-- A new pipe with two descriptors. -/
theorem make (hplumbed : Plumbed state pipes descriptors) (htwo : descriptors' state.next = 2)
    (hother : ∀ id, id ≠ state.next → descriptors' id = descriptors id) :
    Plumbed (fsMakeAnonPipe state).2 (state.next :: pipes) descriptors' := by
  have hlook : ∀ id entry, (fsMakeAnonPipe state).2.entries id = some entry →
      (id = state.next ∧ entry = ⟨none, [], 1, .pipe, none, []⟩) ∨ state.entries id = some entry := by
    intro id entry hentry
    by_cases heq : id = state.next
    · subst heq
      exact .inl ⟨rfl, by simpa [fsMakeAnonPipe, directoryEntryCreate, State.set] using hentry.symm⟩
    · exact .inr (by simpa [fsMakeAnonPipe, directoryEntryCreate, State.set, heq] using hentry)
  constructor
  case fresh =>
    intro id hle
    have hle : state.next + 1 ≤ id := hle
    simpa [fsMakeAnonPipe, directoryEntryCreate, State.set, show id ≠ state.next by omega]
      using hplumbed.fresh id (by omega)
  case parents =>
    intro id entry parent hentry hparent
    rcases hlook id entry hentry with ⟨_, rfl⟩ | hentry
    · simp at hparent
    · obtain ⟨hlt, hnot⟩ := hplumbed.parents id entry parent hentry hparent
      refine ⟨Nat.lt_succ_of_lt hlt, ?_⟩
      rw [List.mem_cons, not_or]
      exact ⟨Nat.ne_of_lt hlt, hnot⟩
  case known =>
    intro id hle
    have hle : state.next + 1 ≤ id := hle
    rw [hother id (by omega)]
    exact hplumbed.known id (by omega)
  case bound =>
    intro dirent hpipe
    rcases List.mem_cons.mp hpipe with rfl | hpipe
    · exact Nat.lt_succ_self _
    · exact Nat.lt_succ_of_lt (hplumbed.bound dirent hpipe)
  case counted =>
    intro dirent hpipe
    rcases List.mem_cons.mp hpipe with rfl | hpipe
    · exact ⟨⟨none, [], 1, .pipe, none, []⟩,
        by simp [fsMakeAnonPipe, directoryEntryCreate, State.set], rfl, htwo.symm⟩
    · have hne : dirent ≠ state.next := Nat.ne_of_lt (hplumbed.bound dirent hpipe)
      obtain ⟨entry, hentry, htype, hcount⟩ := hplumbed.counted dirent hpipe
      rw [hother dirent hne]
      exact ⟨entry, by simpa [fsMakeAnonPipe, directoryEntryCreate, State.set, hne] using hentry,
        htype, hcount⟩
  case two =>
    intro dirent hpipe
    rcases List.mem_cons.mp hpipe with rfl | hpipe
    · exact Nat.le_of_eq htwo.symm
    · rw [hother dirent (Nat.ne_of_lt (hplumbed.bound dirent hpipe))]
      exact hplumbed.two dirent hpipe

end Plumbed

/-! ## Runs -/

theorem fileInit_dirent {state : State} {dirent : Nat} {options : Options} {file : File}
    (hinit : fileInit state dirent options = .ok (.ok file)) : file.dirent = dirent := by
  unfold fileInit at hinit
  cases hentry : state.entry dirent with
  | error stop => simp [hentry] at hinit
  | ok entry =>
      simp only [hentry, ok_bind] at hinit
      split at hinit
      · simp at hinit
      · simp only [pure_eq_ok, Except.ok.injEq] at hinit
        rw [← hinit]

theorem refers_add {table : FileTable} (file : File) (dirent : Nat) :
    refers dirent (fileTableAdd table file).2 = refers dirent table + slotRefers dirent (some file) := by
  obtain ⟨fd, hfd⟩ : ∃ fd, fd = table.findIdx Option.isNone := ⟨_, rfl⟩
  have hslot : (table ++ List.replicate (fd + 1 - table.length) none)[fd]? = some none := by
    rcases Nat.lt_or_ge fd table.length with hlt | hge
    · have hfree : table[fd].isNone := by
        subst hfd
        exact List.findIdx_getElem
      rw [List.getElem?_append_left hlt, List.getElem?_eq_getElem hlt]
      simpa using hfree
    · rw [List.getElem?_append_right hge, List.getElem?_replicate, if_pos]
      have hle : fd ≤ table.length := hfd ▸ List.findIdx_le_length
      omega
  have hbalance := refers_set dirent hslot (some file)
  rw [refers_append, refers_replicate, slotRefers_none] at hbalance
  simpa [fileTableAdd, ← hfd] using hbalance

/-- The invariant of runs. -/
def PipeInvariant (world : World) : Prop :=
  Plumbed world.state world.pipes world.descriptors

/-- A call after which the invariant holds, or that stops elsewhere. -/
def WorldKeeps (world : World) : Except Stop World → Prop
  | .ok next => PipeInvariant next
  | .error stop => ∀ dirent ∈ world.pipes, stop ≠ .nullNode dirent

namespace PipeInvariant

variable {world : World} {table : FileTable} {pid : Nat}

theorem pipe (hinvariant : PipeInvariant world) (htable : world.table? pid = some table) :
    WorldKeeps world ((Op.pipe pid).perform world) := by
  have hentry : (fsMakeAnonPipe world.state).2.entry world.state.next =
      .ok ⟨none, [], 1, .pipe, none, []⟩ := by
    simp [fsMakeAnonPipe, directoryEntryCreate, State.set, State.entry]
  have hinit : ∀ options, fileInit (fsMakeAnonPipe world.state).2 world.state.next options =
      .ok (.ok ⟨world.state.next, options, 0, none⟩) := by
    intro options
    simp [fileInit, hentry]
  have hperform : (Op.pipe pid).perform world = .ok ⟨(fsMakeAnonPipe world.state).2,
      world.tables.set pid (some (fileTableAdd (fileTableAdd table
        ⟨world.state.next, ⟨false, true⟩, 0, none⟩).2
          ⟨world.state.next, ⟨true, false⟩, 0, none⟩).2), world.state.next :: world.pipes⟩ := by
    simp only [Op.perform, htable, syscallPipe, fileTableOpen]
    have hnode : (fsMakeAnonPipe world.state).1 = world.state.next := rfl
    simp only [hnode, hinit, ok_bind, pure_eq_ok]
  rw [hperform]
  have hcount : ∀ id, World.descriptors ⟨(fsMakeAnonPipe world.state).2,
      world.tables.set pid (some (fileTableAdd (fileTableAdd table
        ⟨world.state.next, ⟨false, true⟩, 0, none⟩).2
          ⟨world.state.next, ⟨true, false⟩, 0, none⟩).2), world.state.next :: world.pipes⟩ id =
      world.descriptors id + if world.state.next = id then 2 else 0 := by
    intro id
    have hbalance := descriptors_set id htable (fsMakeAnonPipe world.state).2
      (world.state.next :: world.pipes) (some (fileTableAdd (fileTableAdd table
        ⟨world.state.next, ⟨false, true⟩, 0, none⟩).2
          ⟨world.state.next, ⟨true, false⟩, 0, none⟩).2)
    rw [Option.getD_some, refers_add, refers_add, slotRefers_some, slotRefers_some] at hbalance
    by_cases hnew : world.state.next = id
    · rw [if_pos hnew] at hbalance ⊢
      omega
    · rw [if_neg hnew] at hbalance ⊢
      omega
  refine hinvariant.make ?_ ?_
  · rw [hcount, if_pos rfl, hinvariant.known _ (Nat.le_refl _)]
  · intro id hne
    rw [hcount, if_neg (Ne.symm hne), Nat.add_zero]

theorem close (hinvariant : PipeInvariant world) (htable : world.table? pid = some table) {fd : Nat}
    (hleaves : LeavesTwo world (.close pid fd)) :
    WorldKeeps world ((Op.close pid fd).perform world) := by
  simp only [Op.perform, htable, fileTableClose]
  cases hfile : table.file? fd with
  | none => exact hinvariant
  | some file =>
      have hslot : table[fd]? = some (some file) := by
        simpa [FileTable.file?, Option.join_eq_some_iff] using hfile
      have hclose : Keeps world.pipes
          (World.mk world.state (world.tables.set pid (some (table.set fd none)))
            world.pipes).descriptors (fileClose world.state file) := by
        refine Plumbed.close hinvariant ?_ (hleaves table file htable hfile)
        intro id
        have hbalance := descriptors_set id htable world.state world.pipes
          (some (table.set fd none))
        have hset := refers_set id hslot none
        rw [Option.getD_some] at hbalance
        rw [slotRefers_none] at hset
        omega
      simp only
      cases hresult : fileClose world.state file with
      | error stop =>
          rw [hresult] at hclose
          exact hclose
      | ok after =>
          rw [hresult] at hclose
          exact hclose

theorem fork (hinvariant : PipeInvariant world) (htable : world.table? pid = some table) :
    WorldKeeps world ((Op.fork pid).perform world) := by
  have hclone := hinvariant.cloneTable table
  simp only [Op.perform, htable]
  cases hresult : fileTableClone world.state table with
  | error stop =>
      rw [hresult] at hclone
      exact hclone
  | ok result =>
      rw [hresult] at hclone
      obtain ⟨hcopy, hafter⟩ := hclone
      have hcount : (World.mk result.2 (world.tables ++ [some result.1]) world.pipes).descriptors =
          fun id => world.descriptors id + refers id table := by
        funext id
        simp [World.descriptors, hcopy]
      show Plumbed result.2 world.pipes _
      rw [hcount]
      exact hafter

theorem exit (hinvariant : PipeInvariant world) (htable : world.table? pid = some table)
    (hleaves : LeavesTwo world (.exit pid)) :
    WorldKeeps world ((Op.exit pid).perform world) := by
  have hfree : Keeps world.pipes
      (World.mk world.state (world.tables.set pid none) world.pipes).descriptors
      (fileTableFree world.state table) := by
    refine hinvariant.freeTable ?_ fun dirent hpipe => hleaves table dirent htable hpipe
    intro id
    exact descriptors_set id htable world.state world.pipes none
  simp only [Op.perform, htable]
  cases hresult : fileTableFree world.state table with
  | error stop =>
      rw [hresult] at hfree
      exact hfree
  | ok after =>
      rw [hresult] at hfree
      exact hfree

/-- Where `file_table_set` puts a file there is a slot. -/
theorem slot_append_replicate (table : FileTable) (fd : Nat) :
    (table ++ List.replicate (fd + 1 - table.length) none)[fd]? = some (table.file? fd) := by
  rcases Nat.lt_or_ge fd table.length with hlt | hge
  · rw [List.getElem?_append_left hlt, FileTable.file?, List.getElem?_eq_getElem hlt]
    rfl
  · rw [List.getElem?_append_right hge, List.getElem?_replicate, FileTable.file?,
      List.getElem?_eq_none hge, if_pos (by omega)]
    rfl

theorem dup (hinvariant : PipeInvariant world) (htable : world.table? pid = some table)
    {dst src : Nat} (hleaves : LeavesTwo world (.dup pid dst src)) :
    WorldKeeps world ((Op.dup pid dst src).perform world) := by
  simp only [Op.perform, htable, fileTableDup]
  cases hsource : table.file? src with
  | none => exact hinvariant
  | some source =>
      have hreference : Keeps world.pipes
          (fun other => world.descriptors other + slotRefers other (some source))
          (Vfs.addReference world.state source.dirent) :=
        hinvariant.addReference fun other => by rw [slotRefers_some]
      simp only
      cases hadded : Vfs.addReference world.state source.dirent with
      | error stop =>
          rw [hadded] at hreference
          exact hreference
      | ok added =>
          rw [hadded] at hreference
          simp only [ok_bind]
          cases hinit : fileInit added source.dirent source.options with
          | error stop =>
              intro dirent _
              unfold fileInit at hinit
              cases hentry : added.entry source.dirent with
              | error stop' =>
                  simp only [hentry, error_bind, Except.error.injEq] at hinit
                  simp [← hinit, entry_eq_error hentry]
              | ok entry =>
                  simp only [hentry, ok_bind] at hinit
                  split at hinit <;> simp at hinit
          | ok made =>
              cases made with
              | error error =>
                  intro dirent _
                  simp
              | ok file =>
                  have hdirent := fileInit_dirent hinit
                  simp only [ok_bind, fileTableSet, FileTable.file?_grow]
                  -- the balance of the table once the file is in it
                  have hbalance : ∀ id, refers id ((table ++ List.replicate
                      (dst + 1 - table.length) none).set dst (some file)) +
                        slotRefers id (table.file? dst) =
                      refers id table + slotRefers id (some source) := by
                    intro id
                    have hset := refers_set id (slot_append_replicate table dst) (some file)
                    rw [refers_append, refers_replicate, slotRefers_some, hdirent] at hset
                    rw [slotRefers_some]
                    omega
                  have htotal : ∀ id, (World.mk added (world.tables.set pid (some ((table ++
                      List.replicate (dst + 1 - table.length) none).set dst (some file))))
                        world.pipes).descriptors id + slotRefers id (table.file? dst) =
                      world.descriptors id + slotRefers id (some source) := by
                    intro id
                    have hset := descriptors_set id htable added world.pipes (some ((table ++
                      List.replicate (dst + 1 - table.length) none).set dst (some file)))
                    have hslots := hbalance id
                    rw [Option.getD_some] at hset
                    omega
                  cases hold : table.file? dst with
                  | none =>
                      simp only [hold, slotRefers_none, Nat.add_zero] at htotal
                      have hcount := funext htotal
                      show Plumbed added world.pipes _
                      exact hcount ▸ hreference
                  | some old =>
                      rw [hold] at htotal
                      have hclose : Keeps world.pipes _ (fileClose added old) :=
                        hreference.close htotal ?_
                      · simp only
                        cases hresult : fileClose added old with
                        | error stop =>
                            rw [hresult] at hclose
                            exact hclose
                        | ok after =>
                            rw [hresult] at hclose
                            exact hclose
                      · intro hpipe
                        by_cases hsame : old.dirent = source.dirent
                        · have htwo := hinvariant.two old.dirent hpipe
                          rw [slotRefers_some, if_pos hsame.symm]
                          omega
                        · have hthree := hleaves table old source htable hold hsource hpipe hsame
                          omega

/-- Every step that leaves the pipes two descriptors keeps the invariant, or stops
elsewhere. -/
theorem perform (hinvariant : PipeInvariant world) {op : Op} (hleaves : LeavesTwo world op) :
    WorldKeeps world (op.perform world) := by
  have habsent : ∀ op : Op, op.perform world = .ok world → WorldKeeps world (op.perform world) := by
    intro op hsame
    rw [hsame]
    exact hinvariant
  cases op with
  | pipe pid =>
      cases htable : world.table? pid with
      | none => exact habsent _ (by simp [Op.perform, htable])
      | some table => exact hinvariant.pipe htable
  | close pid fd =>
      cases htable : world.table? pid with
      | none => exact habsent _ (by simp [Op.perform, htable])
      | some table => exact hinvariant.close htable hleaves
  | dup pid dst src =>
      cases htable : world.table? pid with
      | none => exact habsent _ (by simp [Op.perform, htable])
      | some table => exact hinvariant.dup htable hleaves
  | fork pid =>
      cases htable : world.table? pid with
      | none => exact habsent _ (by simp [Op.perform, htable])
      | some table => exact hinvariant.fork htable
  | exit pid =>
      cases htable : world.table? pid with
      | none => exact habsent _ (by simp [Op.perform, htable])
      | some table => exact hinvariant.exit htable hleaves

end PipeInvariant

theorem pipeInvariant_inductive : (system.restrict LeavesTwo).Inductive PipeInvariant where
  init world hinit := by
    obtain ⟨hpipes, hfresh, hparents, hknown⟩ := hinit
    refine ⟨hfresh, ?_, hknown, ?_, ?_, ?_⟩
    · intro id entry parent hentry hparent
      exact ⟨hparents id entry parent hentry hparent, by simp [hpipes]⟩
    · simp [hpipes]
    · simp [hpipes]
    · simp [hpipes]
  step world op next hinvariant hstep := by
    obtain ⟨hleaves, hperform⟩ := hstep
    have hperform : op.perform world = .ok next := hperform
    have hkeeps := hinvariant.perform hleaves
    rwa [hperform] at hkeeps

/-- In every run all of whose steps leave a pipe two descriptors, an entry with a
descriptor is live, and no call goes for its filesystem node. -/
theorem pipes_safe {world : World} (hreach : (system.restrict LeavesTwo).Reachable world) :
    PipesSafe world := by
  have hinvariant := hreach.invariant pipeInvariant_inductive
  constructor
  case live =>
    intro dirent hpipe _
    obtain ⟨entry, hentry, _⟩ := Plumbed.counted hinvariant dirent hpipe
    rw [hentry]
    rfl
  case node =>
    intro op hleaves dirent hpipe hstop
    have hkeeps := hinvariant.perform hleaves
    rw [hstop] at hkeeps
    exact hkeeps dirent hpipe rfl

/-- One process with an empty table, and no entries. -/
def emptyWorld : World := ⟨⟨fun _ => none, 0⟩, [some fileTableInit], []⟩

theorem emptyWorld_init : system.init emptyWorld := by
  refine ⟨rfl, fun _ _ => rfl, ?_, fun _ _ => rfl⟩
  intro id entry parent hentry
  simp [emptyWorld] at hentry

/-- A process makes a pipe, forks, and closes one of its descriptors. -/
theorem pipes_safe_after_fork : ∃ world : World,
    (system.restrict LeavesTwo).Reachable world ∧ world.pipes = [0] ∧ world.descriptors 0 = 3 ∧
    PipesSafe world := by
  have hcalls : ∃ piped forked closed,
      (Op.pipe 0).perform emptyWorld = .ok piped ∧ (Op.fork 0).perform piped = .ok forked ∧
      (Op.close 0 0).perform forked = .ok closed ∧ forked.descriptors 0 = 4 ∧
      (forked.table? 0).bind (fun table => table.file? 0) = some ⟨0, ⟨false, true⟩, 0, none⟩ ∧
      closed.pipes = [0] ∧ closed.descriptors 0 = 3 :=
    ⟨_, _, _, rfl, rfl, rfl, rfl, rfl, rfl, rfl⟩
  obtain ⟨piped, forked, closed, hpipe, hfork, hclose, hfour, hslot, hpipes, hthree⟩ := hcalls
  have hinit : (system.restrict LeavesTwo).Reachable emptyWorld := .init emptyWorld_init
  have hfirst : LeavesTwo emptyWorld (.pipe 0) := trivial
  have hsecond : LeavesTwo piped (.fork 0) := trivial
  have hpiped : (system.restrict LeavesTwo).Reachable piped := hinit.step ⟨hfirst, hpipe⟩
  have hforked : (system.restrict LeavesTwo).Reachable forked := hpiped.step ⟨hsecond, hfork⟩
  have hleaves : LeavesTwo forked (.close 0 0) := by
    intro table file htable hfile _
    rw [htable, Option.bind_some, hfile] at hslot
    rw [Option.some.inj hslot, hfour]
    decide
  have hclosed : (system.restrict LeavesTwo).Reachable closed := hforked.step ⟨hleaves, hclose⟩
  exact ⟨closed, hclosed, hpipes, hthree, pipes_safe hclosed⟩

/-- A process makes a pipe and closes one of the two descriptors: the entry goes, and with
it the call goes for the filesystem node that a pipe does not have. -/
theorem pipe_loses_reference : ∃ world : World,
    system.Reachable world ∧ 0 ∈ world.pipes ∧ world.descriptors 0 = 2 ∧
    (Op.close 0 0).perform world = .error (.nullNode 0) := by
  have hcalls : ∃ piped, (Op.pipe 0).perform emptyWorld = .ok piped ∧ piped.pipes = [0] ∧
      piped.descriptors 0 = 2 ∧ (Op.close 0 0).perform piped = .error (.nullNode 0) :=
    ⟨_, rfl, rfl, rfl, rfl⟩
  obtain ⟨piped, hpipe, hpipes, htwo, hclose⟩ := hcalls
  have hinit : system.Reachable emptyWorld := .init emptyWorld_init
  have hpiped : system.Reachable piped := hinit.step hpipe
  exact ⟨piped, hpiped, by simp [hpipes], htwo, hclose⟩

end PKernel.Vfs.Pipeline
