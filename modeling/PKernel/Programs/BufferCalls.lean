import PKernel.Filesystem.File
import PKernel.Filesystem.Ramfs
import PKernel.Paging.KernelMemory
import PKernel.Paging.ReferenceRun

/-! # Calls with a buffer of the process

`syscall_read`, `syscall_write`, `syscall_readdir` and `syscall_pipe` look up the kernel's address of
one byte, the first of the buffer, and hand it to the file. The mapping that the byte is in is not
asked whether it may be written, nor how far it reaches.
-/

namespace PKernel.Buffers

open Library.Transition
open Pman (Mapping State World getVaddr kernelPointer)
open Vfs (File FileType Name)

/-- The error codes of the calls. -/
inductive Errno where
  | fault
  | badFd
  | inval
  | isDir
  | notDir
  | range
  /-- What an operation of a filesystem or of a socket returned. -/
  | operation (code : Int)
deriving DecidableEq, Repr

/-- What is behind `read` and `write` of an entry. -/
structure Operations where
  /-- The bytes for a buffer of some size, from an offset of the file on, and the result. -/
  read : Nat → Nat → List UInt8 × Int
  /-- How many bytes of such a buffer are taken, and the result. -/
  write : Nat → Nat → Nat × Int

/-- A file behind a descriptor, with what its entry has for the calls. -/
structure OpenFile where
  file : File
  type : FileType
  operations : Operations
  /-- The type and the name of the entry at `current_node`, or none at the tail. -/
  current : Option (FileType × Name)

/-- What a call does at addresses of the kernel, and what it returns. -/
structure Outcome where
  loads : List Nat
  stores : List (Nat × UInt8)
  result : Except Errno Nat

/-- A call that fails before it comes to the buffer. -/
def Outcome.fails (errno : Errno) : Outcome := ⟨[], [], .error errno⟩

/-- Bytes from an address on. -/
def place (address : Nat) (bytes : List UInt8) : List (Nat × UInt8) :=
  bytes.mapIdx fun i byte => (address + i, byte)

/-! ## The code -/

/-- `file_read`. What a pipe or a socket returns is not looked at. -/
def fileRead (file : OpenFile) (buffer size : Nat) : Outcome :=
  if ¬file.file.options.read then .fails .inval
  else
    match file.type with
    | .directory => .fails .isDir
    | .pipe | .socket =>
        let bytes := (file.operations.read size 0).1
        ⟨[], place buffer bytes, .ok bytes.length⟩
    | .regular | .device =>
        let (bytes, result) := file.operations.read size file.file.offset
        ⟨[], place buffer bytes,
          if result ≠ 0 then .error (.operation result) else .ok bytes.length⟩

/-- `file_write`. -/
def fileWrite (file : OpenFile) (buffer size : Nat) : Outcome :=
  if ¬file.file.options.write then .fails .inval
  else
    match file.type with
    | .directory => .fails .isDir
    | .pipe | .socket => taken (file.operations.write size 0)
    | .regular | .device => taken (file.operations.write size file.file.offset)
where
  taken : Nat × Int → Outcome := fun (count, result) =>
    ⟨(List.range count).map fun i => buffer + i, [],
      if result ≠ 0 then .error (.operation result) else .ok count⟩

section Code

-- `sizeof(directory_entry_t)`, and the bytes of a `struct dirent` with some fields.
variable (direntSize : Nat) (layout : FileType → Nat → Name → List UInt8)

/-- `file_readdir`. -/
def fileReaddir (file : OpenFile) (entries size : Nat) : Outcome :=
  if ¬file.file.options.read then .fails .inval
  else if file.type ≠ .directory then .fails .notDir
  else
    match file.current with
    | none => ⟨[], [], .ok 0⟩
    | some (type, name) =>
        let entryLength := direntSize + name.length + 1
        if size < entryLength then .fails .range
        else ⟨[], place entries (layout type entryLength name), .ok 1⟩

/-- What the calls begin with: the kernel's address of the buffer. -/
def withBuffer (state : State) (context vaddr : Nat) (call : Nat → Outcome) :
    Except Fault Outcome := do
  let buffer ← kernelPointer state context vaddr
  if buffer = 0 then return .fails .fault
  return call buffer

/-- And what those with a descriptor go on with. -/
def withFile (file : Option OpenFile) (call : OpenFile → Outcome) : Outcome :=
  match file with
  | none => .fails .badFd
  | some file => call file

/-- `syscall_read`, with the file behind the descriptor. -/
def syscallRead (state : State) (context vaddr size : Nat) (file : Option OpenFile) :
    Except Fault Outcome :=
  withBuffer state context vaddr fun buffer => withFile file fun file => fileRead file buffer size

/-- `syscall_write`. -/
def syscallWrite (state : State) (context vaddr size : Nat) (file : Option OpenFile) :
    Except Fault Outcome :=
  withBuffer state context vaddr fun buffer => withFile file fun file => fileWrite file buffer size

/-- `syscall_readdir`. -/
def syscallReaddir (state : State) (context vaddr size : Nat) (file : Option OpenFile) :
    Except Fault Outcome :=
  withBuffer state context vaddr fun entries =>
    withFile file fun file => fileReaddir direntSize layout file entries size

/-- `syscall_pipe`, with the bytes of the two descriptors. `fs_make_anon_pipe` never fails. -/
def syscallPipe (state : State) (context vaddr : Nat) (fds : List UInt8) : Except Fault Outcome :=
  withBuffer state context vaddr fun buffer => ⟨[], place buffer fds, .ok 0⟩

/-- The calls that store into the buffer. -/
inductive Call where
  | read (size : Nat) (file : Option OpenFile)
  | readdir (size : Nat) (file : Option OpenFile)
  | pipe (fds : List UInt8)

def Call.perform (state : State) (context vaddr : Nat) : Call → Except Fault Outcome
  | read size file => syscallRead state context vaddr size file
  | readdir size file => syscallReaddir direntSize layout state context vaddr size file
  | pipe fds => syscallPipe state context vaddr fds

end Code

/-! ## The mapping of the buffer -/

/-- An address is in a mapping of a context. -/
def Contains (state : State) (context vaddr id : Nat) (mapping : Mapping) : Prop :=
  ∃ target, state.contexts context = some target ∧ id ∈ target.mappings ∧
    state.mappings id = some mapping ∧ mapping.vaddr ≤ vaddr ∧
    vaddr < mapping.vaddr + mapping.sizePages * pageSize

/-- The mapping that `process_user_to_kernel` finds for an address, and the root behind it. -/
structure Found (state : State) (context vaddr : Nat) (mapping root : Mapping) : Prop where
  found : ∃ id rootId, getVaddr state context vaddr = .ok (some id) ∧
    Contains state context vaddr id mapping ∧ state.root id = .ok rootId ∧
    state.mappings rootId = some root
  pointer : kernelPointer state context vaddr = .ok (vaddr - mapping.vaddr + root.vaddr)

section Lookup

variable {state : State} {held : List Nat} {context vaddr id rootId : Nat} {mapping root : Mapping}

theorem Found.of_get (hget : getVaddr state context vaddr = .ok (some id))
    (hcontains : Contains state context vaddr id mapping) (hrootId : state.root id = .ok rootId)
    (hroot : state.mappings rootId = some root) : Found state context vaddr mapping root := by
  obtain ⟨target, htarget, hid, hmapping, hrange⟩ := hcontains
  refine ⟨⟨id, rootId, hget, ⟨target, htarget, hid, hmapping, hrange⟩, hrootId, hroot⟩, ?_⟩
  rw [kernelPointer, Pman.processUserToKernel, hget]
  simp only [ok_bind, State.mapping_eq_ok.mpr hmapping, hrootId, State.mapping_eq_ok.mpr hroot,
    pure_eq_ok, Option.getD_some]

theorem root_exists (hcounted : Pman.Counted state held)
    (hmapping : state.mappings id = some mapping) :
    ∃ rootId root, state.root id = .ok rootId ∧ state.mappings rootId = some root := by
  cases hlender : mapping.kind.lender? with
  | none =>
      have hisRoot := Pman.Kind.lender?_eq_none_iff.mp hlender
      exact ⟨id, mapping, State.root_of_isRoot hmapping hisRoot, hmapping⟩
  | some lender =>
      obtain ⟨root, hroot, hisRoot⟩ := hcounted.lender id mapping lender hmapping hlender
      have hpositive : 0 < state.nextMapping := Nat.zero_lt_of_lt (hcounted.id_lt hmapping)
      exact ⟨lender, root, State.root_of_lender hpositive hmapping hlender hroot hisRoot, hroot⟩

/-- An address is in a mapping that is found, with its root, or in none, and then the kernel has no
address for it. -/
theorem lookup (hcounted : Pman.Counted state held) (hcontext : (state.contexts context).isSome)
    (vaddr : Nat) :
    (∃ mapping root, Found state context vaddr mapping root) ∨
      kernelPointer state context vaddr = .ok 0 ∧
        ∀ id mapping, ¬Contains state context vaddr id mapping := by
  obtain ⟨target, htarget⟩ := Option.isSome_iff_exists.mp hcontext
  have hget := Pman.getVaddr_eq_find? vaddr htarget
  cases hfind : target.mappings.find? (state.within vaddr) with
  | none =>
      right
      rw [hfind] at hget
      constructor
      · rw [kernelPointer, Pman.processUserToKernel, hget]
        rfl
      · rintro id mapping ⟨target', htarget', hid, hmapping, hrange⟩
        cases htarget.symm.trans htarget'
        exact List.find?_eq_none.mp hfind id hid (State.within_iff.mpr ⟨mapping, hmapping, hrange⟩)
  | some id =>
      left
      rw [hfind] at hget
      obtain ⟨mapping, hmapping, hrange⟩ := State.within_iff.mp (List.find?_some hfind)
      obtain ⟨rootId, root, hrootId, hroot⟩ := root_exists hcounted hmapping
      exact ⟨mapping, root, .of_get hget ⟨target, htarget, List.mem_of_find?_eq_some hfind,
        hmapping, hrange⟩ hrootId hroot⟩

theorem exists_pointer (hcounted : Pman.Counted state held)
    (hcontext : (state.contexts context).isSome) (vaddr : Nat) :
    ∃ buffer, kernelPointer state context vaddr = .ok buffer := by
  rcases lookup hcounted hcontext vaddr with ⟨mapping, root, hfound⟩ | ⟨hnull, _⟩
  · exact ⟨_, hfound.pointer⟩
  · exact ⟨0, hnull⟩

end Lookup

/-! ## Permission -/

section Permission

variable (direntSize : Nat) (layout : FileType → Nat → Name → List UInt8)

/-- No mapping of the process that the address is in may be written. -/
def ReadOnly (state : State) (context vaddr : Nat) : Prop :=
  ∀ id mapping, Contains state context vaddr id mapping → mapping.protection.write = false

/-- Through an address that may not be written nothing is, and the call fails. -/
def Guarded (call : Call) (state : State) (context vaddr : Nat) : Prop :=
  ReadOnly state context vaddr → ∃ outcome errno,
    call.perform direntSize layout state context vaddr = .ok outcome ∧ outcome.stores = [] ∧
      outcome.result = .error errno

/-- A file that `file_read` does not read from. -/
def OpenFile.RefusesRead (file : OpenFile) (size : Nat) : Prop :=
  file.file.options.read = false ∨ file.type = .directory ∨
    (file.type = .regular ∨ file.type = .device) ∧
      (file.operations.read size file.file.offset).1 = [] ∧
      (file.operations.read size file.file.offset).2 ≠ 0

/-- A file that `file_readdir` does not list, or whose next entry is too long. -/
def OpenFile.RefusesListing (file : OpenFile) (size : Nat) : Prop :=
  file.file.options.read = false ∨ file.type ≠ .directory ∨
    ∃ type name, file.current = some (type, name) ∧ size < direntSize + name.length + 1

/-- The call fails without a look at the buffer: there is no file, or the file refuses. -/
def Call.Refuses : Call → Prop
  | read size file => ∀ opened, file = some opened → opened.RefusesRead size
  | readdir size file => ∀ opened, file = some opened → opened.RefusesListing direntSize size
  | pipe _ => False

variable {direntSize layout} {state : State} {context vaddr buffer size : Nat} {file : OpenFile}
  {call : Call}

/-- An outcome that stores nothing and is an error. -/
def Outcome.Refused (outcome : Outcome) : Prop :=
  outcome.stores = [] ∧ ∃ errno, outcome.result = .error errno

theorem Outcome.refused_fails (errno : Errno) : (fails errno).Refused := ⟨rfl, errno, rfl⟩

theorem place_eq_nil {bytes : List UInt8} : place buffer bytes = [] ↔ bytes = [] := by
  simp [place]

theorem fileRead_refused_iff : (fileRead file buffer size).Refused ↔ file.RefusesRead size := by
  unfold fileRead OpenFile.RefusesRead
  by_cases hread : file.file.options.read = true
  · rw [if_neg (not_not.mpr hread)]
    cases htype : file.type with
    | directory => simp [Outcome.refused_fails]
    | pipe => simp [Outcome.Refused, hread]
    | socket => simp [Outcome.Refused, hread]
    | regular =>
        simp only [Outcome.Refused, place_eq_nil, hread]
        by_cases hresult : (file.operations.read size file.file.offset).2 = 0 <;> simp [hresult]
    | device =>
        simp only [Outcome.Refused, place_eq_nil, hread]
        by_cases hresult : (file.operations.read size file.file.offset).2 = 0 <;> simp [hresult]
  · rw [if_pos hread]
    exact iff_of_true (Outcome.refused_fails _) (.inl (by simpa using hread))

theorem fileReaddir_refused_iff :
    (fileReaddir direntSize layout file buffer size).Refused ↔
      file.RefusesListing direntSize size := by
  unfold fileReaddir OpenFile.RefusesListing
  by_cases hread : file.file.options.read = true
  · rw [if_neg (not_not.mpr hread)]
    by_cases htype : file.type = .directory
    · rw [if_neg (not_not.mpr htype)]
      cases hcurrent : file.current with
      | none => simp [Outcome.Refused, hread, htype]
      | some entry =>
          obtain ⟨type, name⟩ := entry
          dsimp only
          by_cases hsize : size < direntSize + name.length + 1
          · rw [if_pos hsize]
            exact iff_of_true (Outcome.refused_fails _) (.inr (.inr ⟨type, name, rfl, hsize⟩))
          · rw [if_neg hsize]
            refine iff_of_false ?_ ?_
            · rintro ⟨-, errno, herror⟩
              cases herror
            · rintro (hclosed | hother | ⟨type', name', hentry, hshort⟩)
              · rw [hread] at hclosed
                cases hclosed
              · exact hother htype
              · cases hentry
                exact hsize hshort
    · rw [if_pos htype]
      exact iff_of_true (Outcome.refused_fails _) (.inr (.inl htype))
  · rw [if_pos hread]
    exact iff_of_true (Outcome.refused_fails _) (.inl (by simpa using hread))

/-- What becomes of a call whose buffer has an address. -/
theorem perform_refused_iff (hpointer : kernelPointer state context vaddr = .ok buffer)
    (hbuffer : buffer ≠ 0) :
    (∃ outcome, call.perform direntSize layout state context vaddr = .ok outcome ∧
      outcome.Refused) ↔ call.Refuses direntSize := by
  cases call with
  | read size file =>
      simp only [Call.perform, syscallRead, withBuffer, hpointer, ok_bind, hbuffer, if_false,
        pure_eq_ok, Except.ok.injEq, exists_eq_left', Call.Refuses]
      cases file with
      | none => simp [withFile, Outcome.refused_fails]
      | some file => simpa [withFile] using fileRead_refused_iff
  | readdir size file =>
      simp only [Call.perform, syscallReaddir, withBuffer, hpointer, ok_bind, hbuffer, if_false,
        pure_eq_ok, Except.ok.injEq, exists_eq_left', Call.Refuses]
      cases file with
      | none => simp [withFile, Outcome.refused_fails]
      | some file => simpa [withFile] using fileReaddir_refused_iff
  | pipe fds =>
      simp [Call.perform, syscallPipe, withBuffer, hpointer, hbuffer, Call.Refuses, Outcome.Refused]

/-- In every state of every run a call respects the permission of the buffer's mapping exactly if
it was given, or the kernel has no address for the buffer, or the call fails for another reason. -/
theorem guarded_iff {palloc : State → Nat → Option (List Nat)} {world : World}
    (hreach : (Pman.system palloc).Reachable world)
    (hcontext : (world.state.contexts context).isSome) :
    Guarded direntSize layout call world.state context vaddr ↔
      (∃ id mapping, Contains world.state context vaddr id mapping ∧
        mapping.protection.write = true) ∨
      kernelPointer world.state context vaddr = .ok 0 ∨ call.Refuses direntSize := by
  have hcounted := (hreach.invariant Pman.system_inductive).counted
  obtain ⟨buffer, hpointer⟩ := exists_pointer hcounted hcontext vaddr
  have hwritable : ¬ReadOnly world.state context vaddr ↔
      ∃ id mapping, Contains world.state context vaddr id mapping ∧
        mapping.protection.write = true := by
    simp [ReadOnly]
  rw [← hwritable, Guarded, imp_iff_not_or]
  refine or_congr_right ?_
  by_cases hbuffer : buffer = 0
  · subst hbuffer
    refine iff_of_true ⟨.fails .fault, .fault, ?_, rfl, rfl⟩ (.inl hpointer)
    cases call <;>
      simp [Call.perform, syscallRead, syscallReaddir, syscallPipe, withBuffer, hpointer]
  · have hrefused := @perform_refused_iff direntSize layout _ _ _ _ call hpointer hbuffer
    have hnull : kernelPointer world.state context vaddr ≠ .ok 0 := by
      rw [hpointer]
      exact fun heq => hbuffer (Except.ok.inj heq)
    rw [or_iff_right hnull, ← hrefused]
    constructor
    · rintro ⟨outcome, errno, hperform, hstores, hresult⟩
      exact ⟨outcome, hperform, hstores, errno, hresult⟩
    · rintro ⟨outcome, hperform, hstores, errno, hresult⟩
      exact ⟨outcome, errno, hperform, hstores, hresult⟩

end Permission

/-! ## Length -/

section Length

/-- `syscall_read` and `syscall_write`. -/
inductive Transfer where
  | read
  | write
deriving DecidableEq, Repr

def Transfer.perform (state : State) (context vaddr size : Nat) (file : Option OpenFile) :
    Transfer → Except Fault Outcome
  | read => syscallRead state context vaddr size file
  | write => syscallWrite state context vaddr size file

/-- The operations of a file keep to the size they are given. -/
def OpenFile.Keeps (file : OpenFile) : Prop :=
  ∀ size offset, (file.operations.read size offset).1.length ≤ size ∧
    (file.operations.write size offset).1 ≤ size

def Outcome.addresses (outcome : Outcome) : List Nat :=
  outcome.loads ++ outcome.stores.map Prod.fst

/-- A call that does not return an error stays in the root of the buffer's mapping. -/
def Inside (state : State) (context vaddr : Nat) (call : Except Fault Outcome) : Prop :=
  ∀ outcome count, call = .ok outcome → outcome.result = .ok count →
    ∀ address ∈ outcome.addresses, ∃ mapping root, Found state context vaddr mapping root ∧
      root.vaddr ≤ address ∧ address < root.vaddr + root.sizePages * pageSize

/-- Where the kernel has an address for the buffer, the bytes from there on are in the root. -/
def Fits (state : State) (context vaddr size : Nat) : Prop :=
  ∀ mapping root, Found state context vaddr mapping root →
    vaddr - mapping.vaddr + root.vaddr ≠ 0 → 0 < size →
    vaddr - mapping.vaddr + size ≤ root.sizePages * pageSize

variable {state : State} {context vaddr buffer size count : Nat} {file : OpenFile}
  {transfer : Transfer} {outcome : Outcome}

theorem mem_place {address : Nat} {bytes : List UInt8}
    (hmem : address ∈ (place buffer bytes).map Prod.fst) :
    ∃ i < bytes.length, address = buffer + i := by
  obtain ⟨⟨_, byte⟩, hstore, rfl⟩ := List.mem_map.mp hmem
  obtain ⟨i, hi, hbyte⟩ := List.mem_mapIdx.mp hstore
  exact ⟨i, hi, (congrArg Prod.fst hbyte).symm⟩

theorem mem_place_of_lt {bytes : List UInt8} {i : Nat} (hi : i < bytes.length) :
    buffer + i ∈ (place buffer bytes).map Prod.fst :=
  List.mem_map.mpr ⟨(buffer + i, bytes[i]), List.mem_mapIdx.mpr ⟨i, hi, rfl⟩, rfl⟩

/-- A read has bytes of the file for the buffer, or does nothing with it. -/
theorem fileRead_stores (file : OpenFile) (buffer size : Nat) :
    (fileRead file buffer size).loads = [] ∧ ((fileRead file buffer size).stores = [] ∨
      ∃ offset, (fileRead file buffer size).stores =
        place buffer (file.operations.read size offset).1) := by
  unfold fileRead
  split
  next => exact ⟨rfl, .inl rfl⟩
  next =>
    cases file.type with
    | directory => exact ⟨rfl, .inl rfl⟩
    | pipe => exact ⟨rfl, .inr ⟨0, rfl⟩⟩
    | socket => exact ⟨rfl, .inr ⟨0, rfl⟩⟩
    | regular => exact ⟨rfl, .inr ⟨file.file.offset, rfl⟩⟩
    | device => exact ⟨rfl, .inr ⟨file.file.offset, rfl⟩⟩

/-- A write takes bytes of the buffer, or does nothing with it. -/
theorem fileWrite_loads (file : OpenFile) (buffer size : Nat) :
    (fileWrite file buffer size).stores = [] ∧ ((fileWrite file buffer size).loads = [] ∨
      ∃ offset, (fileWrite file buffer size).loads =
        (List.range (file.operations.write size offset).1).map fun i => buffer + i) := by
  unfold fileWrite
  split
  next => exact ⟨rfl, .inl rfl⟩
  next =>
    cases file.type with
    | directory => exact ⟨rfl, .inl rfl⟩
    | pipe => exact ⟨rfl, .inr ⟨0, rfl⟩⟩
    | socket => exact ⟨rfl, .inr ⟨0, rfl⟩⟩
    | regular => exact ⟨rfl, .inr ⟨file.file.offset, rfl⟩⟩
    | device => exact ⟨rfl, .inr ⟨file.file.offset, rfl⟩⟩

/-- A listing has an entry for the buffer that fits into it, or does nothing with it. -/
theorem fileReaddir_stores (direntSize : Nat) (layout : FileType → Nat → Name → List UInt8)
    (file : OpenFile) (entries size : Nat) :
    (fileReaddir direntSize layout file entries size).stores = [] ∨
      ∃ type name, direntSize + name.length + 1 ≤ size ∧
        (fileReaddir direntSize layout file entries size).stores =
          place entries (layout type (direntSize + name.length + 1) name) := by
  unfold fileReaddir
  split
  next => exact .inl rfl
  next =>
    split
    next => exact .inl rfl
    next =>
      cases file.current with
      | none => exact .inl rfl
      | some entry =>
          obtain ⟨type, name⟩ := entry
          dsimp only
          split
          next => exact .inl rfl
          next hsize => exact .inr ⟨type, name, Nat.le_of_not_lt hsize, rfl⟩

/-- A file accesses the bytes of the buffer, and no more of them than there are. -/
theorem fileRead_addresses (hkeeps : file.Keeps) {address : Nat}
    (hmem : address ∈ (fileRead file buffer size).addresses) :
    ∃ i < size, address = buffer + i := by
  obtain ⟨hloads, hstores⟩ := fileRead_stores file buffer size
  rw [Outcome.addresses, hloads, List.nil_append] at hmem
  rcases hstores with hnone | ⟨offset, hplace⟩
  · rw [hnone] at hmem
    cases hmem
  · rw [hplace] at hmem
    obtain ⟨i, hi, rfl⟩ := mem_place hmem
    exact ⟨i, Nat.lt_of_lt_of_le hi (hkeeps size offset).1, rfl⟩

theorem fileWrite_addresses (hkeeps : file.Keeps) {address : Nat}
    (hmem : address ∈ (fileWrite file buffer size).addresses) :
    ∃ i < size, address = buffer + i := by
  obtain ⟨hstores, hloads⟩ := fileWrite_loads file buffer size
  rw [Outcome.addresses, hstores, List.map_nil, List.append_nil] at hmem
  rcases hloads with hnone | ⟨offset, htaken⟩
  · rw [hnone] at hmem
    cases hmem
  · rw [htaken] at hmem
    obtain ⟨i, hi, rfl⟩ := List.mem_map.mp hmem
    exact ⟨i, Nat.lt_of_lt_of_le (List.mem_range.mp hi) (hkeeps size offset).2, rfl⟩

theorem Found.unique {mapping other root otherRoot : Mapping}
    (hfound : Found state context vaddr mapping root)
    (hother : Found state context vaddr other otherRoot) : mapping = other ∧ root = otherRoot := by
  obtain ⟨id, rootId, hget, ⟨_, _, _, hmapping, _⟩, hrootId, hroot⟩ := hfound.found
  obtain ⟨id', rootId', hget', ⟨_, _, _, hmapping', _⟩, hrootId', hroot'⟩ := hother.found
  cases hget.symm.trans hget'
  cases hrootId.symm.trans hrootId'
  exact ⟨Option.some.inj (hmapping.symm.trans hmapping'),
    Option.some.inj (hroot.symm.trans hroot')⟩

/-- What a call does whose buffer has an address. -/
theorem perform_eq (hpointer : kernelPointer state context vaddr = .ok buffer)
    (hbuffer : buffer ≠ 0) (file : Option OpenFile) (transfer : Transfer) :
    transfer.perform state context vaddr size file = .ok (withFile file fun file =>
      match transfer with
      | .read => fileRead file buffer size
      | .write => fileWrite file buffer size) := by
  cases transfer <;>
    simp [Transfer.perform, syscallRead, syscallWrite, withBuffer, hpointer, hbuffer]

theorem perform_null (hpointer : kernelPointer state context vaddr = .ok 0)
    (file : Option OpenFile) (transfer : Transfer) :
    transfer.perform state context vaddr size file = .ok (.fails .fault) := by
  cases transfer <;> simp [Transfer.perform, syscallRead, syscallWrite, withBuffer, hpointer]

/-! ## Files in memory -/

/-- The operations of a file of ramfs, which writes the whole buffer. -/
def ramfsOperations (storage : Ramfs.Storage) (address : Nat) : Operations where
  read size offset :=
    match Ramfs.ramfsRead storage address size offset with
    | .ok bytes => (bytes, 0)
    | .error _ => ([], -1)
  write size _ := (size, 0)

/-- A file of ramfs that was opened for reading and writing. -/
def ramfsFile (storage : Ramfs.Storage) (address : Nat) : OpenFile where
  file := ⟨0, ⟨true, true⟩, 0, none⟩
  type := .regular
  operations := ramfsOperations storage address
  current := none

/-- A file of so many bytes, all the same. Reads do not look at the tags of the heap. -/
def fileOf (size : Nat) (byte : UInt8) : OpenFile :=
  ramfsFile ⟨⟨fun _ => byte, 0, 0, 0⟩, Function.update (fun _ => none) 64 (some ⟨size, 128⟩)⟩ 64

theorem ramfsRead_length {storage : Ramfs.Storage} {address offset : Nat} {bytes : List UInt8}
    (hread : Ramfs.ramfsRead storage address size offset = .ok bytes) : bytes.length ≤ size := by
  unfold Ramfs.ramfsRead at hread
  split at hread
  next => cases hread
  next node hnode =>
    split at hread
    next =>
      cases hread
      exact Nat.zero_le size
    next =>
      cases hread
      have hsum : u64 (size + offset) ≤ size + offset := Nat.mod_le _ _
      rw [List.length_map, List.length_range']
      split <;> omega

theorem ramfsFile_keeps (storage : Ramfs.Storage) (address : Nat) :
    (ramfsFile storage address).Keeps := by
  refine fun size offset => ⟨?_, Nat.le_refl size⟩
  dsimp only [ramfsFile, ramfsOperations]
  cases hread : Ramfs.ramfsRead storage address size offset with
  | error fault => exact Nat.zero_le size
  | ok bytes => exact ramfsRead_length hread

/-- A file of as many bytes as the buffer has fills it. -/
theorem fileRead_fileOf (buffer size : Nat) (byte : UInt8) :
    fileRead (fileOf size byte) buffer size =
      ⟨[], place buffer (List.replicate size byte), .ok size⟩ := by
  have hread : Ramfs.ramfsRead ⟨⟨fun _ => byte, 0, 0, 0⟩,
      Function.update (fun _ => none) 64 (some ⟨size, 128⟩)⟩ 64 size 0 =
      .ok (List.replicate size byte) := by
    simp only [Ramfs.ramfsRead, Function.update_self, Nat.sub_zero, ite_self, List.map_const',
      List.length_range', Nat.le_zero]
    by_cases hempty : size = 0
    · rw [if_pos hempty, hempty]
      rfl
    · rw [if_neg hempty]
  simp [fileRead, fileOf, ramfsFile, ramfsOperations, hread]

theorem fileWrite_fileOf (buffer size : Nat) (byte : UInt8) :
    fileWrite (fileOf size byte) buffer size =
      ⟨(List.range size).map fun i => buffer + i, [], .ok size⟩ := by
  simp [fileWrite, fileWrite.taken, fileOf, ramfsFile, ramfsOperations]

/-- Its last byte is among those that are accessed. -/
theorem perform_fileOf (hpointer : kernelPointer state context vaddr = .ok buffer)
    (hbuffer : buffer ≠ 0) (hsize : 0 < size) (byte : UInt8) (transfer : Transfer) :
    ∃ outcome, transfer.perform state context vaddr size (some (fileOf size byte)) = .ok outcome ∧
      outcome.result = .ok size ∧ buffer + (size - 1) ∈ outcome.addresses := by
  refine ⟨_, perform_eq hpointer hbuffer _ transfer, ?_⟩
  cases transfer with
  | read =>
      simp only [withFile, fileRead_fileOf, Outcome.addresses, List.nil_append, true_and]
      exact mem_place_of_lt (by rw [List.length_replicate]; omega)
  | write =>
      simp only [withFile, fileWrite_fileOf, Outcome.addresses, List.map_nil, List.append_nil,
        true_and]
      exact List.mem_map.mpr ⟨size - 1, List.mem_range.mpr (by omega), rfl⟩

/-! ## Both calls -/

/-- In every state of every run, whatever the file does within the size it is given, `syscall_read`
and `syscall_write` stay in the root of the buffer's mapping exactly if the buffer fits into it. -/
theorem inside_iff {palloc : State → Nat → Option (List Nat)} {world : World}
    (hreach : (Pman.system palloc).Reachable world)
    (hcontext : (world.state.contexts context).isSome) (vaddr size : Nat) (transfer : Transfer) :
    (∀ file : Option OpenFile, (∀ opened, file = some opened → opened.Keeps) →
      Inside world.state context vaddr
        (transfer.perform world.state context vaddr size file)) ↔
      Fits world.state context vaddr size := by
  have hcounted := (hreach.invariant Pman.system_inductive).counted
  constructor
  · intro hinside mapping root hfound hbuffer hsize
    obtain ⟨outcome, hperform, hresult, hmem⟩ :=
      perform_fileOf hfound.pointer hbuffer hsize 0 transfer
    have hkeeps : ∀ opened, some (fileOf size 0) = some opened → opened.Keeps := by
      intro opened hopened
      exact Option.some.inj hopened ▸ ramfsFile_keeps _ _
    obtain ⟨other, otherRoot, hother, hlow, hhigh⟩ :=
      hinside _ hkeeps outcome size hperform hresult _ hmem
    obtain ⟨rfl, rfl⟩ := hfound.unique hother
    omega
  · intro hfits file hkeeps outcome count hperform hresult address hmem
    rcases lookup hcounted hcontext vaddr with ⟨mapping, root, hfound⟩ | ⟨hnull, _⟩
    · by_cases hbuffer : vaddr - mapping.vaddr + root.vaddr = 0
      · rw [perform_null (hbuffer ▸ hfound.pointer)] at hperform
        cases hperform
        cases hresult
      · rw [perform_eq hfound.pointer hbuffer] at hperform
        cases hperform
        cases file with
        | none => cases hresult
        | some file =>
            obtain ⟨i, hi, rfl⟩ : ∃ i < size, address = vaddr - mapping.vaddr + root.vaddr + i := by
              cases transfer with
              | read => exact fileRead_addresses (hkeeps file rfl) hmem
              | write => exact fileWrite_addresses (hkeeps file rfl) hmem
            have hend := hfits mapping root hfound hbuffer (Nat.zero_lt_of_lt hi)
            exact ⟨mapping, root, hfound, by omega, by omega⟩
    · rw [perform_null hnull] at hperform
      cases hperform
      cases hresult

end Length

/-! ## A page -/

section Example

/-- A page of the kernel that is shared with a process at 0x8000, with a permission to write or
without. -/
structure PageShared (write : Bool) (world : World) : Prop where
  reach : (Pman.system fun _ _ => some [0x5000]).Reachable world
  context : (world.state.contexts 1).isSome
  found : Found world.state 1 0x8123 ⟨1, ⟨write, false, false, false⟩, 0x8000, 1, .shared 0⟩
    ⟨0, ⟨true, false, false, false⟩, 0, 1, .alloc 2 [0x5000]⟩
  only : ∀ id mapping, Contains world.state 1 0x8123 id mapping → mapping.protection.write = write
  alone : ∀ id mapping, world.state.mappings id = some mapping →
    mapping.context = Pman.kernelContext ∨ mapping.context = 1

theorem pageShared (write : Bool) : ∃ world, PageShared write world := by
  have hcalls : ∃ allocated shared target,
      Pman.addAlloc (fun _ _ => some [0x5000]) (Pman.newContext Pman.emptyState).2 0
        ⟨true, false, false, false⟩ 0 4096 = .ok (0, allocated) ∧
      Pman.addShared allocated 1 ⟨write, false, false, false⟩ 0 0x8000 = .ok (1, shared) ∧
      shared.contexts 1 = some target ∧ target.mappings = [1] ∧
      shared.mappings 1 = some ⟨1, ⟨write, false, false, false⟩, 0x8000, 1, .shared 0⟩ ∧
      shared.mappings 0 = some ⟨0, ⟨true, false, false, false⟩, 0, 1, .alloc 2 [0x5000]⟩ ∧
      shared.root 1 = .ok 0 ∧ shared.nextMapping = 2 := by
    exact ⟨_, _, _, rfl, rfl, rfl, rfl, rfl, rfl, rfl, rfl⟩
  obtain ⟨allocated, shared, target, halloc, hshare, htarget, hlist, hloan, hroot, hrootId, hnext⟩ :=
    hcalls
  have hget : getVaddr shared 1 0x8123 = .ok (some 1) := by
    rw [getVaddr, State.context_eq_ok.mpr htarget, ok_bind, pure_eq_ok, hlist]
    simp [hloan, pageSize]
  have hinit : (Pman.system fun _ _ => some [0x5000]).Reachable ⟨Pman.emptyState, []⟩ :=
    .init ⟨Pman.emptyState_booted, rfl⟩
  have hreach : (Pman.system fun _ _ => some [0x5000]).Reachable ⟨shared, [0]⟩ :=
    ((hinit.step .newContext).step (.addAlloc (by decide) halloc)).step (.addShared hshare)
  have hcontains : Contains shared 1 0x8123 1
      ⟨1, ⟨write, false, false, false⟩, 0x8000, 1, .shared 0⟩ :=
    ⟨target, htarget, hlist ▸ List.mem_cons_self, hloan, by simp, by simp [pageSize]⟩
  refine ⟨⟨shared, [0]⟩, hreach, by rw [htarget]; rfl, .of_get hget hcontains hrootId hroot, ?_, ?_⟩
  · rintro id mapping ⟨target', htarget', hid, hmapping, _⟩
    cases htarget.symm.trans htarget'
    obtain rfl : id = 1 := by simpa [hlist] using hid
    rw [← Option.some.inj (hloan.symm.trans hmapping)]
  · intro id mapping hmapping
    have hlt := (hreach.invariant Pman.system_inductive).counted.id_lt hmapping
    rw [hnext] at hlt
    obtain rfl | rfl : id = 0 ∨ id = 1 := by omega
    · exact .inl (Option.some.inj (hroot.symm.trans hmapping) ▸ rfl)
    · exact .inr (Option.some.inj (hloan.symm.trans hmapping) ▸ rfl)

variable {write : Bool} {world : World}

theorem PageShared.pointer_ne (hshared : PageShared write world) :
    ∃ buffer, kernelPointer world.state 1 0x8123 = .ok buffer ∧ buffer ≠ 0 := by
  refine ⟨_, hshared.found.pointer, ?_⟩
  dsimp only
  omega

/-- A read of one byte into a page that may be written. -/
theorem guarded_writable : ∃ world, PageShared true world ∧
    Guarded 24 (fun _ _ _ => []) (.read 1 (some (fileOf 1 0))) world.state 1 0x8123 := by
  obtain ⟨world, hshared⟩ := pageShared true
  obtain ⟨id, _, _, hcontains, _, _⟩ := hshared.found.found
  exact ⟨world, hshared, (guarded_iff hshared.reach hshared.context).mpr
    (.inl ⟨id, _, hcontains, rfl⟩)⟩

/-- And into one that may not. -/
theorem not_guarded_readOnly : ∃ world, PageShared false world ∧
    ReadOnly world.state 1 0x8123 ∧
      ¬Guarded 24 (fun _ _ _ => []) (.read 1 (some (fileOf 1 0))) world.state 1
        0x8123 := by
  obtain ⟨world, hshared⟩ := pageShared false
  refine ⟨world, hshared, hshared.only, fun hguarded => ?_⟩
  obtain ⟨buffer, hpointer, hbuffer⟩ := hshared.pointer_ne
  obtain ⟨outcome, errno, hperform, -, hresult⟩ := hguarded hshared.only
  obtain ⟨read, hread, hcount, -⟩ := perform_fileOf hpointer hbuffer Nat.one_pos 0 .read
  cases hread.symm.trans hperform
  rw [hcount] at hresult
  cases hresult

/-- Buffers of 16 bytes inside the page. -/
theorem inside_short : ∃ world, PageShared true world ∧
    ∀ file : Option OpenFile, (∀ opened, file = some opened → opened.Keeps) →
      Inside world.state 1 0x8123 (Transfer.read.perform world.state 1 0x8123 16 file) := by
  obtain ⟨world, hshared⟩ := pageShared true
  refine ⟨world, hshared, (inside_iff hshared.reach hshared.context 0x8123 16 .read).mpr ?_⟩
  intro mapping root hfound _ _
  obtain ⟨rfl, rfl⟩ := hshared.found.unique hfound
  unfold pageSize
  dsimp only
  omega

/-- A file of 5000 bytes is read over the end of the page. -/
theorem not_inside_long : ∃ world, PageShared true world ∧
    (fileOf 5000 0).Keeps ∧
      ¬Inside world.state 1 0x8123
        (syscallRead world.state 1 0x8123 5000 (some (fileOf 5000 0))) := by
  obtain ⟨world, hshared⟩ := pageShared true
  refine ⟨world, hshared, ramfsFile_keeps _ _, fun hinside => ?_⟩
  obtain ⟨outcome, hread, hcount, hmem⟩ :=
    perform_fileOf hshared.found.pointer (by dsimp only; omega) (show 0 < 5000 by decide) 0 .read
  obtain ⟨mapping, root, hfound, _, hhigh⟩ := hinside outcome _ hread hcount _ hmem
  obtain ⟨rfl, rfl⟩ := hshared.found.unique hfound
  unfold pageSize at hhigh
  dsimp only at hhigh
  omega

end Example

end PKernel.Buffers
