import PKernel.Filesystem.FileTable
import PKernel.Filesystem.Ramfs
import PKernel.Library.Transition
import PKernel.Pkfs.FileData

/-! # Seeking

`syscall_seek` takes the length of a file from the `size` of its `fs_node_t`. The filesystems keep
the length elsewhere, ramfs in a field of its own behind the `fs_node_t` and pkfs in the data pages.
-/

namespace PKernel.Seek

open Library.Transition
open Vfs (File FileType Options)
open Function (update update_of_ne update_self)

/-- `fs_node_t`. -/
structure FsNode where
  delete : Bool
  references : Nat
  size : Nat
deriving DecidableEq, Repr

/-- Where the data are: a `ramfs_fs_node_t` of the heap, or the `file_page` of a `pkfs_fs_node_t`. -/
inductive Content where
  | ramfs (address : Nat)
  | pkfs (filePage : Nat)
deriving DecidableEq, Repr

/-- What an entry has of its file. -/
structure Node where
  type : FileType
  base : FsNode
  content : Content
deriving DecidableEq, Repr

/-- The nodes by their entries, the open files by their descriptors, and what the filesystems keep. -/
structure World where
  storage : Ramfs.Storage
  device : Pkfs.Device
  nodes : Nat → Option Node
  files : Nat → Option File

/-- `seek_origin_t`, with all other numbers as one. -/
inductive Origin where
  | seekSet
  | seekEnd
  | seekCur
  | other
deriving DecidableEq, Repr

inductive SeekError where
  | badFd
  | isDir
  | badArg
deriving DecidableEq, Repr

/-- `fs_node_init`. -/
def fsNodeInit : FsNode := ⟨false, 1, 0⟩

namespace World

/-- The `read` of the superblock operations. A `read_file` that fails has read nothing. -/
def contentRead (world : World) (fuel size offset : Nat) : Content → Option (List UInt8)
  | .ramfs address => (Ramfs.ramfsRead world.storage address size offset).toOption
  | .pkfs filePage =>
      (Pkfs.readFile fuel filePage size offset world.device).toOption.map fun result =>
        result.1.getD []

/-- The `write` of the superblock operations, with the bytes it says it wrote. -/
def contentWrite (world : World) (fuel : Nat) (data : List UInt8) (offset : Nat) :
    Content → Option (Nat × World)
  | .ramfs address => (Ramfs.ramfsWrite world.storage address data offset).toOption.map fun result =>
      (result.1, { world with storage := result.2 })
  | .pkfs filePage =>
      (Pkfs.writeFile fuel filePage data offset world.device).toOption.map fun result =>
        (result.1.getD 0, { world with device := result.2 })

/-- The file behind a descriptor, at another offset. -/
def moveTo (world : World) (fd : Nat) (file : File) (offset : Nat) : World :=
  { world with files := update world.files fd (some { file with offset }) }

end World

/-- `file_read` of a regular file: the bytes in the buffer. -/
def fileRead (world : World) (fuel fd : Nat) (file : File) (node : Node) (size : Nat) :
    Option (List UInt8 × World) :=
  if ¬file.options.read then some ([], world)
  else do
    let bytes ← world.contentRead fuel size file.offset node.content
    return (bytes, world.moveTo fd file (u64 (file.offset + bytes.length)))

/-- `file_write` of a regular file. -/
def fileWrite (world : World) (fuel fd : Nat) (file : File) (node : Node) (data : List UInt8) :
    Option (Nat × World) :=
  if ¬file.options.write then some (0, world)
  else do
    let (count, world) ← world.contentWrite fuel data file.offset node.content
    return (count, world.moveTo fd file (u64 (file.offset + count)))

/-- An unsigned offset from a signed number. -/
def unsigned (number : Int) : Nat := (number % 2 ^ 64).toNat

/-- `syscall_seek`. A descriptor is of an entry with a node, unless it is bad. -/
def syscallSeek (world : World) (fd : Nat) (offset : Int) (origin : Origin) :
    Except SeekError Unit × World :=
  match world.files fd with
  | none => (.error .badFd, world)
  | some file =>
      match world.nodes file.dirent with
      | none => (.error .badFd, world)
      | some node =>
          if node.type = .directory then (.error .isDir, world)
          else
            match origin with
            | .seekSet => (.ok (), world.moveTo fd file (unsigned offset))
            | .seekEnd => (.ok (), world.moveTo fd file (unsigned (node.base.size - offset)))
            | .seekCur => (.ok (), world.moveTo fd file (unsigned (file.offset + offset)))
            | .other => (.error .badArg, world)

/-! ## Runs -/

/-- One call, by any process. -/
inductive Step (world : World) : Unit → World → Prop
  /-- `ramfs_alloc_node` and `ramfs_create` of a regular file. -/
  | create {dirent address : Nat} {allocated made : Ramfs.Storage}
      (hfresh : world.nodes dirent = none)
      (halloc : Ramfs.ramfsAllocNode world.storage = .ok (address, allocated))
      (hcreate : Ramfs.ramfsCreateNode allocated address .regular = .ok (true, made)) :
      Step world () { world with
        storage := made
        nodes := update world.nodes dirent
          (some ⟨.regular, fsNodeInit, .ramfs address⟩) }
  /-- `alloc_node` and `lookup` of pkfs, which finds a file or a directory on the disc. -/
  | lookup {dirent filePage : Nat} {type : FileType} (hfresh : world.nodes dirent = none) :
      Step world () { world with
        nodes := update world.nodes dirent (some ⟨type, fsNodeInit, .pkfs filePage⟩) }
  | open {fd dirent : Nat} {options : Options} (hfree : world.files fd = none) :
      Step world () { world with
        files := update world.files fd (some ⟨dirent, options, 0, none⟩) }
  /-- `file_clone`, for the table of another process. -/
  | clone {fd copy : Nat} {file : File} (hfile : world.files fd = some file)
      (hfree : world.files copy = none) :
      Step world () { world with files := update world.files copy (some file) }
  | close {fd : Nat} : Step world () { world with files := update world.files fd none }
  | read {fd fuel size : Nat} {file : File} {node : Node} {bytes : List UInt8} {next : World}
      (hfile : world.files fd = some file) (hnode : world.nodes file.dirent = some node)
      (hcall : fileRead world fuel fd file node size = some (bytes, next)) : Step world () next
  | write {fd fuel count : Nat} {file : File} {node : Node} {data : List UInt8} {next : World}
      (hfile : world.files fd = some file) (hnode : world.nodes file.dirent = some node)
      (hcall : fileWrite world fuel fd file node data = some (count, next)) : Step world () next
  | seek {fd : Nat} {offset : Int} {origin : Origin} :
      Step world () (syscallSeek world fd offset origin).2

/-- All runs from a state in which no file is in use, with any disc. -/
def seeking : System World Unit where
  init world := world.nodes = (fun _ => none) ∧ world.files = fun _ => none
  step := Step

/-! ## Lengths -/

/-- So many bytes are returned by a read from the start that asks for enough. -/
def HasLength (world : World) (content : Content) (length : Nat) : Prop :=
  ∃ enough < 2 ^ 64, ∀ size, enough ≤ size → size < 2 ^ 64 → ∃ steps, ∀ fuel, steps ≤ fuel →
    ∃ bytes, world.contentRead fuel size 0 content = some bytes ∧ bytes.length = length

/-- A seek to the end sets the offset to the length. -/
def SeeksToEnd (world : World) (fd : Nat) (content : Content) : Prop :=
  ∃ file, (syscallSeek world fd 0 .seekEnd).2.files fd = some file ∧
    HasLength world content file.offset

variable {world next : World} {fd fuel dirent address filePage length : Nat} {file : File}
  {node : Node}

/-- A file has one length. -/
theorem HasLength.unique {content : Content} {other : Nat} (hlength : HasLength world content length)
    (hother : HasLength world content other) : length = other := by
  obtain ⟨enough, hlt, hreads⟩ := hlength
  obtain ⟨enough', hlt', hreads'⟩ := hother
  obtain ⟨steps, hread⟩ := hreads (max enough enough') (by omega) (by omega)
  obtain ⟨steps', hread'⟩ := hreads' (max enough enough') (by omega) (by omega)
  obtain ⟨bytes, hbytes, rfl⟩ := hread (max steps steps') (by omega)
  obtain ⟨bytes', hbytes', rfl⟩ := hread' (max steps steps') (by omega)
  rw [Option.some.inj (hbytes.symm.trans hbytes')]

/-- On ramfs the length is the size that `ramfs_write` keeps. -/
theorem hasLength_ramfs {held : Ramfs.Node} (hheld : world.storage.nodes address = some held)
    (hlength : held.size < 2 ^ 64) : HasLength world (.ramfs address) held.size := by
  refine ⟨held.size, hlength, fun size hsize hlt => ⟨0, fun fuel _ => ?_⟩⟩
  obtain ⟨bytes, hread, hbytes⟩ : ∃ bytes,
      Ramfs.ramfsRead world.storage address size 0 = .ok bytes ∧ bytes.length = held.size := by
    refine ⟨_, Ramfs.ramfsRead_touched hheld, ?_⟩
    rw [List.length_map, Ramfs.touched_length, Ramfs.Node.readSize_eq (by omega)]
    omega
  refine ⟨bytes, ?_, hbytes⟩
  rw [World.contentRead, hread]
  rfl

/-! ## The field of the node -/

/-- The `size` of each `fs_node_t` is what `fs_node_init` set it to. -/
def Untouched (world : World) : Prop :=
  ∀ dirent node, world.nodes dirent = some node → node.base.size = 0

theorem Untouched.update (huntouched : Untouched world) {type : FileType} {content : Content}
    (hnodes : next.nodes =
      update world.nodes dirent (some ⟨type, fsNodeInit, content⟩)) :
    Untouched next := by
  intro other node hnode
  rw [hnodes] at hnode
  by_cases hsame : other = dirent
  · rw [hsame, update_self] at hnode
    cases hnode
    rfl
  · rw [update_of_ne hsame] at hnode
    exact huntouched other node hnode

theorem nodes_of_write {count offset : Nat} {data : List UInt8} {content : Content}
    (hcall : world.contentWrite fuel data offset content = some (count, next)) :
    next.nodes = world.nodes := by
  cases content with
  | ramfs address =>
      obtain ⟨result, -, hsame⟩ := Option.map_eq_some_iff.mp hcall
      cases hsame
      rfl
  | pkfs filePage =>
      obtain ⟨result, -, hsame⟩ := Option.map_eq_some_iff.mp hcall
      cases hsame
      rfl

theorem nodes_of_seek (world : World) (fd : Nat) (offset : Int) (origin : Origin) :
    (syscallSeek world fd offset origin).2.nodes = world.nodes := by
  unfold syscallSeek
  split
  · rfl
  · split
    · rfl
    · split
      · rfl
      · cases origin <;> rfl

/-- No call writes the field. -/
theorem Untouched.step (huntouched : Untouched world) (hstep : Step world () next) :
    Untouched next := by
  have hsame {next : World} (hnodes : next.nodes = world.nodes) : Untouched next :=
    fun dirent node hnode => huntouched dirent node (hnodes ▸ hnode)
  cases hstep with
  | create hfresh halloc hcreate => exact huntouched.update rfl
  | lookup hfresh => exact huntouched.update rfl
  | «open» hfree => exact hsame rfl
  | clone hfile hfree => exact hsame rfl
  | close => exact hsame rfl
  | read hfile hnode hcall =>
      refine hsame ?_
      unfold fileRead at hcall
      split at hcall
      · cases hcall
        rfl
      · obtain ⟨bytes, -, hcall⟩ := Option.bind_eq_some_iff.mp hcall
        cases hcall
        rfl
  | write hfile hnode hcall =>
      refine hsame ?_
      unfold fileWrite at hcall
      split at hcall
      · cases hcall
        rfl
      · obtain ⟨⟨count, written⟩, hwrite, hcall⟩ := Option.bind_eq_some_iff.mp hcall
        cases hcall
        have hnodes : written.nodes = world.nodes := nodes_of_write hwrite
        exact hnodes
  | seek => exact hsame (nodes_of_seek _ _ _ _)

theorem untouched_inductive : seeking.Inductive Untouched where
  init _ hinit dirent node hnode := by
    rw [hinit.1] at hnode
    cases hnode
  step _ _ _ huntouched hstep := huntouched.step hstep

/-! ## The end of a file -/

/-- A seek to the end goes to the start. -/
theorem seekEnd_offset (huntouched : Untouched world) (hfile : world.files fd = some file)
    (hnode : world.nodes file.dirent = some node) (hregular : node.type = .regular) :
    (syscallSeek world fd 0 .seekEnd).2.files fd = some { file with offset := 0 } := by
  have hsize : node.base.size = 0 := huntouched _ _ hnode
  rw [syscallSeek]
  simp only [hfile, hnode, hregular, hsize]
  exact update_self _ _ _

/-- In every run a seek to the end sets the offset to the length of a regular file exactly if the
file is empty. -/
theorem seeksToEnd_iff (hreach : seeking.Reachable world) (hfile : world.files fd = some file)
    (hnode : world.nodes file.dirent = some node) (hregular : node.type = .regular) :
    SeeksToEnd world fd node.content ↔ HasLength world node.content 0 := by
  have hseek := seekEnd_offset (hreach.invariant untouched_inductive) hfile hnode hregular
  constructor
  · rintro ⟨moved, hmoved, hlength⟩
    cases hseek.symm.trans hmoved
    exact hlength
  · exact fun hlength => ⟨_, hseek, hlength⟩

/-! ## A file of one byte -/

/-- A file on ramfs, open as the descriptor 0. -/
def opened (storage : Ramfs.Storage) (address offset : Nat) : World where
  storage := storage
  device := Pkfs.oneByteImage
  nodes := update (fun _ => none) 1 (some ⟨.regular, fsNodeInit, .ramfs address⟩)
  files := update (fun _ => none) 0 (some ⟨1, ⟨true, true⟩, offset, none⟩)

variable {storage allocated made written : Ramfs.Storage} {offset : Nat}

theorem opened_file : (opened storage address offset).files 0 =
    some ⟨1, ⟨true, true⟩, offset, none⟩ := by simp [opened]

theorem opened_node : (opened storage address offset).nodes 1 =
    some ⟨.regular, fsNodeInit, .ramfs address⟩ := by simp [opened]

/-- It is made and opened. -/
theorem opened_reachable
    (halloc : Ramfs.ramfsAllocNode ⟨Heap.heapInit fun _ => 0, fun _ => none⟩ = .ok (address, allocated))
    (hcreate : Ramfs.ramfsCreateNode allocated address .regular = .ok (true, made)) :
    seeking.Reachable (opened made address 0) := by
  have hinit : seeking.Reachable ⟨⟨Heap.heapInit fun _ => 0, fun _ => none⟩, Pkfs.oneByteImage,
      fun _ => none, fun _ => none⟩ := .init ⟨rfl, rfl⟩
  have hcreated : seeking.Reachable ⟨made, Pkfs.oneByteImage,
      update (fun _ => none) 1 (some ⟨.regular, fsNodeInit, .ramfs address⟩),
      fun _ => none⟩ := hinit.step (.create rfl halloc hcreate)
  exact hcreated.step (.open rfl)

/-- And written to. -/
theorem opened_write {data : List UInt8} {count : Nat} (hcount : offset + count < 2 ^ 64)
    (hwrite : Ramfs.ramfsWrite storage address data offset = .ok (count, written)) :
    Step (opened storage address offset) () (opened written address (offset + count)) := by
  have hcall : fileWrite (opened storage address offset) 0 0 ⟨1, ⟨true, true⟩, offset, none⟩
      ⟨.regular, fsNodeInit, .ramfs address⟩ data =
        some (count, opened written address (offset + count)) := by
    have hcontent : (opened storage address offset).contentWrite 0 data offset (.ramfs address) =
        some (count, { opened storage address offset with storage := written }) := by
      simp only [World.contentWrite, opened, hwrite]
      rfl
    rw [fileWrite, if_neg (by simp), hcontent]
    simp [opened, World.moveTo, u64_eq_self hcount]
  exact .write opened_file opened_node hcall

/-- What the calls do to the size that ramfs keeps. -/
theorem exists_file : ∃ address made written, seeking.Reachable (opened made address 0) ∧
    HasLength (opened made address 0) (.ramfs address) 0 ∧
    seeking.Reachable (opened written address 1) ∧
    HasLength (opened written address 1) (.ramfs address) 1 := by
  have hcalls : (do
      let (address, allocated) ← Ramfs.ramfsAllocNode ⟨Heap.heapInit fun _ => 0, fun _ => none⟩
      let (goesOn, made) ← Ramfs.ramfsCreateNode allocated address .regular
      let (count, written) ← Ramfs.ramfsWrite made address [65] 0
      return (goesOn, (made.nodes address).map Ramfs.Node.size, count,
        (written.nodes address).map Ramfs.Node.size)) = .ok (true, some 0, 1, some 1) := by
    decide +kernel
  obtain ⟨⟨address, allocated⟩, halloc, hcalls⟩ := bind_eq_ok.mp hcalls
  obtain ⟨⟨goesOn, made⟩, hcreate, hcalls⟩ := bind_eq_ok.mp hcalls
  obtain ⟨⟨count, written⟩, hwrite, hcalls⟩ := bind_eq_ok.mp hcalls
  simp only [pure_eq_ok, Except.ok.injEq, Prod.mk.injEq, Option.map_eq_some_iff] at hcalls
  obtain ⟨rfl, ⟨held, hheld, hzero⟩, rfl, held', hheld', hone⟩ := hcalls
  have hopened := opened_reachable halloc hcreate
  refine ⟨address, made, written, hopened, ?_, hopened.step (opened_write (by decide) hwrite), ?_⟩
  · rw [← hzero]
    exact hasLength_ramfs hheld (by omega)
  · rw [← hone]
    exact hasLength_ramfs hheld' (by omega)

/-- The seek is right as long as the file is empty. -/
theorem seeksToEnd_empty : ∃ world address, seeking.Reachable world ∧
    SeeksToEnd world 0 (.ramfs address) := by
  obtain ⟨address, made, -, hreach, hlength, -⟩ := exists_file
  exact ⟨_, address, hreach, (seeksToEnd_iff hreach opened_file opened_node rfl).mpr hlength⟩

/-- Behind a write of one byte it is not. -/
theorem not_seeksToEnd_written : ∃ world address, seeking.Reachable world ∧
    HasLength world (.ramfs address) 1 ∧ ¬SeeksToEnd world 0 (.ramfs address) := by
  obtain ⟨address, -, written, -, -, hreach, hlength⟩ := exists_file
  refine ⟨_, address, hreach, hlength, ?_⟩
  rintro ⟨moved, hmoved, hother⟩
  rw [seekEnd_offset (hreach.invariant untouched_inductive) opened_file opened_node rfl] at hmoved
  cases hmoved
  exact absurd (hlength.unique hother) (by decide)

end PKernel.Seek
