import PKernel.Pkfs.Superblock

/-! # Looking up names that are not there

`lookup` of `superblock_ops.c` ends when `page_address` is 0. Behind the children of a
directory the iterator says `FS_DET_NONE` and stores no address, so that `page_address` is
still that of the last child: the loop asks again for the rest of time. `list` ends there.
-/

namespace PKernel.Pkfs

open Operation

/-- A directory in the format. Its children are files and directories, with a NUL behind
their names. -/
structure WellFormedDirectory (device : Device) (directory first : Nat)
    (rest children : List Nat) : Prop extends DirectoryOn device directory first rest children where
  typed : ∀ child ∈ children, entryType device child ≠ .none
  terminated : ∀ child ∈ children, (device.pages child).name.length < nameMaxSize

/-- A lookup returns 0 with a new entry for a child that has the name, or an error if there
is none. -/
def LookupAnswers (state : Vfs.State) (device : Device) (dirent : Nat) (entry : Vfs.Entry)
    (children : List Nat) (name : Vfs.Name) (garbage : Nat) : Prop :=
  ∃ fuel result state', lookup fuel state device dirent name garbage = .ok (result, state') ∧
    ((result = .ok ∧ ∃ child ∈ children, (device.pages child).name = name ∧
        state'.entries dirent = some (entry.setDirent name (some state.next)) ∧
        state'.entries state.next = some
          ⟨some dirent, name, 1, (entryType device child).fileType, some child, []⟩) ∨
      result ≠ .ok ∧ ∀ child ∈ children, (device.pages child).name ≠ name)

variable {device : Device} {name : Vfs.Name} {iterator next : DirectoryIterator}
  {child garbage : Nat} {children slots : List Nat}

/-! ## The loop -/

theorem lookupLoop_child
    (hnext : directoryIteratorNext device iterator = (entryType device child, some child, next))
    (htyped : entryType device child ≠ .none)
    (hterminated : (device.pages child).name.length < nameMaxSize) (fuel garbage : Nat) :
    lookupLoop device name (fuel + 1) iterator garbage =
      if (device.pages child).name = name then .ok (some (entryType device child, child))
      else lookupLoop device name fuel next child := by
  have hchild := directoryIteratorNext_handle hnext
  rw [lookupLoop, hnext]
  simp only [Option.getD_some, hchild, htyped, if_false,
    bufferedName_eq (lt_size_of_entryType htyped), hterminated, if_true, ok_bind]
  rfl

/-- The loop comes to a child that has the name. -/
theorem Before.lookupLoop_found (hbefore : Before device iterator (children ++ slots))
    (hused : ∀ child ∈ children, child ≠ 0)
    (htyped : ∀ child ∈ children, entryType device child ≠ .none)
    (hterminated : ∀ child ∈ children, (device.pages child).name.length < nameMaxSize)
    (hname : ∃ child ∈ children, (device.pages child).name = name) (garbage : Nat) :
    ∃ child ∈ children, (device.pages child).name = name ∧
      lookupLoop device name children.length iterator garbage =
        .ok (some (entryType device child, child)) := by
  induction children generalizing iterator garbage with
  | nil => simp at hname
  | cons first rest ih =>
      obtain ⟨next, hnext, hbehind⟩ := Before.next hbefore (hused first List.mem_cons_self)
      rw [List.length_cons, lookupLoop_child hnext (htyped first List.mem_cons_self)
        (hterminated first List.mem_cons_self)]
      by_cases hfirst : (device.pages first).name = name
      · exact ⟨first, List.mem_cons_self, hfirst, if_pos hfirst⟩
      · have hrest : ∃ child ∈ rest, (device.pages child).name = name := by
          obtain ⟨child, hmem, hchild⟩ := hname
          rcases List.mem_cons.mp hmem with rfl | hmem
          · exact absurd hchild hfirst
          · exact ⟨child, hmem, hchild⟩
        obtain ⟨child, hmem, hchild, hcall⟩ := ih hbehind
          (fun child hmem => hused child (List.mem_cons_of_mem _ hmem))
          (fun child hmem => htyped child (List.mem_cons_of_mem _ hmem))
          (fun child hmem => hterminated child (List.mem_cons_of_mem _ hmem)) hrest first
        exact ⟨child, List.mem_cons_of_mem _ hmem, hchild, by rw [if_neg hfirst, hcall]⟩

/-- An address that is not 0 stays in `page_address` until another one takes its place. -/
theorem lookupLoop_ne_none (hgarbage : garbage ≠ 0) (fuel : Nat) :
    lookupLoop device name fuel iterator garbage ≠ .ok none := by
  induction fuel generalizing iterator garbage with
  | zero => nofun
  | succ fuel ih =>
      obtain ⟨⟨result, handle, next⟩, hnext⟩ :
        ∃ call, directoryIteratorNext device iterator = call := ⟨_, rfl⟩
      have haddress : handle.getD garbage ≠ 0 := by
        cases handle with
        | none => exact hgarbage
        | some handle => exact directoryIteratorNext_handle hnext
      rw [lookupLoop, hnext]
      simp only [haddress, if_false]
      split
      next => exact ih haddress
      next =>
        cases bufferedName device result (handle.getD garbage) with
        | error stop => nofun
        | ok buffer =>
            rw [ok_bind]
            split
            next => nofun
            next => exact ih haddress

/-- At a free slot with nothing in `page_address` the loop ends. -/
theorem Before.lookupLoop_free (hbefore : Before device iterator (0 :: slots)) (fuel : Nat) :
    lookupLoop device name (fuel + 1) iterator 0 = .ok none := by
  obtain ⟨place, hnext, hfree, -⟩ := hbefore.here
  rw [DirectoryIterator.here, if_pos hfree] at hnext
  rw [lookupLoop, hnext]
  rfl

/-- The loop ends without a child only in an empty directory, where `page_address` happened to
be 0. -/
theorem Before.eq_nil_of_lookupLoop (hbefore : Before device iterator (children ++ slots))
    (hused : ∀ child ∈ children, child ≠ 0)
    (htyped : ∀ child ∈ children, entryType device child ≠ .none)
    (hterminated : ∀ child ∈ children, (device.pages child).name.length < nameMaxSize)
    {fuel : Nat} (hcall : lookupLoop device name fuel iterator garbage = .ok none) :
    children = [] ∧ garbage = 0 := by
  refine ⟨?_, ?_⟩
  · cases children with
    | nil => rfl
    | cons first rest =>
        obtain ⟨next, hnext, -⟩ := Before.next hbefore (hused first List.mem_cons_self)
        cases fuel with
        | zero => cases hcall
        | succ fuel =>
            rw [lookupLoop_child hnext (htyped first List.mem_cons_self)
              (hterminated first List.mem_cons_self)] at hcall
            split at hcall
            next => cases hcall
            next =>
              exact absurd hcall (lookupLoop_ne_none (hused first List.mem_cons_self) fuel)
  · by_contra hgarbage
    exact lookupLoop_ne_none hgarbage fuel hcall

/-! ## The call -/

section Call

variable {state : Vfs.State} {dirent directory first : Nat} {entry : Vfs.Entry} {rest : List Nat}

/-- The call is the loop from the start of the directory. -/
theorem lookup_eq (hentry : state.entries dirent = some entry) (hnode : entry.node = some directory)
    (hinit : directoryIteratorInit directory device = .ok (some iterator, device))
    (fuel : Nat) (name : Vfs.Name) (garbage : Nat) :
    lookup fuel state device dirent name garbage =
      match lookupLoop device name fuel iterator garbage with
      | .error stop => .error (.disc stop)
      | .ok none => .ok (.noEntry, state)
      | .ok (some (type, page)) =>
          .ok (.ok, (Vfs.directoryEntryCreate state type.fileType (some dirent) name
            (some page)).2.set dirent (entry.setDirent name (some state.next))) := by
  have hopen : onEntries (state.entry dirent) = .ok entry := by
    rw [onEntries_eq_ok, Vfs.State.entry, hentry]
  have hiterator : onDisc (directoryIteratorInit directory) device = .ok (some iterator, device) :=
    onDisc_eq_ok.mpr hinit
  rw [lookup, hopen, ok_bind, hnode]
  simp only [hiterator, ok_bind]
  cases lookupLoop device name fuel iterator garbage with
  | error stop => rfl
  | ok found =>
      cases found with
      | none => rfl
      | some found => rfl

theorem LookupAnswers.found_or_empty
    (hdirectory : WellFormedDirectory device directory first rest children)
    (hentry : state.entries dirent = some entry) (hnode : entry.node = some directory)
    (hanswers : LookupAnswers state device dirent entry children name garbage) :
    (∃ child ∈ children, (device.pages child).name = name) ∨ children = [] ∧ garbage = 0 := by
  obtain ⟨iterator, free, hinit, hbefore, -⟩ := hdirectory.toDirectoryOn.before
  obtain ⟨fuel, result, state', hlookup, ⟨rfl, child, hmem, hname, -⟩ | ⟨hresult, -⟩⟩ := hanswers
  · exact .inl ⟨child, hmem, hname⟩
  · right
    rw [lookup_eq hentry hnode hinit] at hlookup
    cases hloop : lookupLoop device name fuel iterator garbage with
    | error stop =>
        rw [hloop] at hlookup
        cases hlookup
    | ok found =>
        cases found with
        | none =>
            exact hbefore.eq_nil_of_lookupLoop hdirectory.used hdirectory.typed
              hdirectory.terminated hloop
        | some found =>
            rw [hloop] at hlookup
            cases hlookup
            exact absurd rfl hresult

/-- A lookup answers exactly if a child has the name, or if there are no children and the local
variable happened to be 0. -/
theorem lookupAnswers_iff
    (hdirectory : WellFormedDirectory device directory first rest children)
    (hentry : state.entries dirent = some entry) (hnode : entry.node = some directory)
    (hfresh : state.entries state.next = none) (name : Vfs.Name) (garbage : Nat) :
    LookupAnswers state device dirent entry children name garbage ↔
      (∃ child ∈ children, (device.pages child).name = name) ∨ children = [] ∧ garbage = 0 := by
  obtain ⟨iterator, free, hinit, hbefore, hcount⟩ := hdirectory.toDirectoryOn.before
  have hcall := lookup_eq hentry hnode hinit
  constructor
  · exact LookupAnswers.found_or_empty hdirectory hentry hnode
  · rintro (hname | ⟨rfl, rfl⟩)
    · obtain ⟨child, hmem, hchild, hloop⟩ := hbefore.lookupLoop_found hdirectory.used
        hdirectory.typed hdirectory.terminated hname garbage
      have hne : state.next ≠ dirent := by
        rintro rfl
        rw [hfresh] at hentry
        cases hentry
      refine ⟨children.length, .ok, _, by rw [hcall, hloop], .inl ⟨rfl, child, hmem, hchild, ?_, ?_⟩⟩
      · simp [Vfs.State.set]
      · simp [Vfs.State.set, Vfs.directoryEntryCreate, hne]
    · have hfree : 0 < free := by
        rw [List.length_nil, Nat.zero_add] at hcount
        rw [hcount]
        exact Nat.mul_pos (by decide) (Nat.succ_pos _)
      obtain ⟨more, rfl⟩ := Nat.exists_eq_succ_of_ne_zero hfree.ne'
      refine ⟨1, .noEntry, state, ?_, .inr ⟨by decide, by simp⟩⟩
      have hfirst : Before device iterator (0 :: List.replicate more 0) := hbefore
      rw [hcall, hfirst.lookupLoop_free 0]

end Call

/-! ## A directory with one file -/

/-- The root directory has the file 67 under the name `a`. -/
def oneFileImage : Device := linkedTo oneByteImage 65 67 [97] 0

/-- What its pages say. -/
theorem oneFileImage_contents :
    (oneFileImage.word 65 targetField = 66 ∧ oneFileImage.word 66 nextField = 0 ∧
      pageSlots oneFileImage 66 = 67 :: List.replicate 59 0) ∧
    (entryType oneFileImage 67 = .file ∧ (oneFileImage.pages 67).name = [97] ∧
      oneFileImage.word 67 targetField = 68) ∧
    oneFileImage.word 68 nextField = 0 ∧ (oneFileImage.pages 68).size = 1 := by
  decide +kernel

theorem oneFileImage_directory : WellFormedDirectory oneFileImage 65 66 [] [67] := by
  obtain ⟨⟨hroot, hnext, hslots⟩, ⟨htype, hname, -⟩, -⟩ := oneFileImage_contents
  constructor
  case toDirectoryOn =>
    refine ⟨by decide, hroot, by decide, hnext, by decide, 59, ?_⟩
    rw [chainSlots, List.flatMap_singleton, hslots]
    rfl
  case typed => simp [htype]
  case terminated => simp [hname, nameMaxSize]

/-- The entry of the root directory. -/
def rootEntry : Vfs.Entry := ⟨none, [], 2, .directory, some 65, []⟩

theorem lookupAnswers_oneFile :
    LookupAnswers (rootOnly 65) oneFileImage Vfs.fsRoot rootEntry [67] [97] 0 :=
  (lookupAnswers_iff oneFileImage_directory rfl rfl rfl [97] 0).mpr
    (.inl ⟨67, List.mem_singleton_self 67, oneFileImage_contents.2.1.2.1⟩)

/-- The name `b` is looked for without an end. -/
theorem not_lookupAnswers_absent :
    ¬LookupAnswers (rootOnly 65) oneFileImage Vfs.fsRoot rootEntry [67] [98] 0 := by
  intro hanswers
  rcases hanswers.found_or_empty oneFileImage_directory rfl rfl with
    ⟨child, hmem, hname⟩ | ⟨hempty, -⟩
  · obtain rfl := List.mem_singleton.mp hmem
    rw [oneFileImage_contents.2.1.2.1] at hname
    cases hname
  · cases hempty

end PKernel.Pkfs
