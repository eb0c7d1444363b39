import PKernel.Pkfs.Linking

/-! # Creation without room

`create_file` and `create_dir` return 0 when they do not find the free pages that they need.
`create` of `superblock_ops.c` goes on with that: it enters the name in the cache, writes it
to sector 0 and links sector 0 in the directory.
-/

namespace PKernel.Pkfs

open Operation

variable {device : Device} {state : Vfs.State} {parent : Nat} {name : Vfs.Name}
  {type : Vfs.FileType} {createNode : Operation Nat} {nodePage bodyPage : Nat → Page}

/-- `create_file` or `create_dir` returns 0. -/
def Fails (createNode : Operation Nat) (device : Device) : Prop :=
  ∃ result device', createNode device = .ok (result, device') ∧ result.getD 0 = 0

/-- `create` returns `NULL`. The sectors in use and those in front of the root page are what
they were. -/
def Harmless (state : Vfs.State) (device : Device) (parent : Nat) (name : Vfs.Name)
    (type : Vfs.FileType) : Prop :=
  ∃ state' device', create state device parent name type = .ok (none, state', device') ∧
    ∀ page, page < rootAddress ∨ (device.pages page).inUse = true →
      device'.pages page = device.pages page

/-- If making the node fails, then creating it is harmless. -/
def FailsHarmlessly (state : Vfs.State) (device : Device) (parent : Nat) (name : Vfs.Name)
    (type : Vfs.FileType) : Prop :=
  ∀ createNode, createNode? type = some createNode → Fails createNode device →
    Harmless state device parent name type

/-- There are pages for a node and its body, and one more for `first_free`. -/
def RoomForNode (device : Device) : Prop := ∃ top below free, Taken device top below free ∧ top ≠ 0

/-! ## Making a node -/

/-- The operation returns on every device. -/
def Operation.Returns {α : Type} (operation : Operation α) : Prop :=
  ∀ device, ∃ outcome, operation device = .ok outcome

theorem Operation.Returns.bind {α β : Type} {operation : Operation α} {next : α → Operation β}
    (hreturns : operation.Returns) (hnext : ∀ value, (next value).Returns) :
    (operation >>= next).Returns := by
  intro device
  obtain ⟨⟨result, device'⟩, hcall⟩ := hreturns device
  cases result with
  | none => exact ⟨_, bind_of_none hcall⟩
  | some value =>
      obtain ⟨outcome, hrest⟩ := hnext value device'
      exact ⟨outcome, (bind_of_some hcall).trans hrest⟩

theorem discRead_returns (address : Nat) : (discRead address).Returns := fun _ => ⟨_, rfl⟩

theorem discWrite_returns (address : Nat) (page : Page) : (discWrite address page).Returns := by
  intro device
  unfold discWrite
  split
  next => exact ⟨_, rfl⟩
  next => exact ⟨_, rfl⟩

theorem nextFree_returns (node : Nat) : (nextFree node).Returns := fun _ => ⟨_, rfl⟩

theorem createWith_returns (nodePage bodyPage : Nat → Page) :
    (createWith nodePage bodyPage).Returns :=
  (discRead_returns _).bind fun _ => (nextFree_returns _).bind fun _ =>
    (discWrite_returns _ _).bind fun _ => (discWrite_returns _ _).bind fun _ =>
      (nextFree_returns _).bind fun _ => (discWrite_returns _ _).bind fun _ => fun _ => ⟨_, rfl⟩

/-- Making a node fails exactly if there is no room for it. -/
theorem fails_createWith_iff : Fails (createWith nodePage bodyPage) device ↔ ¬RoomForNode device := by
  constructor
  · rintro ⟨result, device', hcall, hresult⟩ ⟨top, below, free, htaken, htop⟩
    rw [createWith_of_taken htaken] at hcall
    cases hcall
    exact htop hresult
  · intro hroom
    obtain ⟨⟨result, device'⟩, hcall⟩ := createWith_returns nodePage bodyPage device
    refine ⟨result, device', hcall, ?_⟩
    by_contra hresult
    cases result with
    | none => exact hresult rfl
    | some top =>
        obtain ⟨below, free, htaken, -⟩ := createWith_eq_ok hcall
        exact hroom ⟨top, below, free, htaken, hresult⟩

theorem fails_iff (hnode : createNode? type = some createNode) :
    Fails createNode device ↔ ¬RoomForNode device := by
  cases type with
  | regular =>
      obtain rfl : createFile = createNode := Option.some.inj hnode
      exact fails_createWith_iff
  | directory =>
      obtain rfl : createDir = createNode := Option.some.inj hnode
      exact fails_createWith_iff
  | device => cases hnode
  | pipe => cases hnode
  | socket => cases hnode

/-! ## Creating it -/

/-- `create` returns `NULL` only where it makes no node. -/
theorem not_harmless (hnode : createNode? type = some createNode) :
    ¬Harmless state device parent name type := by
  rintro ⟨state', device', hcall, -⟩
  rw [create, hnode] at hcall
  simp only at hcall
  obtain ⟨entry, -, hcall⟩ := bind_eq_ok.mp hcall
  cases hdirectory : entry.node with
  | none => simp [hdirectory] at hcall
  | some directory =>
      simp only [hdirectory] at hcall
      obtain ⟨⟨created, middle⟩, -, hcall⟩ := bind_eq_ok.mp hcall
      cases hnodes : Vfs.addNode entry.nodes name with
      | none => simp [hnodes] at hcall
      | some nodes =>
          simp only [hnodes] at hcall
          obtain ⟨counted, -, hcall⟩ := bind_eq_ok.mp hcall
          obtain ⟨⟨linked, last⟩, -, hcall⟩ := bind_eq_ok.mp hcall
          cases hcall

/-- A failed creation is harmless exactly if it cannot happen: the type has no node, or there
is room for one. -/
theorem failsHarmlessly_iff (state : Vfs.State) (device : Device) (parent : Nat) (name : Vfs.Name)
    (type : Vfs.FileType) : FailsHarmlessly state device parent name type ↔
      createNode? type = none ∨ RoomForNode device := by
  cases hnode : createNode? type with
  | none =>
      refine iff_of_true (fun createNode hcreate => ?_) (.inl rfl)
      rw [hnode] at hcreate
      cases hcreate
  | some createNode =>
      constructor
      · intro hfails
        right
        by_contra hroom
        exact not_harmless hnode (hfails createNode hnode ((fails_iff hnode).mpr hroom))
      · rintro (hnone | hroom)
        · cases hnone
        · intro other hother hfails
          exact absurd hroom ((fails_iff hother).mp hfails)

/-- A device that ends behind `first_free`. -/
def smallImage : Device := { emptyImage with size := 68, size_lt := by decide }

theorem smallImage_noRoom : ¬RoomForNode smallImage := by
  rintro ⟨top, below, free, htaken, -⟩
  have hfirst : smallImage.firstFree = 67 := Page.word_setWord_same _ (by decide)
  have htop := htaken.top_lt
  have hbelow := htaken.below_lt
  have hfree : free < 68 := htaken.free_lt
  rw [htaken.first, hfirst] at htop
  omega

/-- The name goes to sector 0, which was empty, and the caller gets an entry. -/
theorem not_failsHarmlessly_small :
    ¬FailsHarmlessly (rootOnly 65) smallImage Vfs.fsRoot [97] .regular ∧
      ∃ state' device', create (rootOnly 65) smallImage Vfs.fsRoot [97] .regular =
          .ok (some ⟨[97], some 1⟩, state', device') ∧
        (smallImage.pages 0).name = [] ∧ (device'.pages 0).name = [97] := by
  constructor
  · intro hfails
    have hnode : createNode? .regular = some createFile := rfl
    exact not_harmless hnode (hfails createFile hnode ((fails_iff hnode).mpr smallImage_noRoom))
  · have hcall : (create (rootOnly 65) smallImage Vfs.fsRoot [97] .regular).toOption.map
        (fun outcome => (outcome.1, (outcome.2.2.pages 0).name)) =
          some (some ⟨[97], some 1⟩, [97]) := by decide +kernel
    obtain ⟨⟨node, state', device'⟩, hcreate, hresult⟩ := Option.map_eq_some_iff.mp hcall
    obtain ⟨rfl, hname⟩ := Prod.mk.inj hresult
    exact ⟨state', device', toOption_eq_some.mp hcreate, by decide +kernel, hname⟩

end PKernel.Pkfs
